import TreeLang.Proofs.Builder.Declaring
import TreeLang.Proofs.Builder.Workshop
import TreeLang.Proofs.Tree.Path

namespace TreeLang

namespace Node

-- What is promised of a node by itself.
def Regular : Node → Prop
  | expr (.block _ scope children) => children ≠ [] ∧ scope.Regular
  | expr _ => True
  | function f => Identifier f.name ∧ f.parameters.Regular
  | module m => Identifier m.name ∧ (m.functions.map (·.name)).Nodup

-- The same of every node of a tree.
def Proper (root : Node) : Prop :=
  ∀ node ∈ root.preorder, node.Regular

theorem proper_iff {root : Node} :
    root.Proper ↔ root.Regular ∧ ∀ child ∈ root.children, child.Proper := by
  simp only [Proper]
  rw [preorder_eq, List.forall_mem_cons, List.forall_mem_flatMap]

theorem regular_of_kind_ne_block {e : Expr} (h : e.kind ≠ .block) : (expr e).Regular := by
  cases e with
  | block id scope children => exact absurd rfl h
  | _ => trivial

end Node

namespace ModuleBuilder

theorem duplicate?_eq_none_iff {earlier : List String} {fs : List Function} :
    duplicate? earlier fs = none ↔
      (∀ f ∈ fs, f.name ∉ earlier) ∧ (fs.map (·.name)).Nodup := by
  induction fs generalizing earlier with
  | nil => simp [duplicate?]
  | cons f rest ih =>
      by_cases hmem : f.name ∈ earlier
      · simp [duplicate?, hmem]
      · simp only [duplicate?, hmem, if_false, ih, List.map_cons, List.nodup_cons, List.mem_map,
          List.mem_cons]
        grind

end ModuleBuilder

-- What is promised of the parts a builder has collected.

def ScopeBuilder.Proper (builder : ScopeBuilder) : Prop :=
  Scope.Regular ⟨builder.declared⟩

structure BlockBuilder.Proper (builder : BlockBuilder) : Prop where
  scope : builder.scope.Proper
  children : ∀ e ∈ builder.children, (Node.expr e).Proper

structure FunctionBuilder.Proper (builder : FunctionBuilder) : Prop where
  parameters : builder.parameters.Proper
  block : builder.block.Proper
  body : ∀ e ∈ builder.body, (Node.expr e).Proper

def ModuleBuilder.Proper (builder : ModuleBuilder) : Prop :=
  ∀ f ∈ builder.functions, (Node.function f).Proper

open Workshop (handedOut)

theorem ScopeBuilder.proper_new : ScopeBuilder.Proper {} := Scope.regular_empty

theorem BlockBuilder.proper_new : BlockBuilder.Proper {} := ⟨ScopeBuilder.proper_new, by simp⟩

theorem ScopeBuilder.Proper.build {builder : ScopeBuilder} (h : builder.Proper) :
    ∀ scope ∈ handedOut builder.build.1, scope.Regular := by
  cases hfault : builder.fault with
  | some error => simp [build_of_fault hfault, handedOut]
  | none =>
      rw [build_of_no_fault hfault]
      exact List.forall_mem_singleton.mpr h

namespace BlockBuilder.Proper

variable {builder left : BlockBuilder} {result : Except Error Expr} {supply rest : Supply}

theorem outcome (h : builder.Proper) (houtcome : builder.Outcome supply ((result, left), rest)) :
    left.Proper ∧ ∀ e ∈ handedOut result, (Node.expr e).Proper := by
  cases houtcome with
  | scopeFault hfault => exact ⟨⟨ScopeBuilder.proper_new, h.children⟩, by simp [handedOut]⟩
  | empty hfault hempty => exact ⟨proper_new, by simp [handedOut]⟩
  | built hfault hne =>
      refine ⟨proper_new, ?_⟩
      simp only [handedOut, List.forall_mem_singleton]
      refine Node.proper_iff.mpr ⟨⟨hne, h.scope⟩, ?_⟩
      simpa [Node.children, Expr.children] using h.children

end BlockBuilder.Proper

namespace FunctionBuilder.Proper

variable {builder left : FunctionBuilder} {result : Except Error Function} {supply rest : Supply}

-- A function is proper once its body is, as its name and its parameters have been
-- checked.
theorem finish (h : builder.Proper) (hname : checkIdentifier "function" builder.name = .ok ())
    (id : NodeId) {body : Expr} (hbody : (Node.expr body).Proper) :
    (Node.function (builder.finish id body)).Proper := by
  have hidentifier := isIdentifier_iff.mp (isIdentifier_of_ok hname)
  refine Node.proper_iff.mpr ⟨⟨hidentifier, h.parameters⟩, ?_⟩
  simpa [Node.children, FunctionBuilder.finish] using hbody

theorem outcome (h : builder.Proper) (houtcome : builder.Outcome supply ((result, left), rest)) :
    left.Proper ∧ ∀ f ∈ handedOut result, (Node.function f).Proper := by
  have hnew := ScopeBuilder.proper_new
  cases houtcome with
  | misnamed hname => exact ⟨h, by simp [handedOut]⟩
  | parameterFault hname hfault => exact ⟨⟨hnew, h.block, h.body⟩, by simp [handedOut]⟩
  | twoBodies hname hfault hbody hne => exact ⟨⟨hnew, h.block, by simp⟩, by simp [handedOut]⟩
  | given hname hfault hbody hempty =>
      refine ⟨⟨hnew, h.block, by simp⟩, ?_⟩
      simpa [handedOut] using h.finish hname supply.nextNode (h.body _ hbody)
  | blockFault hname hfault hbody hblock =>
      obtain ⟨hleft, -⟩ := h.block.outcome hblock
      exact ⟨⟨hnew, hleft, h.body⟩, by simp [handedOut]⟩
  | @collected body block rest hname hfault hbody hblock =>
      obtain ⟨hleft, hbuilt⟩ := h.block.outcome hblock
      refine ⟨⟨hnew, hleft, h.body⟩, ?_⟩
      simpa [handedOut] using h.finish hname rest.nextNode (hbuilt body (by simp [handedOut]))

end FunctionBuilder.Proper

theorem ModuleBuilder.Proper.outcome {builder left : ModuleBuilder} {result : Except Error Module}
    {supply rest : Supply} (h : builder.Proper)
    (houtcome : builder.Outcome supply ((result, left), rest)) :
    left.Proper ∧ ∀ m ∈ handedOut result, (Node.module m).Proper := by
  cases houtcome with
  | misnamed hname => exact ⟨h, by simp [handedOut]⟩
  | duplicate hname hduplicate => exact ⟨by simp [Proper], by simp [handedOut]⟩
  | built hname hdistinct =>
      refine ⟨by simp [Proper], ?_⟩
      have hidentifier := isIdentifier_iff.mp (isIdentifier_of_ok hname)
      simp only [handedOut, List.forall_mem_singleton]
      refine Node.proper_iff.mpr ⟨⟨hidentifier, (duplicate?_eq_none_iff.mp hdistinct).2⟩, ?_⟩
      simpa [Node.children, Proper] using h

namespace Workshop

structure Proper (w : Workshop) : Prop where
  exprs : ∀ e ∈ w.exprs, (Node.expr e).Proper
  scopes : ∀ scope ∈ w.scopes, scope.Regular
  functions : ∀ f ∈ w.functions, (Node.function f).Proper
  modules : ∀ m ∈ w.modules, (Node.module m).Proper
  scopeBuilders : ∀ builder ∈ w.scopeBuilders, builder.Proper
  blockBuilders : ∀ builder ∈ w.blockBuilders, builder.Proper
  functionBuilders : ∀ builder ∈ w.functionBuilders, builder.Proper
  moduleBuilders : ∀ builder ∈ w.moduleBuilders, builder.Proper

-- What holds of all in hand holds of the one that is taken and of the others.
theorem forall_taken {α : Type} {P : α → Prop} {xs rest : List α} {x : α}
    (h : ∀ y ∈ xs, P y) (htaken : xs.Perm (x :: rest)) : P x ∧ ∀ y ∈ rest, P y :=
  List.forall_mem_cons.mp fun y hy => h y (htaken.mem_iff.mpr hy)

theorem BlockStep.proper {builder left : BlockBuilder} {exprs exprs' : List Expr}
    {supply supply' : Supply} (hstep : BlockStep builder exprs supply left exprs' supply')
    (hbuilder : builder.Proper) (hexprs : ∀ e ∈ exprs, (Node.expr e).Proper) :
    left.Proper ∧ ∀ e ∈ exprs', (Node.expr e).Proper := by
  cases hstep with
  | declare v => exact ⟨⟨ScopeBuilder.regular_add hbuilder.scope v, hbuilder.children⟩, hexprs⟩
  | add htaken =>
      obtain ⟨he, hrest⟩ := forall_taken hexprs htaken
      refine ⟨⟨hbuilder.scope, ?_⟩, hrest⟩
      exact List.forall_mem_append.mpr ⟨hbuilder.children, List.forall_mem_singleton.mpr he⟩
  | build hbuild =>
      have houtcome := BlockBuilder.outcome_of_build hbuild
      obtain ⟨hleft, hbuilt⟩ := hbuilder.outcome houtcome
      exact ⟨hleft, List.forall_mem_append.mpr ⟨hbuilt, hexprs⟩⟩

theorem Step.proper {w w' : Workshop} (hstep : Step w w') (h : w.Proper) : w'.Proper := by
  cases hstep with
  | @node e rest hkind hid howned =>
      have hall : ∀ x ∈ e.children ++ rest, (Node.expr x).Proper :=
        fun x hx => h.exprs x (howned.mem_iff.mpr hx)
      obtain ⟨hchildren, hrest⟩ := List.forall_mem_append.mp hall
      have he : (Node.expr e).Proper := by
        refine Node.proper_iff.mpr ⟨Node.regular_of_kind_ne_block hkind, ?_⟩
        simpa [Node.children] using hchildren
      exact { h with exprs := List.forall_mem_cons.mpr ⟨he, hrest⟩ }
  | newScope =>
      exact { h with
        scopeBuilders := List.forall_mem_cons.mpr ⟨ScopeBuilder.proper_new, h.scopeBuilders⟩ }
  | declare v htaken =>
      obtain ⟨hbuilder, hrest⟩ := forall_taken h.scopeBuilders htaken
      exact { h with
        scopeBuilders := List.forall_mem_cons.mpr ⟨ScopeBuilder.regular_add hbuilder v, hrest⟩ }
  | @buildScope builder rest htaken =>
      obtain ⟨hbuilder, hrest⟩ := forall_taken h.scopeBuilders htaken
      have hleft : builder.build.2.Proper := by
        rw [builder.build_snd]
        exact ScopeBuilder.proper_new
      exact { h with
        scopes := List.forall_mem_append.mpr ⟨hbuilder.build, h.scopes⟩
        scopeBuilders := List.forall_mem_cons.mpr ⟨hleft, hrest⟩ }
  | newBlock =>
      exact { h with
        blockBuilders := List.forall_mem_cons.mpr ⟨BlockBuilder.proper_new, h.blockBuilders⟩ }
  | block htaken hstep =>
      obtain ⟨hbuilder, hrest⟩ := forall_taken h.blockBuilders htaken
      obtain ⟨hleft, hexprs⟩ := hstep.proper hbuilder h.exprs
      exact { h with
        exprs := hexprs
        blockBuilders := List.forall_mem_cons.mpr ⟨hleft, hrest⟩ }
  | newFunction name returnType =>
      have hnew : FunctionBuilder.Proper { name, returnType } :=
        ⟨ScopeBuilder.proper_new, BlockBuilder.proper_new, by simp⟩
      exact { h with
        functionBuilders := List.forall_mem_cons.mpr ⟨hnew, h.functionBuilders⟩ }
  | addParameter v htaken =>
      obtain ⟨hbuilder, hrest⟩ := forall_taken h.functionBuilders htaken
      have hparameters := ScopeBuilder.regular_add hbuilder.parameters v
      exact { h with
        functionBuilders :=
          List.forall_mem_cons.mpr ⟨⟨hparameters, hbuilder.block, hbuilder.body⟩, hrest⟩ }
  | functionBlock htaken hstep =>
      obtain ⟨hbuilder, hrest⟩ := forall_taken h.functionBuilders htaken
      obtain ⟨hleft, hexprs⟩ := hstep.proper hbuilder.block h.exprs
      exact { h with
        exprs := hexprs
        functionBuilders :=
          List.forall_mem_cons.mpr ⟨⟨hbuilder.parameters, hleft, hbuilder.body⟩, hrest⟩ }
  | withBody htaken hbody =>
      obtain ⟨hbuilder, hrest⟩ := forall_taken h.functionBuilders htaken
      obtain ⟨he, hexprs⟩ := forall_taken h.exprs hbody
      have hgiven : (FunctionBuilder.withBody _ _).Proper :=
        ⟨hbuilder.parameters, hbuilder.block, by simpa [FunctionBuilder.withBody] using he⟩
      exact { h with
        exprs := hexprs
        functionBuilders := List.forall_mem_cons.mpr ⟨hgiven, hrest⟩ }
  | @buildFunction builder left rest result supply htaken hbuild =>
      obtain ⟨hbuilder, hrest⟩ := forall_taken h.functionBuilders htaken
      have houtcome := FunctionBuilder.outcome_of_build hbuild
      obtain ⟨hleft, hbuilt⟩ := hbuilder.outcome houtcome
      exact { h with
        functions := List.forall_mem_append.mpr ⟨hbuilt, h.functions⟩
        functionBuilders := List.forall_mem_cons.mpr ⟨hleft, hrest⟩ }
  | newModule name =>
      exact { h with
        moduleBuilders :=
          List.forall_mem_cons.mpr ⟨by simp [ModuleBuilder.Proper], h.moduleBuilders⟩ }
  | addFunction htaken hfunction =>
      obtain ⟨hbuilder, hrest⟩ := forall_taken h.moduleBuilders htaken
      obtain ⟨hf, hfunctions⟩ := forall_taken h.functions hfunction
      have hadded : (ModuleBuilder.add _ _).Proper :=
        List.forall_mem_append.mpr ⟨hbuilder, List.forall_mem_singleton.mpr hf⟩
      exact { h with
        functions := hfunctions
        moduleBuilders := List.forall_mem_cons.mpr ⟨hadded, hrest⟩ }
  | @buildModule builder left rest result supply htaken hbuild =>
      obtain ⟨hbuilder, hrest⟩ := forall_taken h.moduleBuilders htaken
      have houtcome := ModuleBuilder.outcome_of_build hbuild
      obtain ⟨hleft, hbuilt⟩ := hbuilder.outcome houtcome
      exact { h with
        modules := List.forall_mem_append.mpr ⟨hbuilt, h.modules⟩
        moduleBuilders := List.forall_mem_cons.mpr ⟨hleft, hrest⟩ }

-- The trees in hand.
def held (w : Workshop) : List Node :=
  w.exprs.map .expr ++ w.functions.map .function ++ w.modules.map .module

theorem Reachable.proper {w : Workshop} (h : Reachable w) : w.Proper := by
  induction h with
  | start => constructor <;> simp
  | step _ hstep ih => exact hstep.proper ih

theorem Proper.held {w : Workshop} (h : w.Proper) : ∀ root ∈ w.held, root.Proper := by
  simp only [Workshop.held, List.forall_mem_append, List.forall_mem_map]
  exact ⟨⟨h.exprs, h.functions⟩, h.modules⟩

-- Whatever is done with whatever builders there are, and whichever builds fail on
-- the way, every scope, block, function and module that is handed out is regular,
-- with all that is below it.
theorem reachable_regular {w : Workshop} (h : w.Reachable) :
    (∀ scope ∈ w.scopes, scope.Faithful) ∧
    ∀ root ∈ w.held,
      (∀ id scope children, .expr (.block id scope children) ∈ root.preorder →
        children ≠ [] ∧ scope.Faithful) ∧
      (∀ f, .function f ∈ root.preorder → Identifier f.name ∧ f.parameters.Faithful) ∧
      (∀ m, .module m ∈ root.preorder →
        Identifier m.name ∧ (m.functions.map (·.name)).Nodup ∧
          (∀ g ∈ m.functions, m.find? g.name = some g) ∧
          ∀ name, (∀ g ∈ m.functions, g.name ≠ name) → m.find? name = none) := by
  have hproper := h.proper
  refine ⟨fun scope hscope => (hproper.scopes scope hscope).faithful,
    fun root hroot => ⟨?_, ?_, ?_⟩⟩
  · intro id scope children hblock
    obtain ⟨hne, hscope⟩ := hproper.held root hroot _ hblock
    exact ⟨hne, hscope.faithful⟩
  · intro f hf
    obtain ⟨hname, hparameters⟩ := hproper.held root hroot _ hf
    exact ⟨hname, hparameters.faithful⟩
  · intro m hm
    obtain ⟨hname, hdistinct⟩ := hproper.held root hroot _ hm
    refine ⟨hname, hdistinct, fun g hg => ?_, fun name hother => ?_⟩
    · exact (find?_name_eq_some_iff hdistinct).mpr ⟨hg, rfl⟩
    · simpa [Module.find?] using hother

-- A function whose block declares one name twice fails to build, is given the
-- declaration once more, and then becomes part of a module.
theorem reachable_regular_after_failure :
    let x : Variable := ⟨⟨1⟩, "x", .int32⟩
    let seven : Expr := .int32 ⟨1⟩ 7
    let f : Function := ⟨⟨3⟩, "f", .int32, ⟨[]⟩, .block ⟨2⟩ ⟨[x]⟩ [seven]⟩
    let m : Module := ⟨⟨4⟩, "m", [f]⟩
    let w : Workshop :=
      { supply := ⟨⟨5⟩, ⟨1⟩⟩, modules := [m],
        functionBuilders := [{ name := "f", returnType := .int32 }],
        moduleBuilders := [{ name := "m" }] }
    w.Reachable ∧ (Scope.mk [x]).Faithful ∧ m.find? "f" = some f ∧ m.find? "g" = none := by
  have declared := ((Reachable.start.step (.newFunction "f" .int32)).step
    (.functionBlock (.refl _) (.declare ⟨⟨1⟩, "x", .int32⟩))).step
      (.functionBlock (.refl _) (.declare ⟨⟨1⟩, "x", .int32⟩))
  have filled := (declared.step (.node (e := .int32 ⟨1⟩ 7) nofun rfl (.refl _))).step
    (.functionBlock (.refl _) (.add (.refl _)))
  have failed := filled.step (.buildFunction (.refl _) rfl)
  have built := (failed.step (.functionBlock (.refl _) (.declare ⟨⟨1⟩, "x", .int32⟩))).step
    (.buildFunction (.refl _) rfl)
  have added := (built.step (.newModule "m")).step (.addFunction (.refl _) (.refl _))
  have h := added.step (.buildModule (.refl _) rfl)
  intro x seven f m w
  replace h : w.Reachable := h
  obtain ⟨-, hheld⟩ := reachable_regular h
  obtain ⟨hblock, -, hmodule⟩ := hheld (.module m) (by simp [held, w])
  obtain ⟨-, hscope⟩ := hblock ⟨2⟩ ⟨[x]⟩ [seven] (by simp [Node.preorder, Expr.preorder, m, f])
  obtain ⟨-, -, hfind, hother⟩ := hmodule m (by simp [Node.preorder])
  exact ⟨h, hscope, hfind f (by simp [m]), hother "g" (by simp [m, f])⟩

end Workshop

end TreeLang

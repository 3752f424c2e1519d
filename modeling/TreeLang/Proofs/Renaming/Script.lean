import TreeLang.Proofs.Renaming.Construction
import TreeLang.Proofs.Renaming.Evaluation

namespace TreeLang

open TreeLang.Action

-- A description of any tree; an expression can also be wrapped into a module.
inductive TreeDraft (ν : Type) where
  | expr (draft : ExprDraft ν)
  | function (draft : FunctionDraft ν)
  | module (draft : ModuleDraft ν)
  | wrapped (moduleName functionName : String) (draft : ExprDraft ν)

def TreeDraft.construct {ν : Type} (real : ν → Variable) : TreeDraft ν → Action Supply Node
  | expr draft => do return .expr (← draft.construct real)
  | function draft => do return .function (← draft.construct real)
  | module draft => do return .module (← draft.construct real)
  | wrapped moduleName functionName draft => do
      let e ← draft.construct real
      return .module (← expressionModule moduleName functionName e)

-- Variables to declare and trees to make of them, one after the other.
structure Script where
  declarations : List (String × DataType)
  trees : List (TreeDraft (Fin declarations.length))

theorem length_freshVariables (declarations : List (String × DataType)) (supply : Supply) :
    ((freshVariables declarations).effect supply).1.length = declarations.length := by
  induction declarations generalizing supply with
  | nil => rfl
  | cons declaration rest ih => exact congrArg (· + 1) (ih _)

namespace Script

-- What is left over by a tree that fails is lost, but others can still be made.
def build {ν : Type} (real : ν → Variable) : List (TreeDraft ν) → Supply →
    List (Except Error Node)
  | [], _ => []
  | tree :: rest, supply =>
      let (built, left) := effect (tree.construct real) supply
      built :: build real rest left

variable (script : Script)

def declared (supply : Supply) : List Variable :=
  ((freshVariables script.declarations).effect supply).1

def real (supply : Supply) (i : Fin script.declarations.length) : Variable :=
  (script.declared supply).get (i.cast (length_freshVariables _ _).symm)

-- All trees of a script, made from a supply on.
def run (supply : Supply) : List (Except Error Node) :=
  build (script.real supply) script.trees ((freshVariables script.declarations).effect supply).2

end Script

-- The shift from the identities of one supply to those of the other.
def Renaming.between (supply supply' : Supply) : Renaming where
  onNodes id := ⟨id.index + (supply'.nextNode.index - supply.nextNode.index)⟩
  onVariables id := ⟨id.index + (supply'.nextVariable.index - supply.nextVariable.index)⟩
  nodes_injective := fun a b h => by
    cases a
    cases b
    simpa using h
  variables_injective := fun a b h => by
    cases a
    cases b
    simpa using h

theorem Renaming.between_steady (supply supply' : Supply) : (between supply supply').Steady where
  onNodes index := by
    simp only [between, UInt32.add_assoc, UInt32.add_comm 1]
  onVariables index := by
    simp only [between, UInt32.add_assoc, UInt32.add_comm 1]

theorem Supply.rename_between (supply supply' : Supply) :
    supply.rename (.between supply supply') = supply' := by
  simp only [rename, Renaming.between, UInt32.add_comm _ (_ - _), UInt32.sub_add_cancel]

variable {ρ : Renaming}

theorem TreeDraft.construct_follows {ν : Type} (h : ρ.Steady) (real : ν → Variable)
    (tree : TreeDraft ν) :
    Follows ρ (Supply.rename ρ) (Node.rename ρ) (tree.construct real)
      (tree.construct (renamed ρ real)) := by
  cases tree with
  | expr draft => exact .bind (draft.construct_follows h real) fun e => .pure _ (Node.expr e)
  | function draft =>
      exact .bind (draft.construct_follows h real) fun f => .pure _ (Node.function f)
  | module draft => exact .bind (draft.construct_follows h real) fun m => .pure _ (Node.module m)
  | wrapped moduleName functionName draft =>
      refine .bind (draft.construct_follows h real) fun e => ?_
      exact .bind (expressionModule_follows h moduleName functionName e) fun m =>
        .pure _ (Node.module m)

namespace Script

theorem build_renamed {ν : Type} (h : ρ.Steady) (real : ν → Variable)
    (trees : List (TreeDraft ν)) (supply : Supply) :
    build (renamed ρ real) trees (supply.rename ρ) =
      (build real trees supply).map (ρ.onResult (Node.rename ρ)) := by
  induction trees generalizing supply with
  | nil => rfl
  | cons tree rest ih =>
      rw [build, build, tree.construct_follows h real supply, List.map_cons, ← ih]

theorem run_renamed (script : Script) (h : ρ.Steady) (supply : Supply) :
    script.run (supply.rename ρ) = (script.run supply).map (ρ.onResult (Node.rename ρ)) := by
  have hdeclared := freshVariables_follows h script.declarations supply
  have hreal : script.real (supply.rename ρ) = renamed ρ (script.real supply) := by
    funext i
    have hlist : script.declared (supply.rename ρ) =
        (script.declared supply).map (Variable.rename ρ) := congrArg Prod.fst hdeclared
    simp only [real, renamed, hlist, List.get_eq_getElem, List.getElem_map]
    rfl
  rw [run, run, hreal, ← build_renamed h, hdeclared]

-- A script makes the same trees from whatever identities it starts with, or fails
-- with the same errors, up to the shift between the two. Whatever is then done with
-- a tree has the result of the same thing done with the other one: each check and
-- evaluation, the text that is printed, and the exchanges with any visitor that does not
-- tell the two apart.
theorem run_shifted (script : Script) (supply supply' : Supply) :
    let ρ := Renaming.between supply supply'
    script.run supply' = (script.run supply).map (ρ.onResult (Node.rename ρ)) ∧
    (∀ root : Node,
      (typeCheck (root.rename ρ)).run.value = ρ.onResult id (typeCheck root).run.value ∧
      (prettyPrint (root.rename ρ)).run.value = ρ.onResult id (prettyPrint root).run.value ∧
      (∀ m m' : Machine,
        (effect (evaluate (root.rename ρ)) m').1 = ρ.onResult id (effect (evaluate root) m).1) ∧
      (root.rename ρ).calls = root.calls.map (Call.rename ρ) ∧
      ∀ {σ τ : Type} (onState : σ → τ) (visitor : Visitor σ) (visitor' : Visitor τ),
        visitor.Follows ρ onState visitor' →
          Follows ρ (Audit.rename ρ onState) id (walk visitor.audited root)
            (walk visitor'.audited (root.rename ρ))) ∧
    ∀ (m : Module) (name : String),
      (evaluateFunction (m.rename ρ) name).run.value =
        ρ.onResult id (evaluateFunction m name).run.value := by
  intro ρ
  refine ⟨?_, fun root => ⟨typeCheck_rename root, prettyPrint_rename root, ?_,
    root.calls_rename, fun _ _ _ h => h.audited.walk root⟩, evaluateFunction_rename⟩
  · have hrun := script.run_renamed (Renaming.between_steady supply supply') supply
    rwa [Supply.rename_between] at hrun
  · intro m m'
    rw [effect_evaluate_anew _ m, effect_evaluate_anew _ m']
    exact congrArg Prod.fst (evaluate_follows root {})

-- A block that declares a name twice fails after its child was made, so the identity
-- of the child is not used again. The next tree is the same in both runs.
theorem run_shifted_after_failure :
    let script : Script :=
      { declarations := [("x", .int32)],
        trees :=
          [.expr (.block [0, 0] [.int32 1]),
           .expr (.block [0] [.assign 0 (.int32 7), .conditional (.int32 0) none (some (.ref 0))])] }
    let x : Variable := ⟨⟨1⟩, "x", .int32⟩
    let choice : Expr := .conditional ⟨6⟩ (.int32 ⟨4⟩ 0) none (some (.ref ⟨5⟩ x))
    let root : Node := .expr (.block ⟨7⟩ ⟨[x]⟩ [.assign ⟨3⟩ x (.int32 ⟨2⟩ 7), choice])
    let ρ := Renaming.between ⟨⟨1⟩, ⟨1⟩⟩ ⟨⟨40⟩, ⟨9⟩⟩
    script.run ⟨⟨40⟩, ⟨9⟩⟩ =
        [.error { cause := .redeclaredVariable "x" }, .ok (root.rename ρ)] ∧
      (root.rename ρ).id = ⟨46⟩ ∧
      (effect (evaluate (root.rename ρ)) {}).1 = .ok (.int32 7) ∧
      evaluator.Follows ρ (Machine.rename ρ) evaluator ∧
      (effect (walk evaluator.audited (root.rename ρ)) ⟨{}, []⟩).2.exchanges =
        (effect (walk evaluator.audited root) ⟨{}, []⟩).2.exchanges.map (Exchange.rename ρ) := by
  have hfirst : Script.run
      { declarations := [("x", .int32)],
        trees :=
          [.expr (.block [0, 0] [.int32 1]),
           .expr (.block [0] [.assign 0 (.int32 7), .conditional (.int32 0) none (some (.ref 0))])] }
      ⟨⟨1⟩, ⟨1⟩⟩ =
        [.error { cause := .redeclaredVariable "x" },
         .ok (.expr (.block ⟨7⟩ ⟨[⟨⟨1⟩, "x", .int32⟩]⟩
          [.assign ⟨3⟩ ⟨⟨1⟩, "x", .int32⟩ (.int32 ⟨2⟩ 7),
           .conditional ⟨6⟩ (.int32 ⟨4⟩ 0) none (some (.ref ⟨5⟩ ⟨⟨1⟩, "x", .int32⟩))]))] := by rfl
  intro script x choice root ρ
  replace hfirst : script.run ⟨⟨1⟩, ⟨1⟩⟩ =
      [.error { cause := .redeclaredVariable "x" }, .ok root] := hfirst
  obtain ⟨hrun, hroot, -⟩ := run_shifted script ⟨⟨1⟩, ⟨1⟩⟩ ⟨⟨40⟩, ⟨9⟩⟩
  obtain ⟨-, -, hvalue, -, hvisitor⟩ := hroot root
  have hseven : (effect (evaluate root) {}).1 = .ok (.int32 7) := by decide +kernel
  have hexchanged := hvisitor (Machine.rename ρ) evaluator evaluator evaluator_follows ⟨{}, []⟩
  have hstart : Audit.rename ρ (Machine.rename ρ) ⟨{}, []⟩ = ⟨{}, []⟩ := rfl
  rw [hfirst] at hrun
  rw [hstart] at hexchanged
  refine ⟨hrun.trans rfl, rfl, ?_, evaluator_follows, ?_⟩
  · rw [hvalue {} {}, hseven]
    rfl
  · rw [hexchanged, Audit.rename]

end Script

end TreeLang

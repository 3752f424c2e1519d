import Mathlib.Data.Multiset.Bind
import Mathlib.Tactic.Abel
import TreeLang.Proofs.Builder.Workshop
import TreeLang.Proofs.Tree.Path

namespace TreeLang

-- The trees a builder owns.

def BlockBuilder.stock (builder : BlockBuilder) : List Node :=
  builder.children.map .expr

def FunctionBuilder.stock (builder : FunctionBuilder) : List Node :=
  builder.block.stock ++ builder.body.toList.map .expr

def ModuleBuilder.stock (builder : ModuleBuilder) : List Node :=
  builder.functions.map .function

-- A build has made this node of all a builder owned, and took one identity for it.
structure Spends (owned left : List Node) (supply : Supply) (node : Node) (rest : Supply) :
    Prop where
  id : node.id = supply.nextNode
  children : node.children = owned
  left : left = []
  supply : rest = supply.pastNode

section Outcomes

variable {supply rest : Supply} {error : Error}

theorem BlockBuilder.Outcome.spends {builder left : BlockBuilder} {e : Expr}
    (h : builder.Outcome supply ((.ok e, left), rest)) :
    Spends builder.stock left.stock supply (.expr e) rest := by
  cases h with
  | built hfault hne => exact ⟨rfl, rfl, rfl, rfl⟩

theorem BlockBuilder.Outcome.kept {builder left : BlockBuilder}
    (h : builder.Outcome supply ((.error error, left), rest)) :
    left.stock = builder.stock ∧ rest = supply := by
  cases h with
  | scopeFault hfault => exact ⟨rfl, rfl⟩
  | empty hfault hempty => exact ⟨by simp [BlockBuilder.stock, hempty], rfl⟩

-- A body that was given is dropped if it cannot be used.
theorem FunctionBuilder.Outcome.kept {builder left : FunctionBuilder}
    (h : builder.Outcome supply ((.error error, left), rest)) :
    left.stock.Sublist builder.stock ∧ rest = supply := by
  cases h with
  | misnamed hname => exact ⟨.refl _, rfl⟩
  | parameterFault hname hfault => exact ⟨.refl _, rfl⟩
  | twoBodies hname hfault hbody hne =>
      exact ⟨(List.Sublist.refl _).append (List.nil_sublist _), rfl⟩
  | blockFault hname hfault hbody hblock =>
      obtain ⟨hstock, hrest⟩ := hblock.kept
      refine ⟨?_, hrest⟩
      simp [FunctionBuilder.stock, hstock, hbody]

theorem FunctionBuilder.Outcome.spends_given {builder left : FunctionBuilder} {f : Function}
    (h : builder.Outcome supply ((.ok f, left), rest)) (hbody : builder.body ≠ none) :
    Spends builder.stock left.stock supply (.function f) rest := by
  cases h with
  | given hname hfault hgiven hempty =>
      refine ⟨rfl, ?_, ?_, rfl⟩
      · simp [FunctionBuilder.stock, BlockBuilder.stock, hgiven, hempty, Node.children, finish]
      · simp [FunctionBuilder.stock, BlockBuilder.stock, hempty]
  | collected hname hfault hnone hblock => exact absurd hnone hbody

-- Without a body of its own, the function is the second node that is made.
theorem FunctionBuilder.Outcome.spends_collected {builder left : FunctionBuilder} {f : Function}
    (h : builder.Outcome supply ((.ok f, left), rest)) (hbody : builder.body = none) :
    Spends builder.stock left.stock supply (.expr f.body) supply.pastNode ∧
      Spends [.expr f.body] [] supply.pastNode (.function f) rest := by
  cases h with
  | given hname hfault hgiven hempty => cases hbody.symm.trans hgiven
  | collected hname hfault hnone hblock =>
      obtain ⟨hid, hchildren, hleft, rfl⟩ := hblock.spends
      refine ⟨⟨hid, ?_, ?_, rfl⟩, ⟨rfl, rfl, rfl, rfl⟩⟩
      · simpa [FunctionBuilder.stock, hbody, finish] using hchildren
      · simp [FunctionBuilder.stock, hleft, hbody]

theorem ModuleBuilder.Outcome.spends {builder left : ModuleBuilder} {m : Module}
    (h : builder.Outcome supply ((.ok m, left), rest)) :
    Spends builder.stock left.stock supply (.module m) rest := by
  cases h with
  | built hname hdistinct => exact ⟨rfl, rfl, rfl, rfl⟩

theorem ModuleBuilder.Outcome.kept {builder left : ModuleBuilder}
    (h : builder.Outcome supply ((.error error, left), rest)) :
    left.stock.Sublist builder.stock ∧ rest = supply := by
  cases h with
  | misnamed hname => exact ⟨.refl _, rfl⟩
  | duplicate hname hduplicate => exact ⟨List.nil_sublist _, rfl⟩

end Outcomes

namespace Workshop

-- All trees there are: those in hand and those the builders own.
def stock (w : Workshop) : Multiset Node :=
  ↑(w.exprs.map Node.expr) + ↑(w.functions.map Node.function) + ↑(w.modules.map Node.module) +
    ↑(w.blockBuilders.flatMap BlockBuilder.stock) +
    ↑(w.functionBuilders.flatMap FunctionBuilder.stock) +
    ↑(w.moduleBuilders.flatMap ModuleBuilder.stock)

-- One operation with the nodes it makes, in the order it makes them. Most operations
-- make none, and so does a build that fails. A function whose body is collected has
-- its body made first.
inductive Makes : Workshop → List Node → Workshop → Prop where
  | nothing {w w' : Workshop} (hstep : Step w w') (hsupply : w'.supply = w.supply) :
      Makes w [] w'
  | node {w : Workshop} {e : Expr} {rest : List Expr} (hkind : e.kind ≠ .block)
      (hid : e.id = w.supply.nextNode) (howned : w.exprs.Perm (e.children ++ rest)) :
      Makes w [.expr e] { w with supply := w.supply.pastNode, exprs := e :: rest }
  | block {w : Workshop} {builder left : BlockBuilder} {rest : List BlockBuilder} {e : Expr}
      {supply : Supply} (h : w.blockBuilders.Perm (builder :: rest))
      (hbuild : builder.build.effect w.supply = ((.ok e, left), supply)) :
      Makes w [.expr e]
        { w with supply, exprs := e :: w.exprs, blockBuilders := left :: rest }
  | functionBlock {w : Workshop} {builder : FunctionBuilder} {rest : List FunctionBuilder}
      {left : BlockBuilder} {e : Expr} {supply : Supply}
      (h : w.functionBuilders.Perm (builder :: rest))
      (hbuild : builder.block.build.effect w.supply = ((.ok e, left), supply)) :
      Makes w [.expr e]
        { w with
          supply,
          exprs := e :: w.exprs,
          functionBuilders := { builder with block := left } :: rest }
  | function {w : Workshop} {builder left : FunctionBuilder} {rest : List FunctionBuilder}
      {f : Function} {supply : Supply} (h : w.functionBuilders.Perm (builder :: rest))
      (hbody : builder.body ≠ none)
      (hbuild : builder.build.effect w.supply = ((.ok f, left), supply)) :
      Makes w [.function f]
        { w with supply, functions := f :: w.functions, functionBuilders := left :: rest }
  | collected {w : Workshop} {builder left : FunctionBuilder} {rest : List FunctionBuilder}
      {f : Function} {supply : Supply} (h : w.functionBuilders.Perm (builder :: rest))
      (hbody : builder.body = none)
      (hbuild : builder.build.effect w.supply = ((.ok f, left), supply)) :
      Makes w [.expr f.body, .function f]
        { w with supply, functions := f :: w.functions, functionBuilders := left :: rest }
  | module {w : Workshop} {builder left : ModuleBuilder} {rest : List ModuleBuilder}
      {m : Module} {supply : Supply} (h : w.moduleBuilders.Perm (builder :: rest))
      (hbuild : builder.build.effect w.supply = ((.ok m, left), supply)) :
      Makes w [.module m]
        { w with supply, modules := m :: w.modules, moduleBuilders := left :: rest }

theorem Makes.step {w w' : Workshop} {nodes : List Node} (h : Makes w nodes w') : Step w w' := by
  cases h with
  | nothing hstep hsupply => exact hstep
  | node hkind hid howned => exact .node hkind hid howned
  | block h hbuild => exact .block h (.build hbuild)
  | functionBlock h hbuild => exact .functionBlock h (.build hbuild)
  | function h hbody hbuild => exact .buildFunction h hbuild
  | collected h hbody hbuild => exact .buildFunction h hbuild
  | module h hbuild => exact .buildModule h hbuild

theorem Step.makes {w w' : Workshop} (h : Step w w') : ∃ nodes, Makes w nodes w' := by
  cases h with
  | node hkind hid howned => exact ⟨_, .node hkind hid howned⟩
  | newScope => exact ⟨[], .nothing .newScope rfl⟩
  | declare v htaken => exact ⟨[], .nothing (.declare v htaken) rfl⟩
  | buildScope htaken => exact ⟨[], .nothing (.buildScope htaken) rfl⟩
  | newBlock => exact ⟨[], .nothing .newBlock rfl⟩
  | @block builder left rest exprs supply htaken hstep =>
      cases hstep with
      | declare v => exact ⟨[], .nothing (.block htaken (.declare v)) rfl⟩
      | add he => exact ⟨[], .nothing (.block htaken (.add he)) rfl⟩
      | @build _ _ _ _ result hbuild =>
          cases result with
          | ok e => exact ⟨_, .block htaken hbuild⟩
          | error error =>
              have houtcome := BlockBuilder.outcome_of_build hbuild
              exact ⟨[], .nothing (.block htaken (.build hbuild)) houtcome.kept.2⟩
  | newFunction name returnType => exact ⟨[], .nothing (.newFunction name returnType) rfl⟩
  | addParameter v htaken => exact ⟨[], .nothing (.addParameter v htaken) rfl⟩
  | @functionBlock builder rest left exprs supply htaken hstep =>
      cases hstep with
      | declare v => exact ⟨[], .nothing (.functionBlock htaken (.declare v)) rfl⟩
      | add he => exact ⟨[], .nothing (.functionBlock htaken (.add he)) rfl⟩
      | @build _ _ _ _ result hbuild =>
          cases result with
          | ok e => exact ⟨_, .functionBlock htaken hbuild⟩
          | error error =>
              have houtcome := BlockBuilder.outcome_of_build hbuild
              exact ⟨[], .nothing (.functionBlock htaken (.build hbuild)) houtcome.kept.2⟩
  | withBody htaken hbody => exact ⟨[], .nothing (.withBody htaken hbody) rfl⟩
  | @buildFunction builder left rest result supply htaken hbuild =>
      cases result with
      | ok f =>
          by_cases hbody : builder.body = none
          · exact ⟨_, .collected htaken hbody hbuild⟩
          · exact ⟨_, .function htaken hbody hbuild⟩
      | error error =>
          have houtcome := FunctionBuilder.outcome_of_build hbuild
          exact ⟨[], .nothing (.buildFunction htaken hbuild) houtcome.kept.2⟩
  | newModule name => exact ⟨[], .nothing (.newModule name) rfl⟩
  | addFunction htaken hf => exact ⟨[], .nothing (.addFunction htaken hf) rfl⟩
  | @buildModule builder left rest result supply htaken hbuild =>
      cases result with
      | ok m => exact ⟨_, .module htaken hbuild⟩
      | error error =>
          have houtcome := ModuleBuilder.outcome_of_build hbuild
          exact ⟨[], .nothing (.buildModule htaken hbuild) houtcome.kept.2⟩

-- All nodes that any sequence of operations has made, from the first one on, with what
-- the operations have led to.
inductive History : List Node → Workshop → Prop where
  | start : History [] {}
  | step {made nodes : List Node} {w w' : Workshop} (h : History made w)
      (hmakes : Makes w nodes w') : History (made ++ nodes) w'

theorem reachable_iff_history {w : Workshop} : w.Reachable ↔ ∃ made, History made w := by
  constructor
  · intro h
    induction h with
    | start => exact ⟨[], .start⟩
    | step _ hstep ih =>
        obtain ⟨made, hmade⟩ := ih
        obtain ⟨nodes, hnodes⟩ := hstep.makes
        exact ⟨made ++ nodes, .step hmade hnodes⟩
  · rintro ⟨made, h⟩
    induction h with
    | start => exact .start
    | step _ hmakes ih => exact .step ih hmakes.step

end Workshop

end TreeLang

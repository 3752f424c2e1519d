import TreeLang.Proofs.Builder.Ledger

namespace TreeLang

-- Nodes are made one after the other: each takes an identity, and its children out of
-- the trees there are. Trees can be dropped in the end, but none can be used twice.
inductive Turns : Supply → Multiset Node → List Node → Supply → Multiset Node → Prop where
  | done {supply : Supply} {stock stock' : Multiset Node} (h : stock' ≤ stock) :
      Turns supply stock [] supply stock'
  | make {supply supply' : Supply} {stock kept stock' : Multiset Node} {node : Node}
      {nodes : List Node} (hid : node.id = supply.nextNode)
      (howned : ↑node.children + kept ≤ stock)
      (h : Turns supply.pastNode (node ::ₘ kept) nodes supply' stock') :
      Turns supply stock (node :: nodes) supply' stock'

theorem Spends.turns {owned left : List Node} {supply rest : Supply} {node : Node}
    (h : Spends owned left supply node rest) (kept : Multiset Node) {nodes : List Node}
    {supply' : Supply} {stock : Multiset Node}
    (hlater : Turns rest (node ::ₘ (↑left + kept)) nodes supply' stock) :
    Turns supply (↑owned + kept) (node :: nodes) supply' stock := by
  obtain ⟨hid, hchildren, rfl, rfl⟩ := h
  refine .make hid (le_of_eq (by rw [hchildren])) ?_
  simpa using hlater

theorem Supply.pastNode_ne (supply : Supply) :
    supply.pastNode ≠ supply ∧ supply.pastNode.pastNode ≠ supply := by
  have hindex : ∀ {other : Supply}, other = supply →
      other.nextNode.index.toNat = supply.nextNode.index.toNat := fun h => by rw [h]
  refine ⟨fun h => ?_, fun h => ?_⟩
  · have hone := hindex h
    simp only [pastNode, UInt32.toNat_add, UInt32.toNat_one] at hone
    omega
  · have htwo := hindex h
    simp only [pastNode, UInt32.toNat_add, UInt32.toNat_one] at htwo
    omega

theorem FunctionBuilder.coe_stock (builder : FunctionBuilder) :
    (↑builder.stock : Multiset Node) =
      ↑builder.block.stock + ↑(builder.body.toList.map Node.expr) :=
  (Multiset.coe_add _ _).symm

-- The nodes of some trees, each as often as it occurs in them.
def nodesOf (trees : Multiset Node) : Multiset Node :=
  trees.bind fun root => ↑root.preorder

theorem nodesOf_add (trees others : Multiset Node) :
    nodesOf (trees + others) = nodesOf trees + nodesOf others :=
  Multiset.add_bind _ _ _

theorem nodesOf_coe (trees : List Node) :
    nodesOf ↑trees = ↑(trees.flatMap Node.preorder) :=
  Multiset.coe_bind _ _

-- A node is there once more than what is below it.
theorem nodesOf_cons (node : Node) (trees : Multiset Node) :
    nodesOf (node ::ₘ trees) = nodesOf (↑node.children + trees) + {node} := by
  rw [nodesOf_add, nodesOf_coe, nodesOf, Multiset.cons_bind, node.preorder_eq,
    ← Multiset.cons_coe, Multiset.cons_add, ← Multiset.singleton_add]
  exact add_comm _ _

-- The invariant of all that is made. Identities are given out in turn, no two of the
-- trees there are share a node, and what is below a node was made before it and is
-- not below it in two places.
structure Accounted (made : List Node) (supply : Supply) (stock : Multiset Node) : Prop where
  next : supply.nextNode = ⟨UInt32.ofNat (made.length + 1)⟩
  numbered : made.map Node.id = (List.range made.length).map fun n => ⟨UInt32.ofNat (n + 1)⟩
  owned : nodesOf stock ≤ ↑made
  below : ∀ before node after, made = before ++ node :: after →
    (node.children.flatMap Node.preorder).Subperm before

namespace Accounted

variable {made : List Node} {supply : Supply} {stock stock' : Multiset Node}

theorem of_le (h : Accounted made supply stock) (hle : stock' ≤ stock) :
    Accounted made supply stock' where
  next := h.next
  numbered := h.numbered
  owned := by
    obtain ⟨dropped, rfl⟩ := Multiset.le_iff_exists_add.mp hle
    have howned := h.owned
    rw [nodesOf_add] at howned
    exact (Multiset.le_add_right _ _).trans howned
  below := h.below

theorem make {node : Node} {kept : Multiset Node}
    (h : Accounted made supply (↑node.children + kept)) (hid : node.id = supply.nextNode) :
    Accounted (made ++ [node]) supply.pastNode (node ::ₘ kept) where
  next := by simp [Supply.pastNode, h.next]
  numbered := by
    rw [List.map_append, h.numbered, List.length_append, List.length_singleton, List.range_succ,
      List.map_append, List.map_singleton, List.map_singleton, hid, h.next]
  owned := by
    rw [nodesOf_cons, ← Multiset.coe_add]
    exact add_le_add h.owned le_rfl
  below before x after hsplit := by
    rcases List.eq_nil_or_concat after with rfl | ⟨after, last, rfl⟩
    · obtain ⟨rfl, hlast⟩ := List.append_inj' hsplit rfl
      obtain rfl : node = x := by simpa using hlast
      have howned := h.owned
      rw [nodesOf_add, nodesOf_coe] at howned
      exact Multiset.coe_le.mp ((Multiset.le_add_right _ _).trans howned)
    · rw [List.concat_eq_append, ← List.cons_append, ← List.append_assoc] at hsplit
      exact h.below before x after (List.append_inj' hsplit rfl).1

end Accounted

theorem Turns.accounted {made nodes : List Node} {supply supply' : Supply}
    {stock stock' : Multiset Node} (h : Turns supply stock nodes supply' stock')
    (hmade : Accounted made supply stock) : Accounted (made ++ nodes) supply' stock' := by
  induction h generalizing made with
  | done hle => simpa using hmade.of_le hle
  | make hid howned _ ih => simpa using ih ((hmade.of_le howned).make hid)

namespace Workshop

section Stock

variable {w : Workshop}

-- What is taken out of the workshop, and what is left there.

theorem coe_flatMap_taken {α : Type} {xs rest : List α} {x : α} (h : xs.Perm (x :: rest))
    (trees : α → List Node) :
    (↑(xs.flatMap trees) : Multiset Node) = ↑(trees x) + ↑(rest.flatMap trees) := by
  rw [Multiset.coe_add, ← List.flatMap_cons]
  exact Multiset.coe_eq_coe.mpr (h.flatMap_right trees)

theorem stock_exprs (taken : List Expr) {rest : List Expr} (h : w.exprs.Perm (taken ++ rest)) :
    w.stock = ↑(taken.map Node.expr) + { w with exprs := rest }.stock := by
  have hperm : (↑(w.exprs.map Node.expr) : Multiset Node) =
      ↑(taken.map Node.expr) + ↑(rest.map Node.expr) := by
    rw [Multiset.coe_add, ← List.map_append]
    exact Multiset.coe_eq_coe.mpr (h.map _)
  simp only [stock, hperm]
  abel

theorem stock_functions {f : Function} {rest : List Function}
    (h : w.functions.Perm (f :: rest)) :
    w.stock = ↑[Node.function f] + { w with functions := rest }.stock := by
  have hperm : (↑(w.functions.map Node.function) : Multiset Node) =
      ↑[Node.function f] + ↑(rest.map Node.function) :=
    Multiset.coe_eq_coe.mpr (h.map _)
  simp only [stock, hperm]
  abel

theorem stock_modules {m : Module} {rest : List Module} (h : w.modules.Perm (m :: rest)) :
    w.stock = ↑[Node.module m] + { w with modules := rest }.stock := by
  have hperm : (↑(w.modules.map Node.module) : Multiset Node) =
      ↑[Node.module m] + ↑(rest.map Node.module) :=
    Multiset.coe_eq_coe.mpr (h.map _)
  simp only [stock, hperm]
  abel

theorem stock_blockBuilders {builder : BlockBuilder} {rest : List BlockBuilder}
    (h : w.blockBuilders.Perm (builder :: rest)) :
    w.stock = ↑builder.stock + { w with blockBuilders := rest }.stock := by
  simp only [stock, coe_flatMap_taken h]
  abel

theorem stock_functionBuilders {builder : FunctionBuilder} {rest : List FunctionBuilder}
    (h : w.functionBuilders.Perm (builder :: rest)) :
    w.stock = ↑builder.stock + { w with functionBuilders := rest }.stock := by
  simp only [stock, coe_flatMap_taken h]
  abel

theorem stock_moduleBuilders {builder : ModuleBuilder} {rest : List ModuleBuilder}
    (h : w.moduleBuilders.Perm (builder :: rest)) :
    w.stock = ↑builder.stock + { w with moduleBuilders := rest }.stock := by
  simp only [stock, coe_flatMap_taken h]
  abel

end Stock

-- An operation that takes no identity moves trees about, and may drop some.

theorem BlockStep.stock_eq {builder left : BlockBuilder} {exprs exprs' : List Expr}
    {supply supply' : Supply} (h : BlockStep builder exprs supply left exprs' supply')
    (hsupply : supply' = supply) :
    (↑left.stock + ↑(exprs'.map Node.expr) : Multiset Node) =
      ↑builder.stock + ↑(exprs.map Node.expr) := by
  cases h with
  | declare v => rfl
  | add htaken =>
      rw [Multiset.coe_eq_coe.mpr (htaken.map Node.expr)]
      simp only [BlockBuilder.stock, BlockBuilder.add, Multiset.coe_add]
      simp
  | @build _ _ _ _ result hbuild =>
      have houtcome := BlockBuilder.outcome_of_build hbuild
      cases result with
      | ok e => exact absurd (houtcome.spends.supply.symm.trans hsupply) supply.pastNode_ne.1
      | error error =>
          rw [houtcome.kept.1]
          rfl

theorem stock_exprs_apart (w : Workshop) :
    w.stock = ↑(w.exprs.map Node.expr) + { w with exprs := [] }.stock :=
  stock_exprs w.exprs (.of_eq (List.append_nil _).symm)

theorem Step.stock_le {w w' : Workshop} (h : Step w w') (hsupply : w'.supply = w.supply) :
    w'.stock ≤ w.stock := by
  cases h with
  | node hkind hid howned => exact absurd hsupply w.supply.pastNode_ne.1
  | newScope => exact le_rfl
  | declare v htaken => exact le_rfl
  | buildScope htaken => exact le_rfl
  | newBlock => exact le_rfl
  | @block builder left rest exprs supply htaken hstep =>
      have hmoved := hstep.stock_eq hsupply
      rw [stock_blockBuilders htaken, stock_exprs_apart { w with blockBuilders := rest },
        stock_blockBuilders (.refl _), stock_exprs_apart, ← add_assoc, ← add_assoc, hmoved]
      exact le_rfl
  | newFunction name returnType => exact le_rfl
  | addParameter v htaken =>
      rw [stock_functionBuilders htaken, stock_functionBuilders (.refl _)]
      exact le_rfl
  | @functionBlock builder rest left exprs supply htaken hstep =>
      have hmoved := hstep.stock_eq hsupply
      rw [stock_functionBuilders htaken, stock_exprs_apart { w with functionBuilders := rest },
        stock_functionBuilders (.refl _), stock_exprs_apart, FunctionBuilder.coe_stock,
        FunctionBuilder.coe_stock, add_add_add_comm, hmoved, add_add_add_comm]
      exact le_rfl
  | @withBody builder rest e exprs htaken hbody =>
      have hgiven : (↑(builder.withBody e).stock : Multiset Node) =
          ↑builder.block.stock + ↑([e].map Node.expr) := FunctionBuilder.coe_stock _
      rw [stock_functionBuilders htaken, stock_exprs (w := { w with functionBuilders := rest })
        [e] hbody, stock_functionBuilders (.refl _), hgiven, builder.coe_stock,
        add_add_add_comm]
      exact add_le_add le_rfl (Multiset.le_add_left _ _)
  | @buildFunction builder left rest result supply htaken hbuild =>
      have houtcome := FunctionBuilder.outcome_of_build hbuild
      cases result with
      | ok f =>
          by_cases hbody : builder.body = none
          · have hsecond := (houtcome.spends_collected hbody).2.supply
            exact absurd (hsecond.symm.trans hsupply) w.supply.pastNode_ne.2
          · have hfirst := (houtcome.spends_given hbody).supply
            exact absurd (hfirst.symm.trans hsupply) w.supply.pastNode_ne.1
      | error error =>
          rw [stock_functionBuilders htaken, stock_functionBuilders (.refl _)]
          exact add_le_add (Multiset.coe_le.mpr houtcome.kept.1.subperm) le_rfl
  | newModule name => exact le_rfl
  | @addFunction builder rest f functions htaken hf =>
      have hadded : (↑(builder.add f).stock : Multiset Node) =
          ↑builder.stock + ↑[Node.function f] := by
        rw [Multiset.coe_add]
        simp [ModuleBuilder.stock, ModuleBuilder.add]
      rw [stock_moduleBuilders htaken, stock_functions (w := { w with moduleBuilders := rest }) hf,
        stock_moduleBuilders (.refl _), hadded, add_assoc]
  | @buildModule builder left rest result supply htaken hbuild =>
      have houtcome := ModuleBuilder.outcome_of_build hbuild
      cases result with
      | ok m => exact absurd (houtcome.spends.supply.symm.trans hsupply) w.supply.pastNode_ne.1
      | error error =>
          rw [stock_moduleBuilders htaken, stock_moduleBuilders (.refl _)]
          exact add_le_add (Multiset.coe_le.mpr houtcome.kept.1.subperm) le_rfl

theorem Makes.turns {w w' : Workshop} {nodes : List Node} (h : Makes w nodes w') :
    Turns w.supply w.stock nodes w'.supply w'.stock := by
  cases h with
  | nothing hstep hsupply =>
      rw [hsupply]
      exact .done (hstep.stock_le hsupply)
  | @node e rest hkind hid howned =>
      have hhand := stock_exprs (w := { w with exprs := e :: rest }) [e] (.refl _)
      rw [stock_exprs e.children howned]
      exact .make hid le_rfl (.done (le_of_eq hhand))
  | @block builder left rest e supply htaken hbuild =>
      have houtcome := BlockBuilder.outcome_of_build hbuild
      rw [stock_blockBuilders htaken]
      refine houtcome.spends.turns _ (.done (le_of_eq ?_))
      rw [stock_exprs [e] (.refl _), stock_blockBuilders (.refl _)]
      rfl
  | @functionBlock builder rest left e supply htaken hbuild =>
      have houtcome := BlockBuilder.outcome_of_build hbuild
      rw [stock_functionBuilders htaken, builder.coe_stock, add_assoc]
      refine houtcome.spends.turns _ (.done (le_of_eq ?_))
      rw [stock_exprs [e] (.refl _), stock_functionBuilders (.refl _),
        FunctionBuilder.coe_stock, add_assoc]
      rfl
  | @function builder left rest f supply htaken hbody hbuild =>
      have houtcome := FunctionBuilder.outcome_of_build hbuild
      rw [stock_functionBuilders htaken]
      refine (houtcome.spends_given hbody).turns _ (.done (le_of_eq ?_))
      rw [stock_functions (.refl _), stock_functionBuilders (.refl _)]
      rfl
  | @collected builder left rest f supply htaken hbody hbuild =>
      have houtcome := FunctionBuilder.outcome_of_build hbuild
      obtain ⟨hfirst, hsecond⟩ := houtcome.spends_collected hbody
      rw [stock_functionBuilders htaken]
      refine hfirst.turns _ ?_
      rw [← Multiset.singleton_add]
      refine hsecond.turns _ (.done (le_of_eq ?_))
      rw [stock_functions (.refl _), stock_functionBuilders (.refl _)]
      rfl
  | @module builder left rest m supply htaken hbuild =>
      have houtcome := ModuleBuilder.outcome_of_build hbuild
      rw [stock_moduleBuilders htaken]
      refine houtcome.spends.turns _ (.done (le_of_eq ?_))
      rw [stock_modules (.refl _), stock_moduleBuilders (.refl _)]
      rfl

theorem History.accounted {made : List Node} {w : Workshop} (h : History made w) :
    Accounted made w.supply w.stock := by
  induction h with
  | start => exact ⟨rfl, rfl, by simp [stock, nodesOf], by simp⟩
  | step _ hmakes ih => exact hmakes.turns.accounted ih

end Workshop

end TreeLang

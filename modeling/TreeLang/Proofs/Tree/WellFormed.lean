import Mathlib.Data.List.Flatten
import TreeLang.Proofs.Tree.Induction

namespace TreeLang

namespace Expr

-- What construction promises of an expression: its nodes have identities of
-- their own, and no block is empty.
structure WellFormed (e : Expr) : Prop where
  distinct : (e.preorder.map id).Nodup
  nonempty : ∀ id scope, block id scope [] ∉ e.preorder

theorem children_nodup {e : Expr} (h : (e.preorder.map id).Nodup) : (e.children.map id).Nodup := by
  rw [preorder_eq, List.map_cons, List.nodup_cons] at h
  have hs : (e.children.map fun child => [child]).flatten.Sublist
      (e.children.flatMap preorder) := by
    rw [← List.flatMap_def]
    refine List.Sublist.flatMap_right _ fun child _ => ?_
    exact List.singleton_sublist.mpr child.self_mem_preorder
  rw [← List.flatMap_def, List.flatMap_singleton'] at hs
  exact h.2.sublist (hs.map id)

namespace WellFormed

theorem child {e child : Expr} (h : e.WellFormed) (hchild : child ∈ e.children) :
    child.WellFormed where
  distinct := h.distinct.sublist ((child_preorder_sublist hchild).map id)
  nonempty id scope hmem := h.nonempty id scope ((child_preorder_sublist hchild).subset hmem)

theorem id_notMem_below {e : Expr} (h : e.WellFormed) :
    ∀ x ∈ e.children.flatMap preorder, x.id ≠ e.id := by
  intro x hx heq
  have hd := h.distinct
  rw [preorder_eq, List.map_cons, List.nodup_cons] at hd
  exact hd.1 (heq ▸ List.mem_map_of_mem hx)

theorem children_distinct {e : Expr} (h : e.WellFormed) : (e.children.map id).Nodup :=
  children_nodup h.distinct

end WellFormed

-- The child in a place of a conditional; no other expression has such places.
def part? : Expr → Part → Option Expr
  | conditional _ condition _ _, .condition => some condition
  | conditional _ _ truePart _, .truePart => truePart
  | conditional _ _ _ falsePart, .falsePart => falsePart
  | _, _ => none

theorem part?_mem_children {e child : Expr} {part : Part} (h : e.part? part = some child) :
    child ∈ e.children := by
  cases e with
  | conditional id condition truePart falsePart => cases part <;> simp_all [part?, children]
  | _ => cases h

-- Children with identities of their own are found in the places they have.
theorem partOf?_eq_some_iff {e : Expr} (hdistinct : (e.children.map id).Nodup) {child : NodeId}
    {part : Part} : e.partOf? child = some part ↔ ∃ x, e.part? part = some x ∧ x.id = child := by
  cases e with
  | conditional id condition truePart falsePart =>
      simp only [children, List.cons_append, List.map_cons, List.map_append, List.nodup_cons,
        List.mem_append, List.nodup_append, not_or] at hdistinct
      -- Identities are compared place by place, so each place excludes those before it.
      cases part <;> cases truePart <;> cases falsePart <;> grind [partOf?, part?]
  | _ => simp [partOf?, part?]

section Parts

variable {id : NodeId} {condition e : Expr} {truePart falsePart : Option Expr}

theorem partOf?_condition :
    (conditional id condition truePart falsePart).partOf? condition.id = some .condition := by
  simp [partOf?]

theorem partOf?_truePart (h : (conditional id condition (some e) falsePart).WellFormed) :
    (conditional id condition (some e) falsePart).partOf? e.id = some .truePart :=
  (partOf?_eq_some_iff h.children_distinct).mpr ⟨e, rfl, rfl⟩

theorem partOf?_falsePart (h : (conditional id condition truePart (some e)).WellFormed) :
    (conditional id condition truePart (some e)).partOf? e.id = some .falsePart :=
  (partOf?_eq_some_iff h.children_distinct).mpr ⟨e, rfl, rfl⟩

end Parts

end Expr

-- The same of a whole tree.
structure Node.WellFormed (root : Node) : Prop where
  distinct : (root.preorder.map Node.id).Nodup
  nonempty : ∀ id scope, .expr (.block id scope []) ∉ root.preorder

namespace Node.WellFormed

theorem expr {e : Expr} (h : (Node.expr e).WellFormed) : e.WellFormed where
  distinct := by simpa [preorder, Function.comp_def, Node.id] using h.distinct
  nonempty id scope hmem := h.nonempty id scope (List.mem_map_of_mem hmem)

theorem body {f : Function} (h : (Node.function f).WellFormed) : f.body.WellFormed where
  distinct := by
    have hd := h.distinct
    simp only [preorder, List.map_cons, List.nodup_cons, List.map_map] at hd
    exact hd.2
  nonempty id scope hmem := by
    refine h.nonempty id scope ?_
    simp [preorder, hmem]

theorem function {m : Module} {f : Function} (h : (Node.module m).WellFormed)
    (hf : f ∈ m.functions) : (Node.function f).WellFormed where
  distinct := by
    have hd := h.distinct
    simp only [preorder, List.map_cons, List.nodup_cons] at hd
    have hmem := List.mem_map_of_mem (f := fun f => preorder (.function f)) hf
    refine hd.2.sublist (List.Sublist.map _ ?_)
    rw [List.flatMap_def]
    exact List.sublist_flatten_of_mem hmem
  nonempty id scope hmem := by
    refine h.nonempty id scope ?_
    simp only [preorder, List.mem_cons, List.mem_flatMap] at hmem ⊢
    exact Or.inr ⟨f, hf, hmem⟩

end Node.WellFormed

end TreeLang

import Mathlib.Data.List.Nodup
import Mathlib.Data.List.Pairwise
import TreeLang.Proofs.Tree.Induction

namespace TreeLang.Node

-- The nodes from one down to another, both included.
inductive Path : Node → List Node → Node → Prop where
  | self (node : Node) : Path node [node] node
  | down {parent child target : Node} {path : List Node} (hchild : child ∈ parent.children)
      (h : Path child path target) : Path parent (parent :: path) target

theorem preorder_eq (node : Node) : node.preorder = node :: node.children.flatMap preorder := by
  cases node with
  | expr e =>
      simp [preorder, children, e.preorder_eq, List.map_flatMap, List.flatMap_map]
  | function f => simp [preorder, children]
  | module m => simp [preorder, children, List.flatMap_map]

-- What holds of a node once it holds of its children holds of all.
theorem induct_children {P : Node → Prop} (step : ∀ node, (∀ child ∈ node.children, P child) →
    P node) (node : Node) : P node := by
  have hexpr : ∀ e, P (expr e) := by
    intro e
    induction e using Expr.induct_children with
    | step e ih => exact step _ (List.forall_mem_map.mpr ih)
  have hfunction : ∀ f, P (function f) := fun f =>
    step _ (List.forall_mem_singleton.mpr (hexpr f.body))
  cases node with
  | expr e => exact hexpr e
  | function f => exact hfunction f
  | module m => exact step _ (List.forall_mem_map.mpr fun f _ => hfunction f)

theorem self_mem_preorder (node : Node) : node ∈ node.preorder := by
  rw [preorder_eq]
  exact List.mem_cons_self

theorem child_mem_preorder {root parent child : Node} (hparent : parent ∈ root.preorder)
    (hchild : child ∈ parent.children) : child ∈ root.preorder := by
  induction root using induct_children with
  | step root ih =>
      rw [preorder_eq] at hparent ⊢
      refine List.mem_cons_of_mem _ (List.mem_flatMap.mpr ?_)
      rcases List.mem_cons.mp hparent with rfl | hbelow
      · exact ⟨child, hchild, child.self_mem_preorder⟩
      · obtain ⟨top, htop, hparent⟩ := List.mem_flatMap.mp hbelow
        exact ⟨top, htop, ih top htop hparent⟩

namespace Path

variable {root target : Node} {path : List Node}

theorem ne_nil (h : Path root path target) : path ≠ [] := by
  cases h <;> exact List.cons_ne_nil _ _

theorem getLast? (h : Path root path target) : path.getLast? = some target := by
  induction h with
  | self node => rfl
  | down _ h ih => rw [List.getLast?_cons_of_ne_nil h.ne_nil, ih]

theorem mem_preorder (h : Path root path target) : target ∈ root.preorder := by
  induction h with
  | self node => exact node.self_mem_preorder
  | down hchild _ ih =>
      rw [preorder_eq]
      exact List.mem_cons_of_mem _ (List.mem_flatMap.mpr ⟨_, hchild, ih⟩)

theorem subset (h : Path root path target) : ∀ node ∈ path, node ∈ root.preorder := by
  induction h with
  | self node => exact List.forall_mem_singleton.mpr node.self_mem_preorder
  | down hchild _ ih =>
      rw [preorder_eq]
      refine List.forall_mem_cons.mpr ⟨List.mem_cons_self, fun node hnode => ?_⟩
      exact List.mem_cons_of_mem _ (List.mem_flatMap.mpr ⟨_, hchild, ih node hnode⟩)

theorem extend {child : Node} (h : Path root path target) (hchild : child ∈ target.children) :
    Path root (path ++ [child]) child := by
  induction h with
  | self node => exact .down hchild (.self child)
  | down hbetween _ ih => exact .down hbetween (ih hchild)

-- Where no node occurs twice, there is one way down to each.
theorem unique (hroot : root.preorder.Nodup) {other : List Node} (h : Path root path target)
    (hother : Path root other target) : path = other := by
  induction h generalizing other with
  | self node =>
      cases hother with
      | self => rfl
      | down hchild h =>
          rw [preorder_eq, List.nodup_cons] at hroot
          exact absurd (List.mem_flatMap.mpr ⟨_, hchild, h.mem_preorder⟩) hroot.1
  | @down parent child target path hchild h ih =>
      rw [preorder_eq, List.nodup_cons, List.nodup_flatMap] at hroot
      obtain ⟨htop, hbelow, hdisjoint⟩ := hroot
      cases hother with
      | self => exact absurd (List.mem_flatMap.mpr ⟨_, hchild, h.mem_preorder⟩) htop
      | @down _ sibling _ path' hsibling h' =>
          obtain rfl : child = sibling := by
            by_contra hne
            have hsymm : Std.Symm (Function.onFun List.Disjoint preorder) :=
              ⟨fun _ _ => List.disjoint_symm⟩
            exact hdisjoint.forall hchild hsibling hne h.mem_preorder h'.mem_preorder
          rw [ih (hbelow child hchild) h']

end Path

end TreeLang.Node

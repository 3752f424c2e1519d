import TreeLang.Tree.Basic

namespace TreeLang.Expr

-- The generated principle passes through options and lists of expressions.
-- This one has one case for each form, and one hypothesis for each child.
@[elab_as_elim, induction_eliminator]
theorem induct {P : Expr → Prop}
    (int32 : ∀ id value, P (int32 id value))
    (float : ∀ id value, P (float id value))
    (ref : ∀ id target, P (ref id target))
    (binary : ∀ id operation left right, P left → P right → P (binary id operation left right))
    (assign : ∀ id target value, P value → P (assign id target value))
    (ret : ∀ id value, P value → P (ret id value))
    (conditional : ∀ id condition truePart falsePart, P condition →
      (∀ e ∈ truePart, P e) → (∀ e ∈ falsePart, P e) →
      P (conditional id condition truePart falsePart))
    (block : ∀ id scope children, (∀ e ∈ children, P e) → P (block id scope children))
    (e : Expr) : P e := by
  refine @Expr.rec P (fun part => ∀ e ∈ part, P e) (fun es => ∀ e ∈ es, P e)
    int32 float ref binary assign ret conditional block ?_ ?_ ?_ ?_ e
  · intro e he
    cases he
  · intro part hpart e he
    obtain rfl : part = e := by simpa using he
    exact hpart
  · intro e he
    cases he
  · intro head tail hhead htail e he
    rcases List.mem_cons.mp he with rfl | he
    · exact hhead
    · exact htail e he

theorem preorderPart_eq (part : Option Expr) :
    preorderPart part = part.toList.flatMap preorder := by
  cases part <;> simp [preorderPart]

theorem preorderAll_eq (es : List Expr) : preorderAll es = es.flatMap preorder := by
  induction es with
  | nil => rfl
  | cons e rest ih => simp [preorderAll, ih]

theorem preorder_eq (e : Expr) : e.preorder = e :: e.children.flatMap preorder := by
  cases e <;> simp [preorder, children, preorderPart_eq, preorderAll_eq]

-- What holds of an expression once it holds of its children holds of all.
theorem induct_children {P : Expr → Prop} (step : ∀ e, (∀ child ∈ e.children, P child) → P e)
    (e : Expr) : P e := by
  induction e with
  | int32 id value => exact step _ (by simp [children])
  | float id value => exact step _ (by simp [children])
  | ref id target => exact step _ (by simp [children])
  | binary id operation left right hl hr => exact step _ (by simp [children, hl, hr])
  | assign id target value ih => exact step _ (by simp [children, ih])
  | ret id value ih => exact step _ (by simp [children, ih])
  | conditional id condition truePart falsePart hc ht hf =>
      refine step _ fun child hchild => ?_
      simp only [children, List.cons_append, List.mem_cons, List.mem_append,
        Option.mem_toList] at hchild
      rcases hchild with rfl | hchild | hchild
      · exact hc
      · exact ht child hchild
      · exact hf child hchild
  | block id scope children ih => exact step _ ih

theorem self_mem_preorder (e : Expr) : e ∈ e.preorder := by
  rw [preorder_eq]
  exact List.mem_cons_self

theorem child_preorder_sublist {e child : Expr} (h : child ∈ e.children) :
    child.preorder.Sublist e.preorder := by
  have hc : child.preorder.Sublist (e.children.flatMap preorder) := by
    rw [List.flatMap_def]
    exact List.sublist_flatten_of_mem (List.mem_map_of_mem h)
  rw [preorder_eq e]
  exact hc.trans (List.sublist_cons_self _ _)

theorem preorder_trans {root e x : Expr} (he : e ∈ root.preorder) (hx : x ∈ e.preorder) :
    x ∈ root.preorder := by
  induction root using induct_children with
  | step root ih =>
      rw [preorder_eq, List.mem_cons, List.mem_flatMap] at he
      rcases he with rfl | ⟨child, hchild, he⟩
      · exact hx
      · exact (child_preorder_sublist hchild).subset (ih child hchild he)

theorem child_mem_preorder {root e child : Expr} (he : e ∈ root.preorder)
    (hchild : child ∈ e.children) : child ∈ root.preorder :=
  preorder_trans he ((child_preorder_sublist hchild).subset child.self_mem_preorder)

theorem lastType_map {f : Expr → Expr} {es : List Expr} (h : ∀ e ∈ es, (f e).type = e.type) :
    lastType (es.map f) = lastType es := by
  induction es with
  | nil => rfl
  | cons e rest ih =>
      cases rest with
      | nil => exact h e List.mem_cons_self
      | cons next rest => exact ih fun x hx => h x (List.mem_cons_of_mem _ hx)

end TreeLang.Expr

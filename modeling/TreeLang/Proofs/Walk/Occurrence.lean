import Mathlib.Data.List.Nodup
import TreeLang.Proofs.Walk.Tour

namespace TreeLang

-- The tour of an expression is one stretch of the tour of any tree around it.

theorem within_around {xs mid : List Stop} (kind : Kind) (node : Node) (h : xs <:+: mid) :
    xs <:+: (.enter, node) :: ((.start kind, node) :: mid ++ [(.finish kind, node)]) ++
      [(.leave, node)] := by
  have hmid : mid <:+: (.enter, node) :: ((.start kind, node) :: mid ++ [(.finish kind, node)]) ++
      [(.leave, node)] :=
    ⟨[(.enter, node), (.start kind, node)], [(.finish kind, node), (.leave, node)], by simp⟩
  exact h.trans hmid

namespace Expr

theorem tour_within_partTour {part : Option Expr} {e : Expr} (h : e ∈ part) :
    e.tour <:+: partTour part := by
  obtain rfl := h
  exact List.infix_refl _

theorem tour_within_childTour {es : List Expr} {e : Expr} (h : e ∈ es) :
    e.tour <:+: childTour es := by
  induction es with
  | nil => cases h
  | cons first rest ih =>
      cases rest with
      | nil =>
          obtain rfl := List.mem_singleton.mp h
          exact List.infix_refl _
      | cons next rest =>
          rcases List.mem_cons.mp h with rfl | h
          · exact (List.prefix_append _ _).isInfix
          · have hrest : childTour (next :: rest) <:+: childTour (first :: next :: rest) :=
              ⟨first.tour ++ [(.discard, .expr first)], [], by simp [childTour]⟩
            exact (ih h).trans hrest

theorem child_tour_within {e child : Expr} (h : child ∈ e.children) : child.tour <:+: e.tour := by
  cases e with
  | int32 id value => cases h
  | float id value => cases h
  | ref id target => cases h
  | binary id operation left right =>
      have hmid : child.tour <:+: left.tour ++ right.tour := by
        have hchild : child = left ∨ child = right := by simpa [children] using h
        rcases hchild with rfl | rfl
        · exact (List.prefix_append _ _).isInfix
        · exact (List.suffix_append _ _).isInfix
      simpa [tour] using within_around .binary (.expr (binary id operation left right)) hmid
  | assign id target value =>
      obtain rfl : child = value := by simpa [children] using h
      exact within_around .assign (.expr (assign id target child)) (List.infix_refl _)
  | ret id value =>
      obtain rfl : child = value := by simpa [children] using h
      exact within_around .ret (.expr (ret id child)) (List.infix_refl _)
  | conditional id condition truePart falsePart =>
      have hmid : child.tour <:+: condition.tour ++ partTour truePart ++ partTour falsePart := by
        have hchild : child = condition ∨ truePart = some child ∨ falsePart = some child := by
          simpa [children] using h
        rcases hchild with rfl | htrue | hfalse
        · exact ((List.prefix_append _ _).trans (List.prefix_append _ _)).isInfix
        · have hleft := (List.suffix_append condition.tour (partTour truePart)).isInfix
          exact ((tour_within_partTour htrue).trans hleft).trans (List.prefix_append _ _).isInfix
        · exact (tour_within_partTour hfalse).trans (List.suffix_append _ _).isInfix
      simpa [tour] using
        within_around .conditional (.expr (conditional id condition truePart falsePart)) hmid
  | block id scope children =>
      exact within_around .block (.expr (block id scope children)) (tour_within_childTour h)

theorem tour_within {e x : Expr} (hx : x ∈ e.preorder) : x.tour <:+: e.tour := by
  induction e using induct_children with
  | step e ih =>
      rw [preorder_eq, List.mem_cons, List.mem_flatMap] at hx
      rcases hx with rfl | ⟨child, hchild, hx⟩
      · exact List.infix_refl _
      · exact (ih child hchild hx).trans (child_tour_within hchild)

end Expr

theorem Node.tour_within {root : Node} {x : Expr} (hx : .expr x ∈ root.preorder) :
    x.tour <:+: root.tour := by
  have hbody : ∀ f : Function, x ∈ f.body.preorder → x.tour <:+: f.tour := fun f hf =>
    within_around .function (.function f) (Expr.tour_within hf)
  cases root with
  | expr e =>
      have he : x ∈ e.preorder := by simpa [preorder] using hx
      exact Expr.tour_within he
  | function f => exact hbody f (by simpa [preorder] using hx)
  | module m =>
      obtain ⟨f, hf, hxf⟩ : ∃ f ∈ m.functions, x ∈ f.body.preorder := by
        simpa [preorder] using hx
      have hfunctions : f.tour <:+: m.functions.flatMap Function.tour := by
        obtain ⟨before, after, hsplit⟩ := List.append_of_mem hf
        rw [hsplit, List.flatMap_append, List.flatMap_cons]
        exact ⟨before.flatMap Function.tour, after.flatMap Function.tour, by simp⟩
      exact within_around .module (.module m) ((hbody f hxf).trans hfunctions)

section Order

variable {stops before before' after after' : List Stop} {hook : Hook} {node : Node}

theorem mem_stopsAt : node ∈ stopsAt hook stops ↔ (hook, node) ∈ stops := by
  simp [stopsAt]

theorem notMem_of_split (hdistinct : (stopsAt hook stops).Nodup)
    (h : stops = before ++ (hook, node) :: after) :
    (hook, node) ∉ before ∧ (hook, node) ∉ after := by
  have hsplit : stopsAt hook stops = stopsAt hook before ++ node :: stopsAt hook after := by
    rw [h, stopsAt_append]
    simp [stopsAt]
  rw [hsplit, List.nodup_middle, List.nodup_cons, List.mem_append, not_or] at hdistinct
  exact ⟨mt mem_stopsAt.mpr hdistinct.1.1, mt mem_stopsAt.mpr hdistinct.1.2⟩

theorem split_unique (hdistinct : (stopsAt hook stops).Nodup)
    (h : stops = before ++ (hook, node) :: after)
    (h' : stops = before' ++ (hook, node) :: after') : before = before' ∧ after = after' := by
  obtain ⟨hbefore, hafter⟩ := notMem_of_split hdistinct h
  have hsplits := h.symm.trans h'
  rw [List.append_cons_inj_of_notMem hbefore hafter] at hsplits
  exact ⟨hsplits.1, hsplits.2.2⟩

end Order

section Distinct

variable {root : Node}

theorem Node.started_nodup (hdistinct : root.preorder.Nodup) (kind : Kind) :
    (stopsAt (.start kind) root.tour).Nodup :=
  hdistinct.sublist (root.surveyed.started kind)

theorem Node.finished_nodup (hdistinct : root.preorder.Nodup) (kind : Kind) :
    (stopsAt (.finish kind) root.tour).Nodup :=
  (root.postorder_perm.nodup_iff.mpr hdistinct).sublist (root.surveyed.finished kind)

-- What is within a block is not finished before the block is started.
theorem notMem_before_block (hdistinct : root.preorder.Nodup) {id : NodeId} {scope : Scope}
    {children : List Expr} {x : Expr} (hx : x ∈ children.flatMap Expr.preorder) {kind : Kind}
    (hown : (.finish kind, .expr x) ∈ x.tour) {before after : List Stop}
    (h : root.tour = before ++ (.start .block, .expr (.block id scope children)) :: after) :
    (.finish kind, .expr x) ∉ before := by
  have hblock : .expr (.block id scope children) ∈ root.preorder := by
    refine (root.surveyed.started .block).subset (mem_stopsAt.mpr ?_)
    rw [h]
    simp
  obtain ⟨outside, rest, hroot⟩ := Node.tour_within hblock
  obtain ⟨child, hchild, hx⟩ := List.mem_flatMap.mp hx
  have hwithin : (.finish kind, .expr x) ∈ childTour children :=
    (Expr.tour_within_childTour hchild).subset ((Expr.tour_within hx).subset hown)
  have hsplit : root.tour = (outside ++ [(.enter, .expr (.block id scope children))]) ++
      (.start .block, .expr (.block id scope children)) :: (childTour children ++
        [(.finish .block, .expr (.block id scope children)),
          (.leave, .expr (.block id scope children))] ++ rest) := by
    rw [← hroot]
    simp [Expr.tour]
  obtain ⟨-, hafter⟩ := split_unique (Node.started_nodup hdistinct .block) h hsplit
  intro hmem
  obtain ⟨earlier, later, hearlier⟩ := List.append_of_mem hmem
  have hfinish : root.tour = earlier ++ (.finish kind, .expr x) ::
      (later ++ (.start .block, .expr (.block id scope children)) :: after) := by
    rw [h, hearlier, List.append_assoc, List.cons_append]
  obtain ⟨-, hnotMem⟩ := notMem_of_split (Node.finished_nodup hdistinct kind) hfinish
  refine hnotMem (List.mem_append_right _ (List.mem_cons_of_mem _ ?_))
  rw [hafter, List.append_assoc]
  exact List.mem_append_left _ hwithin

end Distinct

end TreeLang

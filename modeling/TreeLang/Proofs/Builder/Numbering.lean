import TreeLang.Proofs.Builder.Ownership
import TreeLang.Proofs.Walk.Position
import TreeLang.Proofs.Walk.Tour

namespace TreeLang

-- The parts of a tree were made from left to right: each child of a node before
-- anything there is in the children that follow it.
def Node.LeftToRight (made : List Node) (root : Node) : Prop :=
  ∀ node ∈ root.preorder, node.children.Pairwise fun left right =>
    ∀ x ∈ right.preorder, [left, x].Sublist made

namespace Accounted

variable {made : List Node} {supply : Supply} {stock : Multiset Node}

-- Before the counter wraps around, what is made later has the greater identity.
theorem ordered (h : Accounted made supply stock) (hfew : made.length < 2 ^ 32) :
    made.Pairwise fun x y => x.id.index < y.id.index := by
  rw [← List.pairwise_map (f := Node.id) (R := fun a b => a.index < b.index), h.numbered,
    List.pairwise_map]
  refine List.pairwise_lt_range.imp_of_mem fun ha hb hlt => ?_
  rw [List.mem_range] at ha hb
  rw [UInt32.lt_iff_toNat_lt, UInt32.toNat_ofNat_of_lt' (by grind),
    UInt32.toNat_ofNat_of_lt' (by grind)]
  omega

theorem id_lt (h : Accounted made supply stock) (hfew : made.length < 2 ^ 32) {x y : Node}
    (hsub : [x, y].Sublist made) : x.id.index < y.id.index := by
  simpa using (h.ordered hfew).sublist hsub

theorem distinct (h : Accounted made supply stock) (hfew : made.length < 2 ^ 32) :
    (made.map Node.id).Nodup :=
  List.pairwise_map.mpr ((h.ordered hfew).imp fun hlt heq => by simp [heq] at hlt)

-- What is below a node was made, and made first.
theorem below_sublist (h : Accounted made supply stock) {node x : Node} (hnode : node ∈ made)
    (hx : x ∈ node.children.flatMap Node.preorder) : [x, node].Sublist made := by
  obtain ⟨before, after, hsplit⟩ := List.append_of_mem hnode
  have hbefore : x ∈ before := (h.below before node after hsplit).subset hx
  rw [hsplit]
  exact (List.singleton_sublist.mpr hbefore).append
    (List.singleton_sublist.mpr List.mem_cons_self)

theorem preorder_subset (h : Accounted made supply stock) {root x : Node} (hroot : root ∈ made)
    (hx : x ∈ root.preorder) : x ∈ made := by
  rw [Node.preorder_eq, List.mem_cons] at hx
  rcases hx with rfl | hx
  · exact hroot
  · exact (h.below_sublist hroot hx).subset List.mem_cons_self

theorem mem_of_stock (h : Accounted made supply stock) {root x : Node} (hroot : root ∈ stock)
    (hx : x ∈ root.preorder) : x ∈ made :=
  Multiset.mem_coe.mp (Multiset.mem_of_le h.owned (Multiset.mem_bind.mpr ⟨root, hroot, hx⟩))

-- Nothing is below a node twice, as nothing is used twice.
theorem preorder_distinct (h : Accounted made supply stock) (hfew : made.length < 2 ^ 32)
    {node : Node} (hnode : node ∈ made) : (node.preorder.map Node.id).Nodup := by
  obtain ⟨before, after, hsplit⟩ := List.append_of_mem hnode
  have hids := h.distinct hfew
  have hbelow := h.below before node after hsplit
  rw [hsplit] at hids
  have hall : node.preorder.Subperm (before ++ node :: after) := by
    rw [Node.preorder_eq]
    refine List.perm_middle.symm.subperm_left.mp ?_
    exact (List.subperm_cons node).mpr (hbelow.trans (List.sublist_append_left _ _).subperm)
  obtain ⟨kept, hperm, hsub⟩ := hall
  exact (hperm.map Node.id).nodup_iff.mp (hids.sublist (hsub.map Node.id))

-- A child was made before its parent, and what is below it before both.
theorem id_le_of_mem_preorder (h : Accounted made supply stock) (hfew : made.length < 2 ^ 32)
    {node x : Node} (hnode : node ∈ made) (hx : x ∈ node.preorder) :
    x.id.index ≤ node.id.index := by
  rw [Node.preorder_eq, List.mem_cons] at hx
  rcases hx with rfl | hx
  · exact UInt32.le_refl _
  · exact UInt32.le_of_lt (h.id_lt hfew (h.below_sublist hnode hx))

-- The listing puts children before their parent, and what is below a child before what
-- is below those to its right.
theorem postorder_ordered (h : Accounted made supply stock) (hfew : made.length < 2 ^ 32)
    {root : Node} (hroot : root ∈ made) (horder : root.LeftToRight made) :
    root.postorder.Pairwise fun x y => x.id.index < y.id.index := by
  induction root using Node.induct_children with
  | step root ih =>
      have hbelow : ∀ child ∈ root.children, ∀ x ∈ child.preorder,
          x ∈ root.children.flatMap Node.preorder :=
        fun child hchild x hx => List.mem_flatMap.mpr ⟨child, hchild, hx⟩
      have hdown : ∀ child ∈ root.children, ∀ x ∈ child.preorder, x ∈ root.preorder := by
        intro child hchild x hx
        rw [Node.preorder_eq]
        exact List.mem_cons_of_mem _ (hbelow child hchild x hx)
      have hmade : ∀ child ∈ root.children, child ∈ made := fun child hchild =>
        h.preorder_subset hroot (hdown child hchild child child.self_mem_preorder)
      rw [Node.postorder_eq, List.pairwise_append, List.pairwise_flatMap]
      refine ⟨⟨fun child hchild => ?_, ?_⟩, List.pairwise_singleton _ _, ?_⟩
      · exact ih child hchild (hmade child hchild) fun node hnode =>
          horder node (hdown child hchild node hnode)
      · refine (horder root root.self_mem_preorder).imp_of_mem ?_
        intro left right hleft hright hbefore x hx y hy
        have hupTo := h.id_le_of_mem_preorder hfew (hmade left hleft)
          (left.postorder_perm.mem_iff.mp hx)
        have hpast := h.id_lt hfew (hbefore y (right.postorder_perm.mem_iff.mp hy))
        exact UInt32.lt_of_le_of_lt hupTo hpast
      · intro x hx node hnode
        obtain rfl := List.mem_singleton.mp hnode
        obtain ⟨child, hchild, hx⟩ := List.mem_flatMap.mp hx
        have hsub := h.below_sublist hroot
          (hbelow child hchild x (child.postorder_perm.mem_iff.mp hx))
        exact h.id_lt hfew hsub

-- The part that is found by identity is the part that is there.
theorem partOf?_iff (h : Accounted made supply stock) (hfew : made.length < 2 ^ 32) {e : Expr}
    {node : Node} (he : .expr e ∈ made) (hnode : node ∈ made) {part : Part} :
    e.partOf? node.id = some part ↔ (e.part? part).map Node.expr = some node := by
  have hids : (e.preorder.map Expr.id).Nodup := by
    simpa [Node.preorder, Function.comp_def, Node.id] using h.preorder_distinct hfew he
  rw [Expr.partOf?_eq_some_iff (Expr.children_nodup hids), Option.map_eq_some_iff]
  constructor
  · rintro ⟨x, hx, hid⟩
    have hmade : Node.expr x ∈ made := h.preorder_subset he
      (Node.child_mem_preorder (Node.self_mem_preorder _)
        (List.mem_map_of_mem (Expr.part?_mem_children hx)))
    exact ⟨x, hx, List.inj_on_of_nodup_map (h.distinct hfew) hmade hnode hid⟩
  · rintro ⟨x, hx, rfl⟩
    exact ⟨x, hx, rfl⟩

end Accounted

theorem Context.part?_eq_some_iff {context : Context} {part : Part} :
    context.part? = some part ↔ ∃ node parent, context.current? = some node ∧
      context.parent? = some (.expr parent) ∧ parent.partOf? node.id = some part := by
  obtain ⟨path, scopes⟩ := context
  match path with
  | [] => simp [part?, current?]
  | [node] => simp [part?, current?, parent?]
  | node :: .expr parent :: above => simp [part?, current?, parent?]
  | node :: .function f :: above => simp [part?, current?, parent?]
  | node :: .module m :: above => simp [part?, current?, parent?]

namespace Workshop

-- All nodes that any operations make, in the order they make them, are told apart by
-- their identities, and those of a tree grow towards its root. So a conditional finds
-- by identity exactly the parts it has, and a visitor is always told the part that the
-- path down to a node leads to.
theorem made_identified (w : Workshop) :
    (w.Reachable ↔ ∃ made, History made w) ∧
    ∀ made, History made w → made.length < 2 ^ 32 →
      (made.map Node.id).Nodup ∧
      (∀ root ∈ w.stock, ∀ node ∈ root.preorder, node ∈ made) ∧
      (∀ node ∈ made, ∀ child ∈ node.children,
        child ∈ made ∧ child.id.index < node.id.index) ∧
      (∀ root ∈ made, root.LeftToRight made →
        (root.postorder.map fun node => node.id.index).Pairwise (· < ·)) ∧
      (∀ e, .expr e ∈ made → ∀ node ∈ made, ∀ part,
        e.partOf? node.id = some part ↔ (e.part? part).map Node.expr = some node) ∧
      ∀ root ∈ made, ∀ c, .call c ∈ root.steps → ∃ path node, c.Placed root path node ∧
        ∀ part, c.context.part? = some part ↔ ∃ parent,
          path.dropLast.getLast? = some (.expr parent) ∧
            (parent.part? part).map Node.expr = some node := by
  refine ⟨reachable_iff_history, fun made hhistory hfew => ?_⟩
  have h := hhistory.accounted
  refine ⟨h.distinct hfew, fun root hroot node hnode => h.mem_of_stock hroot hnode, ?_, ?_,
    fun e he node hnode part => h.partOf?_iff hfew he hnode, ?_⟩
  · intro node hnode child hchild
    have hsub := h.below_sublist hnode
      (List.mem_flatMap.mpr ⟨child, hchild, child.self_mem_preorder⟩)
    exact ⟨hsub.subset List.mem_cons_self, h.id_lt hfew hsub⟩
  · exact fun root hroot horder => List.pairwise_map.mpr (h.postorder_ordered hfew hroot horder)
  · intro root hroot c hc
    obtain ⟨path, node, hbelow⟩ := root.call_below hc
    have hplaced := hbelow.placed
    have hmade : ∀ x ∈ path, x ∈ made := fun x hx =>
      h.preorder_subset hroot (hplaced.reaches.subset x hx)
    have hnode := hmade node (List.mem_of_getLast? hplaced.reaches.getLast?)
    refine ⟨path, node, hplaced, fun part => ?_⟩
    rw [Context.part?_eq_some_iff, hplaced.current, hplaced.parent]
    constructor
    · rintro ⟨node, parent, hcurrent, hparent, hpart⟩
      cases hcurrent
      have habove := hmade _ (List.mem_of_mem_dropLast (List.mem_of_getLast? hparent))
      exact ⟨parent, hparent, (h.partOf?_iff hfew habove hnode).mp hpart⟩
    · rintro ⟨parent, hparent, hpart⟩
      have habove := hmade _ (List.mem_of_mem_dropLast (List.mem_of_getLast? hparent))
      exact ⟨node, parent, rfl, hparent, (h.partOf?_iff hfew habove hnode).mpr hpart⟩

-- A first build of a function fails for want of a body. The second one numbers the
-- body and the function behind the parts of the conditional and the conditional.
theorem made_identified_after_failure :
    let condition : Expr := .int32 ⟨1⟩ 1
    let value : Expr := .int32 ⟨2⟩ 7
    let choice : Expr := .conditional ⟨3⟩ condition (some value) none
    let f : Function := ⟨⟨5⟩, "f", .int32, ⟨[]⟩, .block ⟨4⟩ ⟨[]⟩ [choice]⟩
    let made : List Node :=
      [.expr condition, .expr value, .expr choice, .expr f.body, .function f]
    (∃ w, History made w) ∧ made.length < 2 ^ 32 ∧ (Node.function f).LeftToRight made ∧
      ((Node.function f).postorder.map fun node => node.id.index).Pairwise (· < ·) ∧
      choice.partOf? value.id = some .truePart ∧ choice.partOf? f.id ≠ some .falsePart := by
  have hbuild : Construct.effect (FunctionBuilder.build
      { name := "f", returnType := .int32,
        block := { children := [.conditional ⟨3⟩ (.int32 ⟨1⟩ 1) (some (.int32 ⟨2⟩ 7)) none] } })
      ⟨⟨4⟩, ⟨1⟩⟩ = ((.ok _, { name := "f", returnType := .int32 }), ⟨⟨6⟩, ⟨1⟩⟩) := rfl
  intro condition value choice f made
  let empty : FunctionBuilder := { name := "f", returnType := .int32 }
  have failed := (History.start.step (.nothing (.newFunction "f" .int32) rfl)).step
    (.nothing (.buildFunction (.refl _) rfl) rfl)
  have parts := (failed.step (.node (e := condition) nofun rfl (.refl _))).step
    (.node (e := value) nofun rfl (.refl _))
  have chosen := parts.step (.node (e := choice) nofun rfl (.swap _ _ _))
  have added : History [.expr condition, .expr value, .expr choice]
      { supply := ⟨⟨4⟩, ⟨1⟩⟩,
        functionBuilders := [{ empty with block := { children := [choice] } }] } :=
    chosen.step (.nothing (.functionBlock (.refl _) (.add (.refl _))) rfl)
  have h : History made { supply := ⟨⟨6⟩, ⟨1⟩⟩, functions := [f], functionBuilders := [empty] } :=
    added.step (.collected (.refl _) rfl hbuild)
  have hfew : made.length < 2 ^ 32 := by decide
  have horder : (Node.function f).LeftToRight made := by
    have hfirst : [Node.expr condition, .expr value].Sublist made :=
      List.sublist_append_left [_, _] [Node.expr choice, .expr f.body, .function f]
    simpa [Node.LeftToRight, Node.preorder, Node.children, Expr.preorder, Expr.children,
      Expr.preorderAll, Expr.preorderPart, f, choice, condition, value] using hfirst
  obtain ⟨-, hrest⟩ := made_identified _
  obtain ⟨-, -, -, hlisting, hpart, -⟩ := hrest made h hfew
  have hf : Node.function f ∈ made := by simp [made]
  have hvalue : Node.expr value ∈ made := by simp [made]
  have hchoice : Node.expr choice ∈ made := by simp [made]
  refine ⟨⟨_, h⟩, hfew, horder, hlisting _ hf horder, ?_, ?_⟩
  · exact (hpart choice hchoice _ hvalue .truePart).mpr rfl
  · intro hfalse
    cases (hpart choice hchoice _ hf .falsePart).mp hfalse

end Workshop

end TreeLang

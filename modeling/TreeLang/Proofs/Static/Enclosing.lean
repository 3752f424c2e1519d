import TreeLang.Proofs.Static.TypeChecking
import TreeLang.Proofs.Tree.Path

namespace TreeLang

namespace Node

variable {root : Node}

-- Every expression of a tree has its place there.
theorem contains_of_mem_preorder {e x : Expr} {scopes : List Scope}
    (he : root.Contains ⟨scopes, e⟩) (hx : x ∈ e.preorder) :
    ∃ inside, root.Contains ⟨inside, x⟩ := by
  induction e using Expr.induct_children generalizing scopes with
  | step e ih =>
      rw [Expr.preorder_eq, List.mem_cons, List.mem_flatMap] at hx
      rcases hx with rfl | ⟨child, hchild, hx⟩
      · exact ⟨scopes, he⟩
      · exact ih child hchild (.child he hchild) hx

theorem contains_of_mem {x : Expr} (hx : .expr x ∈ root.preorder) :
    ∃ scopes, root.Contains ⟨scopes, x⟩ := by
  cases root with
  | expr e => exact contains_of_mem_preorder .expr (by simpa [preorder] using hx)
  | function f => exact contains_of_mem_preorder .function (by simpa [preorder] using hx)
  | module m =>
      obtain ⟨f, hf, hx⟩ : ∃ f ∈ m.functions, x ∈ f.body.preorder := by
        simpa [preorder] using hx
      exact contains_of_mem_preorder (.module hf) hx

theorem Contains.mem {site : Site} (h : root.Contains site) :
    Node.expr site.expr ∈ root.preorder := by
  induction h with
  | expr => simp [preorder, Expr.self_mem_preorder]
  | function => simp [preorder, Expr.self_mem_preorder]
  | @module m f hf =>
      simp only [preorder, List.mem_cons, List.mem_flatMap]
      exact .inr ⟨f, hf, .inr (List.mem_map_of_mem f.body.self_mem_preorder)⟩
  | child _ hchild ih => exact child_mem_preorder ih (List.mem_map_of_mem hchild)

-- The scopes around an expression are those of nodes it is below.
theorem Contains.enclosed {site : Site} (h : root.Contains site) :
    ∀ scope ∈ site.scopes, ∃ node ∈ root.preorder, node.scope? = some scope ∧
      Node.expr site.expr ∈ node.children.flatMap preorder := by
  have hbody : ∀ f : Function, Node.expr f.body ∈ (Node.function f).children.flatMap preorder :=
    fun f => by simp [children, preorder, Expr.self_mem_preorder]
  induction h with
  | expr => exact fun scope hscope => absurd hscope List.not_mem_nil
  | @function f =>
      intro scope hscope
      obtain rfl := List.mem_singleton.mp hscope
      exact ⟨.function f, by simp [preorder], rfl, hbody f⟩
  | @module m f hf =>
      intro scope hscope
      obtain rfl := List.mem_singleton.mp hscope
      have hmem : Node.function f ∈ (Node.module m).preorder := by
        simp only [preorder, List.mem_cons, List.mem_flatMap]
        exact .inr ⟨f, hf, .inl rfl⟩
      exact ⟨.function f, hmem, rfl, hbody f⟩
  | @child root scopes parent child hparent hchild ih =>
      intro scope hscope
      have hcases : (Node.expr parent).scope? = some scope ∨ scope ∈ scopes := by
        cases parent with
        | block id opened children =>
            rcases List.mem_cons.mp hscope with rfl | hscope
            · exact .inl rfl
            · exact .inr hscope
        | _ => exact .inr hscope
      rcases hcases with hown | houter
      · refine ⟨.expr parent, hparent.mem, hown, ?_⟩
        exact List.mem_flatMap.mpr ⟨.expr child, List.mem_map_of_mem hchild,
          List.mem_map_of_mem child.self_mem_preorder⟩
      · obtain ⟨node, hnode, hopened, hbelow⟩ := ih scope houter
        obtain ⟨top, htop, hbelow⟩ := List.mem_flatMap.mp hbelow
        have hdown := child_mem_preorder hbelow (List.mem_map_of_mem hchild)
        exact ⟨node, hnode, hopened, List.mem_flatMap.mpr ⟨top, htop, hdown⟩⟩

end Node

-- What has passed the check is lawful at every place.
theorem Node.Contains.lawful {root : Node} (hfault : root.fault? = none) {site : Site}
    (h : root.Contains site) : site.Lawful := by
  rw [fault?_eq_violation?, violation?_eq_findSome?, List.findSome?_eq_none_iff] at hfault
  exact Site.error?_eq_none_iff.mp (hfault site (mem_sites_iff.mpr h))

end TreeLang

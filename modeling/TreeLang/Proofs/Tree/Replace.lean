import TreeLang.Proofs.Tree.Path
import TreeLang.Proofs.Tree.WellFormed

namespace TreeLang

namespace Expr

-- `new` where the expression is the one to replace, and otherwise `below`.
def instead (target : NodeId) (new e below : Expr) : Expr :=
  if e.id = target then new else below

mutual

-- The expression with what bears the identity replaced among all that is below it.
def replaceBelow (target : NodeId) (new : Expr) : Expr → Expr
  | int32 id value => int32 id value
  | float id value => float id value
  | ref id v => ref id v
  | binary id operation left right =>
      binary id operation (instead target new left (replaceBelow target new left))
        (instead target new right (replaceBelow target new right))
  | assign id v value =>
      assign id v (instead target new value (replaceBelow target new value))
  | ret id value => ret id (instead target new value (replaceBelow target new value))
  | conditional id condition truePart falsePart =>
      conditional id (instead target new condition (replaceBelow target new condition))
        (replacePart target new truePart) (replacePart target new falsePart)
  | block id scope children => block id scope (replaceAll target new children)
termination_by structural e => e

def replacePart (target : NodeId) (new : Expr) : Option Expr → Option Expr
  | none => none
  | some e => some (instead target new e (replaceBelow target new e))
termination_by structural part => part

def replaceAll (target : NodeId) (new : Expr) : List Expr → List Expr
  | [] => []
  | e :: rest => instead target new e (replaceBelow target new e) :: replaceAll target new rest
termination_by structural es => es

end

def replace (target : NodeId) (new e : Expr) : Expr :=
  instead target new e (replaceBelow target new e)

section Replace

variable {target : NodeId} {new e : Expr}

theorem replace_target (h : e.id = target) : replace target new e = new :=
  if_pos h

theorem replace_other (h : e.id ≠ target) : replace target new e = replaceBelow target new e :=
  if_neg h

theorem replacePart_eq (part : Option Expr) :
    replacePart target new part = part.map (replace target new) := by
  cases part <;> rfl

theorem replaceAll_eq (es : List Expr) :
    replaceAll target new es = es.map (replace target new) := by
  induction es with
  | nil => rfl
  | cons e rest ih => exact congrArg (replace target new e :: ·) ih

-- The form of an expression and its own data stay, and its children are replaced.

theorem replaceBelow_binary (id : NodeId) (operation : Operation) (left right : Expr) :
    replaceBelow target new (binary id operation left right) =
      binary id operation (replace target new left) (replace target new right) := rfl

theorem replaceBelow_assign (id : NodeId) (v : Variable) (value : Expr) :
    replaceBelow target new (assign id v value) = assign id v (replace target new value) := rfl

theorem replaceBelow_ret (id : NodeId) (value : Expr) :
    replaceBelow target new (ret id value) = ret id (replace target new value) := rfl

theorem replaceBelow_conditional (id : NodeId) (condition : Expr)
    (truePart falsePart : Option Expr) :
    replaceBelow target new (conditional id condition truePart falsePart) =
      conditional id (replace target new condition) (truePart.map (replace target new))
        (falsePart.map (replace target new)) := by
  rw [replaceBelow, replacePart_eq, replacePart_eq]
  rfl

theorem replaceBelow_block (id : NodeId) (scope : Scope) (children : List Expr) :
    replaceBelow target new (block id scope children) =
      block id scope (children.map (replace target new)) := by
  rw [replaceBelow, replaceAll_eq]

theorem id_replaceBelow : (replaceBelow target new e).id = e.id := by
  cases e <;> rfl

theorem children_replaceBelow :
    (replaceBelow target new e).children = e.children.map (replace target new) := by
  cases e with
  | conditional id condition truePart falsePart =>
      cases truePart <;> cases falsePart <;> rfl
  | block id scope children => exact replaceAll_eq children
  | _ => rfl

end Replace

-- A replacement of the same type leaves all types as they are.
theorem type_replace {target : NodeId} {new e : Expr}
    (h : ∀ x ∈ e.preorder, x.id = target → x.type = new.type) :
    (replace target new e).type = e.type := by
  induction e using induct_children with
  | step e ih =>
      by_cases hid : e.id = target
      · rw [replace_target hid]
        exact (h e e.self_mem_preorder hid).symm
      · rw [replace_other hid]
        have hchild : ∀ child ∈ e.children, (replace target new child).type = child.type :=
          fun child hmem => ih child hmem fun x hx => h x (preorder_trans
            (child_mem_preorder e.self_mem_preorder hmem) hx)
        cases e with
        | binary id operation left right => exact hchild right (by simp [children])
        | ret id value => exact hchild value (by simp [children])
        | conditional id condition truePart falsePart =>
            rcases truePart with _ | truePart
            · rcases falsePart with _ | falsePart
              · rfl
              · exact hchild falsePart (by simp [children])
            · exact hchild truePart (by simp [children])
        | block id scope children =>
            change lastType (replaceAll target new children) = lastType children
            rw [replaceAll_eq]
            exact lastType_map hchild
        | _ => rfl

end Expr

def Function.replace (target : NodeId) (new : Expr) (f : Function) : Function :=
  { f with body := Expr.replace target new f.body }

-- The tree with one of its expressions replaced.
def Node.replace (target : NodeId) (new : Expr) : Node → Node
  | expr e => expr (Expr.replace target new e)
  | function f => function (f.replace target new)
  | module m => module { m with functions := m.functions.map (·.replace target new) }

namespace Node

variable {target : NodeId} {new : Expr} {node : Node}

theorem replace_target {e : Expr} (h : e.id = target) :
    (expr e).replace target new = expr new :=
  congrArg expr (Expr.replace_target h)

theorem id_replace (h : ∀ e, node = expr e → e.id ≠ target) :
    (node.replace target new).id = node.id := by
  cases node with
  | expr e =>
      simp only [replace, Expr.replace_other (h e rfl)]
      exact Expr.id_replaceBelow
  | function f => rfl
  | module m => rfl

theorem children_replace (h : ∀ e, node = expr e → e.id ≠ target) :
    (node.replace target new).children = node.children.map (replace target new) := by
  cases node with
  | expr e =>
      simp only [replace, children, Expr.replace_other (h e rfl), Expr.children_replaceBelow,
        List.map_map]
      rfl
  | function f => rfl
  | module m =>
      simp only [replace, children, List.map_map]
      rfl

-- The identities in a tree, in preorder.
def ids (node : Node) : List NodeId :=
  node.preorder.map Node.id

theorem ids_eq (node : Node) : node.ids = node.id :: node.children.flatMap ids := by
  rw [ids, preorder_eq, List.map_cons, List.map_flatMap]
  rfl

theorem ids_replace (h : ∀ e, node = expr e → e.id ≠ target) :
    (node.replace target new).ids =
      node.id :: node.children.flatMap fun child => (child.replace target new).ids := by
  rw [ids_eq, id_replace h, children_replace h, List.flatMap_map]

theorem ids_replace_of_notMem (h : target ∉ node.ids) :
    (node.replace target new).ids = node.ids := by
  induction node using induct_children with
  | step node ih =>
      rw [ids_eq, List.mem_cons, List.mem_flatMap] at h
      have hother : ∀ e, node = expr e → e.id ≠ target := by
        rintro e rfl heq
        exact h (.inl heq.symm)
      rw [ids_replace hother, ids_eq node]
      congr 1
      refine List.flatMap_congr fun child hchild => ih child hchild fun hmem => ?_
      exact h (.inr ⟨child, hchild, hmem⟩)

-- A replacement takes the place of what it replaces.
theorem ids_replace_of_mem {p : Expr} (hdistinct : node.ids.Nodup) (hp : expr p ∈ node.preorder) :
    ∃ before after, node.ids = before ++ (expr p).ids ++ after ∧
      (node.replace p.id new).ids = before ++ (expr new).ids ++ after := by
  induction node using induct_children with
  | step node ih =>
      by_cases hself : node = expr p
      · subst hself
        exact ⟨[], [], by simp, by simp [replace_target]⟩
      · rw [preorder_eq, List.mem_cons, List.mem_flatMap] at hp
        obtain ⟨child, hchild, hbelow⟩ := hp.resolve_left (Ne.symm hself)
        obtain ⟨left, right, hsplit⟩ := List.append_of_mem hchild
        have hids : node.ids =
            node.id :: (left.flatMap ids ++ (child.ids ++ right.flatMap ids)) := by
          rw [ids_eq, hsplit, List.flatMap_append, List.flatMap_cons]
        rw [hids, List.nodup_cons, List.nodup_append, List.nodup_append] at hdistinct
        obtain ⟨htop, -, ⟨hbelowDistinct, -, hright⟩, hleft⟩ := hdistinct
        have hmem : p.id ∈ child.ids := List.mem_map_of_mem hbelow
        have hother : ∀ e, node = expr e → e.id ≠ p.id := by
          rintro e rfl heq
          have hid : (expr e).id = p.id := heq
          exact htop (by simp [hid, hmem])
        have hunmoved : ∀ xs : List Node, p.id ∉ xs.flatMap ids →
            (xs.flatMap fun x => (x.replace p.id new).ids) = xs.flatMap ids := by
          intro xs hxs
          refine List.flatMap_congr fun x hx => ids_replace_of_notMem fun hid => ?_
          exact hxs (List.mem_flatMap.mpr ⟨x, hx, hid⟩)
        have hl := hunmoved left fun h => hleft _ h _ (List.mem_append_left _ hmem) rfl
        have hr := hunmoved right fun h => hright _ hmem _ h rfl
        obtain ⟨before, after, hchildIds, hreplaced⟩ := ih child hchild hbelowDistinct hbelow
        refine ⟨node.id :: (left.flatMap ids ++ before), after ++ right.flatMap ids, ?_, ?_⟩
        · rw [hids, hchildIds]
          simp only [List.cons_append, List.append_assoc]
        · rw [ids_replace hother, hsplit, List.flatMap_append, List.flatMap_cons, hl, hr, hreplaced]
          simp only [List.cons_append, List.append_assoc]

-- What is below a replaced tree is in the replacement, or was there before.
theorem mem_replace {x : Node} (h : x ∈ (node.replace target new).preorder) :
    x ∈ (expr new).preorder ∨ ∃ y ∈ node.preorder,
      x = y.replace target new ∧ ∀ e, y = expr e → e.id ≠ target := by
  induction node using induct_children with
  | step node ih =>
      by_cases htarget : ∃ e, node = expr e ∧ e.id = target
      · obtain ⟨e, rfl, hid⟩ := htarget
        rw [replace_target hid] at h
        exact .inl h
      · have hother : ∀ e, node = expr e → e.id ≠ target := by
          rintro e rfl hid
          exact htarget ⟨e, rfl, hid⟩
        rw [preorder_eq, children_replace hother, List.mem_cons, List.flatMap_map,
          List.mem_flatMap] at h
        rw [preorder_eq node]
        rcases h with rfl | ⟨child, hchild, h⟩
        · exact .inr ⟨node, List.mem_cons_self, rfl, hother⟩
        · rcases ih child hchild h with h | ⟨y, hy, hx⟩
          · exact .inl h
          · exact .inr ⟨y, List.mem_cons_of_mem _ (List.mem_flatMap.mpr ⟨child, hchild, hy⟩), hx⟩

-- A tree stays well formed if the identities of the replacement are new, or those
-- of what it replaces.
theorem wellFormed_replace {root : Node} {p : Expr} (hwf : root.WellFormed)
    (hp : expr p ∈ root.preorder) (hnew : new.WellFormed)
    (hfresh : ∀ id ∈ (expr new).ids, id ∈ root.ids → id ∈ (expr p).ids) :
    (root.replace p.id new).WellFormed where
  distinct := by
    have hdistinct : root.ids.Nodup := hwf.distinct
    have hown : (expr new).ids.Nodup := by
      have hown := hnew.distinct
      simpa [ids, preorder, Function.comp_def, Node.id] using hown
    obtain ⟨before, after, hids, hreplaced⟩ :
        ∃ before after, root.ids = before ++ (expr p).ids ++ after ∧
          (root.replace p.id new).ids = before ++ (expr new).ids ++ after :=
      ids_replace_of_mem hdistinct hp
    change (root.replace p.id new).ids.Nodup
    rw [hids] at hdistinct hfresh
    rw [hreplaced]
    rw [List.nodup_append, List.nodup_append] at hdistinct ⊢
    obtain ⟨⟨hbefore, _, hleft⟩, hafter, hright⟩ := hdistinct
    refine ⟨⟨hbefore, hown, fun id hid other hother heq => ?_⟩, hafter,
      fun id hid other hother heq => ?_⟩
    · subst heq
      exact hleft id hid id (hfresh id hother (by simp [hid])) rfl
    · subst heq
      rcases List.mem_append.mp hid with hid | hid
      · exact hright id (List.mem_append_left _ hid) id hother rfl
      · exact hright id (List.mem_append_right _ (hfresh id hid (by simp [hother]))) id hother rfl
  nonempty id scope hmem := by
    rcases mem_replace hmem with h | ⟨y, hy, heq, hother⟩
    · exact hnew.nonempty id scope (by simpa [preorder] using h)
    · cases y with
      | expr e =>
          simp only [replace, Expr.replace_other (hother e rfl), Node.expr.injEq] at heq
          cases e with
          | block other inner children =>
              simp only [Expr.replaceBelow, Expr.block.injEq, Expr.replaceAll_eq] at heq
              obtain ⟨-, -, hnil⟩ := heq
              rw [List.map_eq_nil_iff.mp hnil.symm] at hy
              exact hwf.nonempty _ _ hy
          | _ => cases heq
      | function f => cases heq
      | module m => cases heq

end Node

end TreeLang

import TreeLang.Proofs.Evaluation.Refinement
import TreeLang.Proofs.Static.TypeChecking
import TreeLang.Proofs.Tree.Replace
import TreeLang.Proofs.Walk.Tour

namespace TreeLang

open TreeLang.Action

-- A run of these steps comes to the expression, and then is suppressed or not.
def Enters (p : Expr) (suppressed : Bool) (steps : List Step) (m : Machine) : Prop :=
  ∃ before here after m', steps = before ++ .call ⟨.enter, .expr p, here⟩ :: after ∧
    effect (evaluator.traverse (before ++ [.call ⟨.enter, .expr p, here⟩])) m = (.ok (), m') ∧
    m'.suppressed = suppressed

namespace Enters

variable {p : Expr} {suppressed : Bool} {xs ys : List Step} {m m' : Machine}

theorem here {call : Call} (hmoment : call.moment = .enter) (hnode : call.node = .expr p)
    (hcall : effect (evaluator.call call) m = (.ok (), m')) (hm : m'.suppressed = suppressed) :
    Enters p suppressed (.call call :: xs) m := by
  rcases call with ⟨moment, node, context⟩
  obtain rfl : moment = .enter := hmoment
  obtain rfl : node = .expr p := hnode
  exact ⟨[], context, xs, m', rfl, Visitor.effect_traverse_call_ok hcall [], hm⟩

theorem append_left (h : Enters p suppressed xs m) (ys : List Step) :
    Enters p suppressed (xs ++ ys) m := by
  obtain ⟨before, here, after, m', rfl, hrun, hm⟩ := h
  exact ⟨before, here, after ++ ys, m', by simp, hrun, hm⟩

theorem append_right (hxs : effect (evaluator.traverse xs) m = (.ok (), m'))
    (h : Enters p suppressed ys m') : Enters p suppressed (xs ++ ys) m := by
  obtain ⟨before, here, after, m'', rfl, hrun, hm⟩ := h
  refine ⟨xs ++ before, here, after, m'', by simp, ?_, hm⟩
  rw [List.append_assoc, Visitor.effect_traverse_append_ok hxs]
  exact hrun

end Enters

-- Two direct evaluations are the same, unless a run of these steps comes to the
-- expression in which they differ.
def SameUnless (p : Expr) {α : Type} (direct direct' : Direct α) (store : Store)
    (steps : List Step) (m : Machine) : Prop :=
  direct.run store = direct'.run store ∨ Enters p false steps m

namespace SameUnless

variable {α β : Type} {p : Expr} {direct direct' : Direct α} {store : Store} {m m' : Machine}
  {xs ys : List Step}

theorem append_left (h : SameUnless p direct direct' store xs m) (ys : List Step) :
    SameUnless p direct direct' store (xs ++ ys) m :=
  h.imp_right fun h => h.append_left ys

theorem append_right (hxs : effect (evaluator.traverse xs) m = (.ok (), m'))
    (h : SameUnless p direct direct' store ys m') :
    SameUnless p direct direct' store (xs ++ ys) m :=
  h.imp_right fun h => h.append_right hxs

theorem checked {fault : Option Error} (hfault : fault = none)
    (hxs : Checked fault m (effect (evaluator.traverse xs) m))
    (h : SameUnless p direct direct' store ys m) :
    SameUnless p direct direct' store (xs ++ ys) m := by
  subst hfault
  exact h.append_right (Prod.ext hxs.result (hxs.unmoved rfl))

theorem call {c : Call} (hc : effect (evaluator.call c) m = (.ok (), m'))
    (h : SameUnless p direct direct' store xs m') :
    SameUnless p direct direct' store (.call c :: xs) m :=
  append_right (Visitor.effect_traverse_call_ok hc []) h

theorem note (entry : Entry) (h : SameUnless p direct direct' store xs m) :
    SameUnless p direct direct' store (.note entry :: xs) m :=
  @append_right _ _ _ _ _ _ _ [.note entry] _ rfl h

-- What follows is the same anyhow.
theorem followed {next next' : α → Direct β} (h : SameUnless p direct direct' store xs m)
    (hnext : ∀ a store', (next a).run store' = (next' a).run store') :
    SameUnless p (direct >>= next) (direct' >>= next') store xs m := by
  refine h.imp_left fun hsame => ?_
  rw [StateT.run_bind, StateT.run_bind, hsame]
  exact bind_congr fun outcome => hnext outcome.1 outcome.2

-- What follows is the same unless a run of the steps after these comes to the
-- expression.
theorem bind {fits : α → Store → Machine → Prop} {next next' : α → Direct β}
    (hagrees : Agrees fits (direct.run store) (effect (evaluator.traverse xs) m))
    (h : SameUnless p direct direct' store xs m)
    (hnext : ∀ a store' m', fits a store' m' →
      SameUnless p (next a) (next' a) store' ys m') :
    SameUnless p (direct >>= next) (direct' >>= next') store (xs ++ ys) m := by
  rcases h with hsame | henters
  · rw [SameUnless, StateT.run_bind, StateT.run_bind, ← hsame]
    rcases hrun : effect (evaluator.traverse xs) m with ⟨result, m'⟩
    rw [hrun] at hagrees
    cases hdirect : direct.run store with
    | error error => exact .inl rfl
    | ok outcome =>
        rw [hdirect] at hagrees
        obtain ⟨rfl, hfits⟩ : result = .ok () ∧ fits outcome.1 outcome.2 m' := hagrees
        exact (hnext _ _ _ hfits).imp_right fun h => h.append_right hrun
  · exact .inr (henters.append_left ys)

end SameUnless

theorem obey_none {α : Type} (next : Direct α) : (do obey none; next) = next := rfl

namespace Expr

-- Within an expression other than `p`, to put `q` in the place of `p` changes
-- nothing unless the machine comes to `p` and is not suppressed then. Neither
-- expression may violate the static rules.
def Unaffected (p q e : Expr) : Prop :=
  e.id ≠ p.id → ∀ (outer : Context) (values : List Value) (store : Store) (branches : List Bool),
    e.violation? outer.scopes = none → (replace p.id q e).violation? outer.scopes = none →
    SameUnless p (e.evaluateDirectly outer.scopes)
      ((replace p.id q e).evaluateDirectly outer.scopes) store
      (e.interior (outer.within (.expr e))) { values, store, branches }

variable {p q : Expr}

-- The machine comes to an expression before all that is within it.
theorem Unaffected.steps {e : Expr} (h : Unaffected p q e) (hp : e.id = p.id → e = p)
    (outer : Context) (values : List Value) (store : Store) (branches : List Bool)
    (henter : effect (evaluator.call ⟨.enter, .expr e, outer.within (.expr e)⟩)
      { values, store, branches } = (.ok (), { values, store, branches }))
    (hviolation : e.violation? outer.scopes = none)
    (hreplaced : (replace p.id q e).violation? outer.scopes = none) :
    SameUnless p (e.evaluateDirectly outer.scopes)
      ((replace p.id q e).evaluateDirectly outer.scopes) store (e.steps outer)
      { values, store, branches } := by
  rw [steps_eq]
  by_cases hid : e.id = p.id
  · obtain rfl := hp hid
    exact .inr (.here rfl rfl henter rfl)
  · have hinterior := h hid outer values store branches hviolation hreplaced
    exact .call henter (hinterior.append_left _)

theorem effect_checkUse_of_none {here : Context} {v : Variable} {id : NodeId} {m : Machine}
    (h : useError? here.scopes v id = none) :
    effect (evaluator.traverse (Step.checkUse here v id)) m = (.ok (), m) := by
  rw [effect_checkUse, h]
  rfl

theorem unaffected_leaf {e : Expr} (h : replaceBelow p.id q e = e) : Unaffected p q e := by
  intro hid outer values store branches _ _
  rw [replace_other hid, h]
  exact .inl rfl

section Forms

variable {id : NodeId} {left right value : Expr}

theorem unaffected_binary {operation : Operation} (hwf : left.WellFormed)
    (hl : Unaffected p q left) (hpl : left.id = p.id → left = p)
    (hr : Unaffected p q right) (hpr : right.id = p.id → right = p) :
    Unaffected p q (binary id operation left right) := by
  intro hid outer values store branches hviolation hreplaced
  rw [replace_other hid, replaceBelow_binary] at hreplaced ⊢
  simp only [violation?, Option.orElse_eq_orElse, Option.orElse_eq_or,
    Option.or_eq_none_iff] at hviolation hreplaced
  obtain ⟨hvl, hvr, hoperands⟩ := hviolation
  obtain ⟨hvl', hvr', hoperands'⟩ := hreplaced
  have hleft := (left.simulated hwf).steps (outer.within (.expr (binary id operation left right)))
  have hl := hl.steps hpl (outer.within (.expr (binary id operation left right)))
  have hr := hr.steps hpr (outer.within (.expr (binary id operation left right)))
  simp only [evaluateDirectly, interior]
  refine .call rfl (.bind (hleft values store branches rfl)
    (hl values store branches rfl hvl hvl') fun ending store' m' hends => ?_)
  cases ending with
  | returned value =>
      simp only [hvr, hvr', hoperands, hoperands']
      exact .inl rfl
  | normal l =>
      obtain rfl := hends
      refine ((hr _ _ _ rfl hvr hvr').followed fun ending store'' => ?_).append_left _
      rw [hoperands, hoperands']

theorem unaffected_assign {target : Variable} (h : Unaffected p q value)
    (hp : value.id = p.id → value = p) : Unaffected p q (assign id target value) := by
  intro hid outer values store branches hviolation hreplaced
  rw [replace_other hid, replaceBelow_assign] at hreplaced ⊢
  simp only [violation?, Option.orElse_eq_orElse, Option.orElse_eq_or,
    Option.or_eq_none_iff] at hviolation hreplaced
  obtain ⟨huse, hv⟩ := hviolation
  have hvalue := h.steps hp (outer.within (.expr (assign id target value)))
  simp only [evaluateDirectly, interior, huse, obey_none]
  refine .append_right (effect_checkUse_of_none huse) (.call rfl (.append_left ?_ _))
  exact (hvalue values store branches rfl hv hreplaced.2).followed fun _ _ => rfl

theorem unaffected_ret (h : Unaffected p q value) (hp : value.id = p.id → value = p) :
    Unaffected p q (ret id value) := by
  intro hid outer values store branches hviolation hreplaced
  rw [replace_other hid, replaceBelow_ret] at hreplaced ⊢
  have hvalue := h.steps hp (outer.within (.expr (ret id value)))
  simp only [evaluateDirectly, interior]
  refine .call rfl (.append_left ?_ _)
  exact (hvalue values store branches rfl hviolation hreplaced).followed fun _ _ => rfl

section Conditional

variable {condition : Expr} {truePart falsePart : Option Expr}

-- A part the outcome chooses is entered as any other child is.
theorem unaffected_part_taken {part : Part} {e? : Option Expr} {here : Context} {outcome : Bool}
    (h : ∀ e ∈ e?, Unaffected p q e) (hp : ∀ e ∈ e?, e.id = p.id → e = p)
    (hbranch : part ≠ .condition) (hpart : ∀ e ∈ e?, (here.within (.expr e)).part? = some part)
    (htaken : outcome = decide (part = .truePart)) (values : List Value) (store : Store)
    (branches : List Bool) (hviolation : partViolation? here.scopes e? = none)
    (hreplaced : partViolation? here.scopes (e?.map (replace p.id q)) = none) :
    SameUnless p (evaluatePart here.scopes e?)
      (evaluatePart here.scopes (e?.map (replace p.id q))) store (partSteps here e?)
      { values, store, branches := outcome :: branches } := by
  cases e? with
  | none => exact .inl rfl
  | some e =>
      have henter := Machine.effect_enter_taken (e := e) values store branches (hpart e rfl) hbranch
        htaken
      have hsteps := (h e rfl).steps (hp e rfl) here values store (outcome :: branches) henter
        hviolation hreplaced
      exact hsteps.followed fun _ _ => rfl

theorem unaffected_conditional
    (hwf : (conditional id condition truePart falsePart).WellFormed)
    (htype : ∀ x ∈ (conditional id condition truePart falsePart).preorder,
      x.id = p.id → x.type = q.type)
    (hc : Unaffected p q condition) (hpc : condition.id = p.id → condition = p)
    (ht : ∀ e ∈ truePart, Unaffected p q e) (hpt : ∀ e ∈ truePart, e.id = p.id → e = p)
    (hf : ∀ e ∈ falsePart, Unaffected p q e) (hpf : ∀ e ∈ falsePart, e.id = p.id → e = p) :
    Unaffected p q (conditional id condition truePart falsePart) := by
  intro hid outer values store branches hviolation hreplaced
  have htype := type_replace htype
  rw [replace_other hid, replaceBelow_conditional] at hreplaced htype ⊢
  simp only [violation?, Option.orElse_eq_orElse, Option.orElse_eq_or,
    Option.or_eq_none_iff] at hviolation hreplaced
  obtain ⟨hvc, hvt, hvf⟩ := hviolation
  obtain ⟨hvc', hvt', hvf'⟩ := hreplaced
  obtain ⟨here, hhere⟩ : ∃ here,
    here = outer.within (.expr (conditional id condition truePart falsePart)) := ⟨_, rfl⟩
  have hscopes : outer.scopes = here.scopes := by rw [hhere]; rfl
  have hcondition : (here.within (.expr condition)).part? = some .condition :=
    hhere ▸ part?_condition outer
  have htrue : ∀ e ∈ truePart, (here.within (.expr e)).part? = some .truePart :=
    hhere ▸ part?_truePart hwf outer
  have hfalse : ∀ e ∈ falsePart, (here.within (.expr e)).part? = some .falsePart :=
    hhere ▸ part?_falsePart hwf outer
  have hwft : ∀ e ∈ truePart, e.WellFormed := by
    rintro e rfl
    exact hwf.child (by simp [children])
  have hsimulated := (condition.simulated (hwf.child (by simp [children]))).condition here values
    store branches hcondition
  have hentered := hc.steps hpc here values store branches
    (Machine.effect_enter_plain _ _ _ (.inr hcondition))
  rw [hscopes] at hvc hvc' hvt hvt' hvf hvf'
  simp only [evaluateDirectly, interior, ← hhere, hscopes, htype, hvt, hvt', hvf, hvf', obey_none]
  refine .call rfl (.bind hsimulated (hentered hvc hvc') fun ending store' m' hends => ?_)
  cases ending with
  | returned value => exact .inl rfl
  | normal value =>
      obtain rfl := hends
      cases hvalue : value.truthy with
      | true =>
          simp only [hvalue, if_true, pure_bind]
          have htaken := unaffected_part_taken ht hpt (by simp) htrue rfl values store' branches
            hvt hvt'
          exact (htaken.followed fun _ _ => rfl).append_left _
      | false =>
          simp only [hvalue, Bool.false_eq_true, if_false]
          have htaken := unaffected_part_taken hf hpf (by simp) hfalse rfl values store' branches
            hvf hvf'
          refine .checked hvt (checked_part_untaken hwft (by simp) htrue (by simp) ..) ?_
          exact (htaken.followed fun _ _ => rfl).append_left _

end Conditional

theorem unaffected_children {es : List Expr} (hwf : ∀ e ∈ es, e.WellFormed)
    (h : ∀ e ∈ es, Unaffected p q e) (hp : ∀ e ∈ es, e.id = p.id → e = p) (inside : Context)
    (hplain : ∀ e ∈ es, (inside.within (.expr e)).part? = none) {index count : Nat}
    (hcount : index + es.length = count) (values : List Value) (store : Store)
    (branches : List Bool) (hviolation : childViolation? inside.scopes es = none)
    (hreplaced : childViolation? inside.scopes (es.map (replace p.id q)) = none) :
    SameUnless p (evaluateAll inside.scopes es)
      (evaluateAll inside.scopes (es.map (replace p.id q))) store
      (childSteps inside index count es) { values, store, branches } := by
  induction es generalizing index store with
  | nil => exact .inl rfl
  | cons e rest ih =>
      have hhead := hplain e List.mem_cons_self
      have hsimulated := ((e.simulated (hwf e List.mem_cons_self))).steps inside values store
        branches hhead
      have he := (h e List.mem_cons_self).steps (hp e List.mem_cons_self) inside values store
        branches (Machine.effect_enter_plain _ _ _ (.inl hhead))
      simp only [List.map_cons, childViolation?, Option.orElse_eq_orElse, Option.orElse_eq_or,
        Option.or_eq_none_iff] at hviolation hreplaced
      cases rest with
      | nil =>
          rw [childSteps_last hcount]
          exact he hviolation.1 hreplaced.1
      | cons next rest =>
          rw [childSteps_more hcount]
          simp only [List.map_cons, evaluateAll]
          refine .bind hsimulated (he hviolation.1 hreplaced.1) fun ending store' m' hends => ?_
          cases ending with
          | returned value =>
              rw [← List.map_cons]
              simp only [hviolation.2, hreplaced.2]
              exact .inl rfl
          | normal value =>
              obtain rfl := hends
              refine .call (Machine.effect_discard ..) ?_
              refine ih (fun x hx => hwf x (List.mem_cons_of_mem _ hx))
                (fun x hx => h x (List.mem_cons_of_mem _ hx))
                (fun x hx => hp x (List.mem_cons_of_mem _ hx))
                (fun x hx => hplain x (List.mem_cons_of_mem _ hx)) ?_ store' hviolation.2
                hreplaced.2
              simp only [List.length_cons] at hcount ⊢
              omega

theorem unaffected_block {scope : Scope} {children : List Expr}
    (hwf : ∀ e ∈ children, e.WellFormed) (h : ∀ e ∈ children, Unaffected p q e)
    (hp : ∀ e ∈ children, e.id = p.id → e = p) : Unaffected p q (block id scope children) := by
  intro hid outer values store branches hviolation hreplaced
  rw [replace_other hid, replaceBelow_block] at hreplaced ⊢
  simp only [evaluateDirectly, interior]
  refine .note _ (.call rfl (.append_left ?_ _))
  exact unaffected_children hwf h hp
    ((outer.within (.expr (block id scope children))).opening scope) (fun _ _ => rfl)
    (Nat.zero_add _) values store branches hviolation hreplaced

end Forms

-- No other expression within `e` bears the identity of `p`.
def Only (p e : Expr) : Prop :=
  ∀ x ∈ e.preorder, x.id = p.id → x = p

theorem Only.self {e : Expr} (h : Only p e) : e.id = p.id → e = p :=
  h e e.self_mem_preorder

theorem Only.child {e child : Expr} (h : Only p e) (hchild : child ∈ e.children) :
    Only p child :=
  fun x hx => h x (preorder_trans (child_mem_preorder e.self_mem_preorder hchild) hx)

theorem unaffected (e : Expr) (hwf : e.WellFormed) (hp : Only p e) (htype : q.type = p.type) :
    Unaffected p q e := by
  induction e using induct_children with
  | step e ih =>
      have hself : ∀ child ∈ e.children, child.id = p.id → child = p :=
        fun child hchild => (hp.child hchild).self
      have hbelow : ∀ child ∈ e.children, Unaffected p q child :=
        fun child hchild => ih child hchild (hwf.child hchild) (hp.child hchild)
      cases e with
      | int32 id value => exact unaffected_leaf rfl
      | float id value => exact unaffected_leaf rfl
      | ref id target => exact unaffected_leaf rfl
      | binary id operation left right =>
          have hl : left ∈ (binary id operation left right).children := by simp [children]
          have hr : right ∈ (binary id operation left right).children := by simp [children]
          exact unaffected_binary (hwf.child hl) (hbelow left hl) (hself left hl)
            (hbelow right hr) (hself right hr)
      | assign id target value =>
          have hv : value ∈ (assign id target value).children := by simp [children]
          exact unaffected_assign (hbelow value hv) (hself value hv)
      | ret id value =>
          have hv : value ∈ (ret id value).children := by simp [children]
          exact unaffected_ret (hbelow value hv) (hself value hv)
      | conditional id condition truePart falsePart =>
          have hc : condition ∈ (conditional id condition truePart falsePart).children := by
            simp [children]
          have ht : ∀ e ∈ truePart, e ∈ (conditional id condition truePart falsePart).children := by
            rintro e rfl
            simp [children]
          have hf : ∀ e ∈ falsePart,
              e ∈ (conditional id condition truePart falsePart).children := by
            rintro e rfl
            simp [children]
          have hsame : ∀ x ∈ (conditional id condition truePart falsePart).preorder,
              x.id = p.id → x.type = q.type := by
            intro x hx hid
            rw [hp x hx hid, htype]
          exact unaffected_conditional hwf hsame (hbelow condition hc) (hself condition hc)
            (fun e he => hbelow e (ht e he)) (fun e he => hself e (ht e he))
            (fun e he => hbelow e (hf e he)) (fun e he => hself e (hf e he))
      | block id scope children =>
          exact unaffected_block (fun e he => hwf.child he) hbelow hself

end Expr

end TreeLang

import TreeLang.Proofs.Evaluation.Agreement
import TreeLang.Proofs.Tree.WellFormed

namespace TreeLang

open TreeLang.Action

-- Wherever an expression stands and whatever is on the stacks, the machine
-- agrees with the direct evaluation about what is within it.
def Expr.Simulated (e : Expr) : Prop :=
  ∀ (outer : Context) (values : List Value) (store : Store) (branches : List Bool),
    Agrees (Ends values branches) ((e.evaluateDirectly outer.scopes).run store)
      (effect (evaluator.traverse (e.interior (outer.within (.expr e))))
        { values, store, branches })

namespace Ends

-- After a return, what is left of the function is only checked.

variable {values : List Value} {store : Store} {branches : List Bool} {value : Value} {m : Machine}

theorem checked_steps (h : Ends values branches (.returned value) store m) (e : Expr)
    (outer : Context) :
    Checked (e.violation? outer.scopes) m (effect (evaluator.traverse (e.steps outer)) m) := by
  obtain ⟨above, pending, rfl⟩ := h
  exact .of_eq (Expr.effect_steps_of_suppressed rfl e outer (by simp))

theorem checked_partSteps (h : Ends values branches (.returned value) store m)
    (part : Option Expr) (here : Context) :
    Checked (Expr.partViolation? here.scopes part) m
      (effect (evaluator.traverse (partSteps here part)) m) := by
  cases part with
  | none => exact .of_eq rfl
  | some e => exact h.checked_steps e here

theorem checked_childSteps (h : Ends values branches (.returned value) store m) (es : List Expr)
    (inside : Context) (index count : Nat) :
    Checked (Expr.childViolation? inside.scopes es) m
      (effect (evaluator.traverse (childSteps inside index count es)) m) := by
  induction es generalizing index with
  | nil => exact .of_eq rfl
  | cons e rest ih =>
      simp only [childSteps, Expr.childViolation?, List.append_assoc]
      refine (h.checked_steps e inside).append ?_
      split
      · rw [List.cons_append, Visitor.effect_traverse_call_ok (h.call_ignored rfl)]
        exact ih _
      · exact ih _

end Ends

namespace Expr

-- The calls at the edges of an expression that is not part of a conditional
-- have no effect.
theorem Simulated.steps {e : Expr} (h : e.Simulated) (outer : Context) (values : List Value)
    (store : Store) (branches : List Bool) (hplain : (outer.within (.expr e)).part? = none) :
    Agrees (Ends values branches) ((e.evaluateDirectly outer.scopes).run store)
      (effect (evaluator.traverse (e.steps outer)) { values, store, branches }) := by
  rw [steps_eq]
  refine .call (Machine.effect_enter_plain _ _ _ (.inl hplain)) ?_
  refine (h outer values store branches).followed fun ending store' m' hends => ?_
  cases ending with
  | normal value =>
      obtain rfl := hends
      refine .call (Machine.effect_leave_plain _ _ _ ?_) (.nil rfl)
      simp [hplain]
  | returned value => exact hends.last_ignored rfl

theorem effect_checkUse (here : Context) (v : Variable) (id : NodeId) (m : Machine) :
    effect (evaluator.traverse (Step.checkUse here v id)) m =
      (verdict (useError? here.scopes v id), m) := by
  rw [Step.checkUse_eq]
  cases useError? here.scopes v id <;> rfl

theorem effect_checkOperands (id : NodeId) (left right : Expr) (m : Machine) :
    effect (evaluator.traverse (Step.checkOperands id left right)) m =
      (verdict (operandError? id left right), m) := by
  unfold Step.checkOperands
  cases operandError? id left right <;> rfl

theorem simulated_int32 (id : NodeId) (value : Int32) : (int32 id value).Simulated :=
  fun _ _ _ _ => ⟨rfl, rfl⟩

theorem simulated_float (id : NodeId) (value : Float32) : (float id value).Simulated :=
  fun _ _ _ _ => ⟨rfl, rfl⟩

theorem simulated_ref (id : NodeId) (target : Variable) : (ref id target).Simulated := by
  intro outer values store branches
  simp only [evaluateDirectly, interior]
  refine .obey (.of_eq (effect_checkUse ..)) ?_
  have hvisit := Machine.effect_visit_ref values store branches id target
    (outer.within (.expr (ref id target)))
  simp only [readDirectly, bind_assoc, StateT.run_bind, StateT.run_get, pure_bind]
  cases hfind : store.find? target.id with
  | some value =>
      rw [hfind] at hvisit
      exact .call hvisit (.nil rfl)
  | none =>
      rw [hfind] at hvisit
      exact .last hvisit

theorem simulated_binary {id : NodeId} {operation : Operation} {left right : Expr}
    (hl : left.Simulated) (hr : right.Simulated) :
    (binary id operation left right).Simulated := by
  intro outer values store branches
  have hl := hl.steps (outer.within (.expr (binary id operation left right)))
  have hr := hr.steps (outer.within (.expr (binary id operation left right)))
  simp only [evaluateDirectly, interior]
  refine .call rfl ((hl values store branches rfl).bind fun ending store' m' hends => ?_)
  cases ending with
  | returned value =>
      refine .obey (hends.checked_steps right
        (outer.within (.expr (binary id operation left right)))) ?_
      exact .obey (.of_eq (effect_checkOperands ..)) (hends.last_ignored rfl)
  | normal l =>
      obtain rfl := hends
      refine (hr _ _ _ rfl).bind fun ending store' m' hends => ?_
      refine .obey (.of_eq (effect_checkOperands ..)) ?_
      cases ending with
      | returned value =>
          have hends : Ends values branches (.returned value) store' m' :=
            Ends.of_deeper [l] [] hends
          exact hends.last_ignored rfl
      | normal r =>
          obtain rfl := hends
          exact .last (Machine.effect_finish_binary ..)

theorem simulated_assign {id : NodeId} {target : Variable} {value : Expr}
    (h : value.Simulated) : (assign id target value).Simulated := by
  intro outer values store branches
  have h := h.steps (outer.within (.expr (assign id target value)))
  simp only [evaluateDirectly, interior]
  refine .obey (.of_eq (effect_checkUse ..)) ?_
  refine .call rfl ((h values store branches rfl).bind fun ending store' m' hends => ?_)
  cases ending with
  | returned v => exact hends.last_ignored rfl
  | normal v =>
      obtain rfl := hends
      exact .call (Machine.effect_finish_assign ..) (.nil rfl)

theorem simulated_ret {id : NodeId} {value : Expr} (h : value.Simulated) :
    (ret id value).Simulated := by
  intro outer values store branches
  have h := h.steps (outer.within (.expr (ret id value)))
  simp only [evaluateDirectly, interior]
  refine .call rfl ((h values store branches rfl).bind fun ending store' m' hends => ?_)
  cases ending with
  | returned v => exact hends.last_ignored rfl
  | normal v =>
      obtain rfl := hends
      exact .call (Machine.effect_finish_ret ..) (.nil ⟨[], [], rfl⟩)

-- A condition leaves its outcome instead of its value.
def Chooses (values : List Value) (branches : List Bool) : Ending → Store → Machine → Prop
  | .normal value, store, m => m = { values, store, branches := value.truthy :: branches }
  | .returned value, store, m => Ends values branches (.returned value) store m

theorem Simulated.condition {e : Expr} (h : e.Simulated) (outer : Context) (values : List Value)
    (store : Store) (branches : List Bool)
    (hpart : (outer.within (.expr e)).part? = some .condition) :
    Agrees (Chooses values branches) ((e.evaluateDirectly outer.scopes).run store)
      (effect (evaluator.traverse (e.steps outer)) { values, store, branches }) := by
  rw [steps_eq]
  refine .call (Machine.effect_enter_plain _ _ _ (.inr hpart)) ?_
  refine (h outer values store branches).followed fun ending store' m' hends => ?_
  cases ending with
  | normal value =>
      obtain rfl := hends
      exact .call (Machine.effect_leave_condition _ _ _ hpart value) (.nil rfl)
  | returned value =>
      have hends : Ends values branches (.returned value) store' m' := hends
      exact .call (hends.call_ignored rfl) (.nil hends)

-- A part the outcome chooses has the ending of its expression, and a missing
-- one none.
def EndsPart (e? : Option Expr) (values : List Value) (branches : List Bool) :
    Option Ending → Store → Machine → Prop
  | some ending, store, m => e? ≠ none ∧ Ends values branches ending store m
  | none, store, m => e? = none ∧ m = { values, store, branches }

theorem part?_within (outer : Context) (parent e : Expr) :
    ((outer.within (.expr parent)).within (.expr e)).part? = parent.partOf? e.id := rfl

section Within

variable {id : NodeId} {condition : Expr} {truePart falsePart : Option Expr}

theorem part?_condition (outer : Context) :
    ((outer.within (.expr (conditional id condition truePart falsePart))).within
      (.expr condition)).part? = some .condition := by
  rw [part?_within]
  exact partOf?_condition

theorem part?_truePart (hwf : (conditional id condition truePart falsePart).WellFormed)
    (outer : Context) : ∀ e ∈ truePart,
    ((outer.within (.expr (conditional id condition truePart falsePart))).within
      (.expr e)).part? = some .truePart := by
  rintro e rfl
  rw [part?_within]
  exact partOf?_truePart hwf

theorem part?_falsePart (hwf : (conditional id condition truePart falsePart).WellFormed)
    (outer : Context) : ∀ e ∈ falsePart,
    ((outer.within (.expr (conditional id condition truePart falsePart))).within
      (.expr e)).part? = some .falsePart := by
  rintro e rfl
  rw [part?_within]
  exact partOf?_falsePart hwf

end Within

section Parts

variable {part : Part} {e? : Option Expr} {here : Context} {outcome : Bool}

theorem agrees_part_taken (h : ∀ e ∈ e?, e.Simulated) (hbranch : part ≠ .condition)
    (hpart : ∀ e ∈ e?, (here.within (.expr e)).part? = some part)
    (htaken : outcome = decide (part = .truePart)) (values : List Value) (store : Store)
    (branches : List Bool) :
    Agrees (EndsPart e? values (outcome :: branches)) ((evaluatePart here.scopes e?).run store)
      (effect (evaluator.traverse (partSteps here e?))
        { values, store, branches := outcome :: branches }) := by
  cases e? with
  | none => exact .nil ⟨rfl, rfl⟩
  | some e =>
      simp only [evaluatePart, partSteps]
      rw [steps_eq]
      refine .call (Machine.effect_enter_taken _ _ _ (hpart e rfl) hbranch htaken) ?_
      refine (h e rfl here values store (outcome :: branches)).bind
        fun ending store' m' hends => ?_
      cases ending with
      | normal value =>
          obtain rfl := hends
          refine .call (Machine.effect_leave_plain _ _ _ ?_) (.nil ⟨by simp, rfl⟩)
          simpa [hpart e rfl] using hbranch
      | returned value => exact .call (hends.call_ignored rfl) (.nil ⟨by simp, hends⟩)

theorem checked_part_untaken (hwf : ∀ e ∈ e?, e.WellFormed) (hbranch : part ≠ .condition)
    (hpart : ∀ e ∈ e?, (here.within (.expr e)).part? = some part)
    (huntaken : outcome ≠ decide (part = .truePart)) (values : List Value) (store : Store)
    (branches : List Bool) :
    Checked (partViolation? here.scopes e?) { values, store, branches := outcome :: branches }
      (effect (evaluator.traverse (partSteps here e?))
        { values, store, branches := outcome :: branches }) := by
  cases e? with
  | none => exact .of_eq rfl
  | some e =>
      have hinterior : effect (evaluator.traverse (e.interior (here.within (.expr e))))
          { values, store, branches := outcome :: branches, skipUntil := some e.id } =
          (verdict (e.violation? here.scopes),
            { values, store, branches := outcome :: branches, skipUntil := some e.id }) := by
        refine effect_interior_of_suppressed rfl e here fun x hx => ?_
        simpa using Ne.symm ((hwf e rfl).id_notMem_below x hx)
      simp only [partSteps, partViolation?]
      rw [steps_eq, Visitor.effect_traverse_call_ok
        (Machine.effect_enter_untaken _ _ _ (hpart e rfl) hbranch huntaken)]
      cases hviolation : e.violation? here.scopes with
      | none =>
          rw [hviolation] at hinterior
          rw [Visitor.effect_traverse_append_ok hinterior]
          exact .of_eq (Visitor.effect_traverse_call_ok (Machine.effect_leave_skipped ..) [])
      | some error =>
          rw [hviolation] at hinterior
          rw [Visitor.effect_traverse_append_error hinterior]
          exact .of_error rfl

-- The other part comes after the chosen one, which may have returned.
theorem checked_part_after {chosen? : Option Expr} {chosen : Option Ending} {m : Machine}
    {values : List Value} {store : Store} {branches : List Bool}
    (hends : EndsPart chosen? values (outcome :: branches) chosen store m)
    (hwf : ∀ e ∈ e?, e.WellFormed) (hbranch : part ≠ .condition)
    (hpart : ∀ e ∈ e?, (here.within (.expr e)).part? = some part)
    (huntaken : outcome ≠ decide (part = .truePart)) :
    Checked (partViolation? here.scopes e?) m
      (effect (evaluator.traverse (partSteps here e?)) m) := by
  rcases chosen with _ | value | value
  · obtain ⟨_, rfl⟩ := hends
    exact checked_part_untaken hwf hbranch hpart huntaken values store branches
  · obtain ⟨_, rfl⟩ := hends
    exact checked_part_untaken hwf hbranch hpart huntaken (value :: values) store branches
  · obtain ⟨_, hends⟩ := hends
    exact hends.checked_partSteps e? here

end Parts

section Conditional

variable {id : NodeId} {condition : Expr} {truePart falsePart : Option Expr}

theorem agrees_finish_conditional (outcome : Bool) (chosen : Option Ending) {m : Machine}
    {values : List Value} {store : Store} {branches : List Bool} {here : Context} :
    EndsPart (if outcome then truePart else falsePart) values (outcome :: branches)
      chosen store m →
    Agrees (Ends values branches)
      ((match chosen with
        | some ending => return ending
        | none =>
            return .normal (← (conditional id condition truePart falsePart).type.zero id) :
        Direct Ending).run store)
      (effect (evaluator.traverse
        [.call ⟨.finish, .expr (conditional id condition truePart falsePart), here⟩]) m) := by
  intro hends
  rcases chosen with _ | value | value
  · obtain ⟨hmissing, rfl⟩ := hends
    exact .last (Machine.effect_finish_conditional_missing _ _ _ _ _ _ _ _ _ hmissing)
  · obtain ⟨hpresent, rfl⟩ := hends
    exact .call (Machine.effect_finish_conditional_present _ _ _ _ _ _ _ _ _ hpresent) (.nil rfl)
  · obtain ⟨_, hends⟩ := hends
    have hends : Ends values branches (.returned value) _ m :=
      Ends.of_deeper [] [outcome] hends
    exact hends.last_ignored rfl

theorem simulated_conditional (hwf : (conditional id condition truePart falsePart).WellFormed)
    (hc : condition.Simulated) (ht : ∀ e ∈ truePart, e.Simulated)
    (hf : ∀ e ∈ falsePart, e.Simulated) :
    (conditional id condition truePart falsePart).Simulated := by
  intro outer values store branches
  obtain ⟨here, hhere⟩ : ∃ here,
    here = outer.within (.expr (conditional id condition truePart falsePart)) := ⟨_, rfl⟩
  have hscopes : outer.scopes = here.scopes := by rw [hhere]; rfl
  have htrue : ∀ e ∈ truePart, (here.within (.expr e)).part? = some .truePart :=
    hhere ▸ part?_truePart hwf outer
  have hfalse : ∀ e ∈ falsePart, (here.within (.expr e)).part? = some .falsePart :=
    hhere ▸ part?_falsePart hwf outer
  have hcondition : (here.within (.expr condition)).part? = some .condition :=
    hhere ▸ part?_condition outer
  have hwft : ∀ e ∈ truePart, e.WellFormed := by
    rintro e rfl
    exact hwf.child (by simp [children])
  have hwff : ∀ e ∈ falsePart, e.WellFormed := by
    rintro e rfl
    exact hwf.child (by simp [children])
  simp only [evaluateDirectly, interior, ← hhere, hscopes]
  have hstart : effect (evaluator.call
      ⟨.start, .expr (conditional id condition truePart falsePart), here⟩)
      { values, store, branches } = (.ok (), { values, store, branches }) := rfl
  refine .call hstart ((hc.condition here values store branches hcondition).bind
    fun ending store' m' hends => ?_)
  cases ending with
  | returned value =>
      have hends : Ends values branches (.returned value) store' m' := hends
      refine .obey (hends.checked_partSteps truePart here) ?_
      exact .obey (hends.checked_partSteps falsePart here) (hends.last_ignored rfl)
  | normal value =>
      obtain rfl := hends
      cases hvalue : value.truthy with
      | true =>
          simp only [hvalue, if_true, pure_bind]
          refine (agrees_part_taken ht (by simp) htrue rfl _ _ _).bind
            fun chosen store'' m'' hends => ?_
          refine .obey (checked_part_after hends hwff (by simp) hfalse (by simp)) ?_
          exact agrees_finish_conditional true chosen hends
      | false =>
          simp only [hvalue, Bool.false_eq_true, if_false]
          refine .obey (checked_part_untaken hwft (by simp) htrue (by simp) _ _ _) ?_
          refine (agrees_part_taken hf (by simp) hfalse rfl _ _ _).bind
            fun chosen store'' m'' hends => ?_
          exact agrees_finish_conditional false chosen hends

end Conditional

theorem agrees_childSteps {es : List Expr} (hne : es ≠ []) (h : ∀ e ∈ es, e.Simulated)
    (inside : Context) (hplain : ∀ e ∈ es, (inside.within (.expr e)).part? = none)
    {index count : Nat} (hcount : index + es.length = count) (values : List Value)
    (store : Store) (branches : List Bool) :
    Agrees (Ends values branches) ((evaluateAll inside.scopes es).run store)
      (effect (evaluator.traverse (childSteps inside index count es))
        { values, store, branches }) := by
  induction es generalizing index store with
  | nil => exact absurd rfl hne
  | cons e rest ih =>
      have he := (h e List.mem_cons_self).steps inside values store branches
        (hplain e List.mem_cons_self)
      cases rest with
      | nil => simpa only [childSteps_last hcount, evaluateAll] using he
      | cons next rest =>
          rw [childSteps_more hcount]
          simp only [evaluateAll]
          refine he.bind fun ending store' m' hends => ?_
          cases ending with
          | normal value =>
              obtain rfl := hends
              refine .call (Machine.effect_discard ..) ?_
              refine ih (by simp) (fun x hx => h x (List.mem_cons_of_mem _ hx))
                (fun x hx => hplain x (List.mem_cons_of_mem _ hx)) ?_ store'
              simp only [List.length_cons] at hcount ⊢
              omega
          | returned value =>
              refine .call (hends.call_ignored rfl) ?_
              exact .obey_last (hends.checked_childSteps ..) hends

theorem simulated_block {id : NodeId} {scope : Scope} {children : List Expr}
    (hne : children ≠ []) (h : ∀ e ∈ children, e.Simulated) :
    (block id scope children).Simulated := by
  intro outer values store branches
  simp only [evaluateDirectly, interior]
  refine .note _ (.call rfl ?_)
  have hchildren := agrees_childSteps hne h
    ((outer.within (.expr (block id scope children))).opening scope) (fun _ _ => rfl)
    (Nat.zero_add _) values store branches
  refine hchildren.followed fun ending store' m' hends => ?_
  exact .call rfl (.note _ (.nil hends))

theorem simulated (e : Expr) (hwf : e.WellFormed) : e.Simulated := by
  induction e with
  | int32 id value => exact simulated_int32 id value
  | float id value => exact simulated_float id value
  | ref id target => exact simulated_ref id target
  | binary id operation left right hl hr =>
      exact simulated_binary (hl (hwf.child (by simp [children])))
        (hr (hwf.child (by simp [children])))
  | assign id target value ih => exact simulated_assign (ih (hwf.child (by simp [children])))
  | ret id value ih => exact simulated_ret (ih (hwf.child (by simp [children])))
  | conditional id condition truePart falsePart hc ht hf =>
      refine simulated_conditional hwf (hc (hwf.child (by simp [children]))) ?_ ?_
      · rintro e rfl
        exact ht e rfl (hwf.child (by simp [children]))
      · rintro e rfl
        exact hf e rfl (hwf.child (by simp [children]))
  | block id scope children ih =>
      refine simulated_block ?_ fun e he => ih e he (hwf.child he)
      rintro rfl
      exact hwf.nonempty id scope (self_mem_preorder _)

end Expr

end TreeLang

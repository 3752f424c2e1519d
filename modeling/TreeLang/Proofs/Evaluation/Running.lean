import TreeLang.Proofs.Evaluation.Suppression

namespace TreeLang.Machine

open TreeLang.Action

-- A machine that is not suppressed, at the calls about an expression: one
-- lemma for each call that has an effect.

variable (values : List Value) (store : Store) (branches : List Bool)

theorem effect_pop (value : Value) (skipUntil : Option NodeId) (returned : Option Value) :
    effect pop ⟨value :: values, store, branches, skipUntil, returned⟩ =
      (.ok value, ⟨values, store, branches, skipUntil, returned⟩) := rfl

theorem effect_unlessSuppressed_running (action : Action Machine Unit) :
    effect (unlessSuppressed action) { values, store, branches } =
      effect action { values, store, branches } := by
  rw [effect_unlessSuppressed]
  rfl

-- Anything that is pushed or fails as a result does.
theorem effect_push_result (result : Except Error Value) (m : Machine) :
    effect (do push (← liftM result)) m =
      match result with
      | .ok value => (.ok (), { m with values := value :: m.values })
      | .error error => (.error error, m) := by
  cases result <;> rfl

theorem effect_visit_ref (id : NodeId) (target : Variable) (here : Context) :
    effect (evaluator.call ⟨.visit, .expr (.ref id target), here⟩) { values, store, branches } =
      match store.find? target.id with
      | some value => (.ok (), { values := value :: values, store, branches })
      | none =>
          match target.type.zero id with
          | .ok value => (.ok (), { values := value :: values, store, branches })
          | .error error => (.error error, { values, store, branches }) := by
  change effect (unlessSuppressed (read id target)) _ = _
  rw [effect_unlessSuppressed_running, read, effect_bind_ok (effect_get _)]
  cases store.find? target.id with
  | some value => rfl
  | none => exact effect_push_result _ _

theorem effect_finish_binary (id : NodeId) (operation : Operation) (left right : Expr)
    (here : Context) (l r : Value) :
    effect (evaluator.call ⟨.finish, .expr (.binary id operation left right), here⟩)
        { values := r :: l :: values, store, branches } =
      match operation.apply l r id with
      | .ok value => (.ok (), { values := value :: values, store, branches })
      | .error error => (.error error, { values, store, branches }) := by
  change effect (unlessSuppressed (finishBinary id operation)) _ = _
  rw [effect_unlessSuppressed_running, finishBinary, effect_bind_ok (effect_pop ..),
    effect_bind_ok (effect_pop ..)]
  exact effect_push_result _ _

theorem effect_finish_assign (id : NodeId) (target : Variable) (e : Expr) (here : Context)
    (value : Value) :
    effect (evaluator.call ⟨.finish, .expr (.assign id target e), here⟩)
        { values := value :: values, store, branches } =
      (.ok (), { values := value :: values, store := store.insert target.id value, branches }) :=
  rfl

theorem effect_finish_ret (id : NodeId) (e : Expr) (here : Context) (value : Value) :
    effect (evaluator.call ⟨.finish, .expr (.ret id e), here⟩)
        { values := value :: values, store, branches } =
      (.ok (), { values, store, branches, returned := some value }) := rfl

theorem effect_discard (e : Expr) (here : Context) (value : Value) :
    effect (evaluator.call ⟨.discard, .expr e, here⟩)
        { values := value :: values, store, branches } = (.ok (), { values, store, branches }) :=
  rfl

section Conditional

variable (id : NodeId) (condition : Expr) (truePart falsePart : Option Expr) (outcome : Bool)
  (here : Context)

theorem effect_finish_conditional_present
    (h : (if outcome then truePart else falsePart) ≠ none) :
    effect (evaluator.call
        ⟨.finish, .expr (.conditional id condition truePart falsePart), here⟩)
        { values, store, branches := outcome :: branches } =
      (.ok (), { values, store, branches }) := by
  change effect (unlessSuppressed (finishConditional id condition truePart falsePart)) _ = _
  rw [effect_unlessSuppressed_running, finishConditional, effect_bind_ok (effect_get _)]
  simp only [effect_bind_ok (effect_set _ _), Option.isNone_iff_eq_none, if_neg h]
  rfl

theorem effect_finish_conditional_missing
    (h : (if outcome then truePart else falsePart) = none) :
    effect (evaluator.call
        ⟨.finish, .expr (.conditional id condition truePart falsePart), here⟩)
        { values, store, branches := outcome :: branches } =
      match (Expr.conditional id condition truePart falsePart).type.zero id with
      | .ok value => (.ok (), { values := value :: values, store, branches })
      | .error error => (.error error, { values, store, branches }) := by
  change effect (unlessSuppressed (finishConditional id condition truePart falsePart)) _ = _
  rw [effect_unlessSuppressed_running, finishConditional, effect_bind_ok (effect_get _)]
  simp only [effect_bind_ok (effect_set _ _), Option.isNone_iff_eq_none, if_pos h]
  exact effect_push_result _ _

end Conditional

section Edges

variable {e : Expr} {here : Context}

theorem effect_enter_plain {node : Node} (h : here.part? = none ∨ here.part? = some .condition) :
    effect (evaluator.call ⟨.enter, node, here⟩) { values, store, branches } =
      (.ok (), { values, store, branches }) := by
  change effect (enter node here) _ = _
  rw [enter, effect_unlessSuppressed_running]
  rcases h with h | h <;> simp [h]

theorem effect_enter_taken {part : Part} {outcome : Bool} (hpart : here.part? = some part)
    (hbranch : part ≠ .condition) (htaken : outcome = decide (part = .truePart)) :
    effect (evaluator.call ⟨.enter, .expr e, here⟩)
        { values, store, branches := outcome :: branches } =
      (.ok (), { values, store, branches := outcome :: branches }) := by
  change effect (enter (.expr e) here) _ = _
  rw [enter, effect_unlessSuppressed_running]
  cases part with
  | condition => exact absurd rfl hbranch
  | truePart => simp [hpart, htaken, effect_bind]
  | falsePart => simp [hpart, htaken, effect_bind]

theorem effect_enter_untaken {part : Part} {outcome : Bool} (hpart : here.part? = some part)
    (hbranch : part ≠ .condition) (huntaken : outcome ≠ decide (part = .truePart)) :
    effect (evaluator.call ⟨.enter, .expr e, here⟩)
        { values, store, branches := outcome :: branches } =
      (.ok (), { values, store, branches := outcome :: branches, skipUntil := some e.id }) := by
  change effect (enter (.expr e) here) _ = _
  rw [enter, effect_unlessSuppressed_running]
  cases part with
  | condition => exact absurd rfl hbranch
  | truePart =>
      obtain rfl : outcome = false := by simpa using huntaken
      simp [hpart, effect_bind]
      rfl
  | falsePart =>
      obtain rfl : outcome = true := by simpa using huntaken
      simp [hpart, effect_bind]
      rfl

theorem effect_leave_plain {node : Node} (h : here.part? ≠ some .condition) :
    effect (evaluator.call ⟨.leave, node, here⟩) { values, store, branches } =
      (.ok (), { values, store, branches }) := by
  change effect (leave node here) _ = _
  rw [effect_leave _ _ _ (by simp), effect_unlessSuppressed_running, if_neg h]
  rfl

theorem effect_leave_condition (h : here.part? = some .condition) (value : Value) :
    effect (evaluator.call ⟨.leave, .expr e, here⟩)
        { values := value :: values, store, branches } =
      (.ok (), { values, store, branches := value.truthy :: branches }) := by
  change effect (leave (.expr e) here) _ = _
  rw [effect_leave _ _ _ (by simp), effect_unlessSuppressed_running, if_pos h]
  rfl

theorem effect_leave_skipped :
    effect (evaluator.call ⟨.leave, .expr e, here⟩)
        { values, store, branches, skipUntil := some e.id } =
      (.ok (), { values, store, branches }) := by
  change effect (leave (.expr e) here) _ = _
  have hskip : some e.id = some (Node.expr e).id := rfl
  rw [leave, effect_bind_ok (effect_get _), if_pos hskip]
  rfl

end Edges

section Results

-- A return takes precedence over what is on the stack.

theorem effect_takeResult_value (value : Value) :
    effect takeResult { values := value :: values, store, branches } =
      (.ok value, { values, store, branches }) := rfl

theorem effect_takeResult_returned (value : Value) :
    effect takeResult { values, store, branches, returned := some value } =
      (.ok value, { values, store, branches }) := rfl

theorem effect_start_function (f : Function) (here : Context) (m : Machine) :
    effect (evaluator.call ⟨.start, .function f, here⟩) m = (.ok (), { store := m.store }) := rfl

theorem effect_finish_function {f : Function} {here : Context} {m m' : Machine} {value : Value}
    (h : effect takeResult m = (.ok value, m')) :
    effect (evaluator.call ⟨.finish, .function f, here⟩) m =
      (.ok (), { m' with values := [value] }) := by
  change effect (finishFunction f) m = _
  rw [finishFunction, effect_bind_ok h]
  rfl

end Results

end TreeLang.Machine

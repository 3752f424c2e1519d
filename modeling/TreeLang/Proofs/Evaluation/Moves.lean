import TreeLang.Proofs.Evaluation.Suppression

namespace TreeLang

open TreeLang.Action

section Stacks

variable {α β : Type}

-- Whether it fails or not, the action does nothing but to the two stacks.
def OnStacks (action : Action Machine α) : Prop :=
  ∀ m, ∃ values branches, (effect action m).2 = { m with values, branches }

namespace OnStacks

theorem pure (a : α) : OnStacks (Pure.pure a : Action Machine α) :=
  fun m => ⟨m.values, m.branches, rfl⟩

theorem get : OnStacks (MonadState.get : Action Machine Machine) :=
  fun m => ⟨m.values, m.branches, rfl⟩

theorem push (value : Value) : OnStacks (Machine.push value) :=
  fun m => ⟨value :: m.values, m.branches, rfl⟩

theorem lift (result : Except Error α) : OnStacks (liftM result : Action Machine α) := by
  intro m
  cases result <;> exact ⟨m.values, m.branches, rfl⟩

theorem bind {first : Action Machine α} {next : α → Action Machine β} (hfirst : OnStacks first)
    (hnext : ∀ a, OnStacks (next a)) : OnStacks (first >>= next) := by
  intro m
  obtain ⟨values, branches, hmoved⟩ := hfirst m
  rcases hrun : effect first m with ⟨error | a, m'⟩
  · rw [effect_bind_error hrun]
    rw [hrun] at hmoved
    exact ⟨values, branches, hmoved⟩
  · rw [hrun] at hmoved
    obtain rfl : m' = { m with values, branches } := hmoved
    rw [effect_bind_ok hrun]
    exact hnext a _

theorem pop : OnStacks Machine.pop := by
  intro m
  rcases m with ⟨_ | ⟨value, rest⟩, store, branches, skipUntil, returned⟩
  · exact ⟨[], branches, rfl⟩
  · exact ⟨rest, branches, rfl⟩

end OnStacks

end Stacks

-- The end of a return and of an assignment, where they have their effect.

def Call.Returns (c : Call) : Prop :=
  c.moment = .finish ∧ ∃ id e, c.node = .expr (.ret id e)

def Call.Assigns (target : VariableId) (c : Call) : Prop :=
  c.moment = .finish ∧ ∃ id v e, c.node = .expr (.assign id v e) ∧ v.id = target

-- All that a call can do to a machine. Apart from moving values and outcomes, it can
-- start or end a suppression, assign, return, and begin or end a function.
inductive Machine.Moves (c : Call) (m : Machine) : Machine → Prop where
  | restacks (values : List Value) (branches : List Bool) : Moves c m { m with values, branches }
  | skips (hrun : m.suppressed = false) : Moves c m { m with skipUntil := some c.node.id }
  | resumes : Moves c m { m with skipUntil := none }
  | assigns {target : VariableId} (hrun : m.suppressed = false) (hassigns : c.Assigns target)
      (value : Value) : Moves c m { m with store := m.store.insert target value }
  | returns (hrun : m.suppressed = false) (hreturns : c.Returns) (values : List Value)
      (value : Value) : Moves c m { m with values, returned := some value }
  | opens (f : Function) (hnode : c.node = .function f) : Moves c m { store := m.store }
  | closes (f : Function) (hnode : c.node = .function f) (values : List Value) :
      Moves c m { m with values, returned := none }

namespace Machine

variable {c : Call}

theorem Moves.of_onStacks {action : Action Machine Unit} (h : OnStacks action) (m : Machine) :
    Moves c m (effect action m).2 := by
  obtain ⟨values, branches, hmoved⟩ := h m
  rw [hmoved]
  exact .restacks values branches

theorem Moves.unmoved (m : Machine) : Moves c m m :=
  .restacks m.values m.branches

theorem Moves.unlessSuppressed {action : Action Machine Unit} {m : Machine}
    (h : m.suppressed = false → Moves c m (effect action m).2) :
    Moves c m (effect (unlessSuppressed action) m).2 := by
  rw [effect_unlessSuppressed]
  split
  · exact .unmoved m
  · next hrun => exact h (Bool.eq_false_iff.mpr hrun)

theorem Moves.unlessSuppressed_onStacks {action : Action Machine Unit} (h : OnStacks action)
    (m : Machine) : Moves c m (effect (Machine.unlessSuppressed action) m).2 :=
  .unlessSuppressed fun _ => .of_onStacks h m

theorem moves_enter (context : Context) (m : Machine) :
    Moves c m (effect (enter c.node context) m).2 := by
  refine .unlessSuppressed fun hrun => ?_
  split
  · exact .unmoved m
  · exact .unmoved m
  · next part _ _ =>
      rw [effect_bind_ok (effect_get m)]
      rcases m with ⟨values, store, _ | ⟨outcome, rest⟩, skipUntil, returned⟩
      · exact .unmoved _
      · dsimp only
        split
        · exact .skips hrun
        · exact .unmoved _

theorem moves_leave (context : Context) (m : Machine) :
    Moves c m (effect (leave c.node context) m).2 := by
  by_cases hskip : m.skipUntil = some c.node.id
  · rw [leave, effect_bind_ok (effect_get m), if_pos hskip]
    exact .resumes
  · rw [effect_leave c.node context m hskip]
    refine .unlessSuppressed_onStacks ?_ m
    split
    · exact .bind .pop fun value m => ⟨m.values, value.truthy :: m.branches, rfl⟩
    · exact .pure ()

theorem moves_finishFunction (f : Function) (hnode : c.node = .function f) (m : Machine) :
    Moves c m (effect (finishFunction f) m).2 := by
  rcases m with ⟨_ | ⟨value, rest⟩, store, branches, skipUntil, _ | given⟩
  · exact .unmoved _
  · exact .closes f hnode [given]
  · exact .closes f hnode [value]
  · exact .closes f hnode [given]

theorem onStacks_read (id : NodeId) (target : Variable) : OnStacks (read id target) := by
  refine .bind .get fun m => ?_
  cases m.store.find? target.id with
  | some value => exact .push value
  | none => exact .bind (.lift _) fun value => .push value

theorem onStacks_finishBinary (id : NodeId) (operation : Operation) :
    OnStacks (finishBinary id operation) :=
  .bind .pop fun _ => .bind .pop fun _ => .bind (.lift _) fun value => .push value

theorem onStacks_finishConditional (id : NodeId) (condition : Expr)
    (truePart falsePart : Option Expr) :
    OnStacks (finishConditional id condition truePart falsePart) := by
  intro m
  rcases m with ⟨values, store, _ | ⟨outcome, rest⟩, skipUntil, returned⟩
  · exact ⟨values, [], rfl⟩
  · rw [finishConditional, effect_bind_ok (effect_get _)]
    simp only [effect_bind_ok (effect_set _ _)]
    generalize (if outcome then truePart else falsePart) = taken
    have hlast : OnStacks (do
        if taken.isNone then
          push (← (Expr.conditional id condition truePart falsePart).type.zero id)) := by
      split
      · exact .bind (.lift _) fun value => .push value
      · exact .pure ()
    exact hlast ⟨values, store, rest, skipUntil, returned⟩

theorem moves_finishAssign {target : Variable} {m : Machine} (hrun : m.suppressed = false)
    (hassigns : c.Assigns target.id) : Moves c m (effect (finishAssign target) m).2 := by
  rcases m with ⟨_ | ⟨value, rest⟩, store, branches, skipUntil, returned⟩
  · exact .unmoved _
  · exact .assigns hrun hassigns value

theorem moves_finishReturn {id : NodeId} {m : Machine} (hrun : m.suppressed = false)
    (hreturns : c.Returns) : Moves c m (effect (finishReturn id) m).2 := by
  rcases m with ⟨_ | ⟨value, rest⟩, store, branches, skipUntil, returned⟩
  · exact .unmoved _
  · exact .returns hrun hreturns rest value

-- What holds of the machine over a walk is shown by these cases alone.
theorem call_moves (c : Call) (m : Machine) : Moves c m (effect (evaluator.call c) m).2 := by
  rcases c with ⟨moment, node, context⟩
  cases moment with
  | enter => exact moves_enter (c := ⟨.enter, node, context⟩) context m
  | leave => exact moves_leave (c := ⟨.leave, node, context⟩) context m
  | discard => exact .unlessSuppressed_onStacks (.bind .pop fun _ => .pure _) m
  | start =>
      cases node with
      | function f => exact .opens f rfl
      | expr e => cases e <;> exact .unmoved m
      | module mod => exact .unmoved m
  | visit =>
      cases node with
      | function f => exact .unmoved m
      | module mod => exact .unmoved m
      | expr e =>
          cases e with
          | int32 id value => exact .unlessSuppressed_onStacks (.push _) m
          | float id value => exact .unlessSuppressed_onStacks (.push _) m
          | ref id target => exact .unlessSuppressed_onStacks (onStacks_read id target) m
          | _ => exact .unmoved m
  | finish =>
      cases node with
      | function f => exact moves_finishFunction f rfl m
      | module mod => exact .unmoved m
      | expr e =>
          cases e with
          | binary id operation left right =>
              exact .unlessSuppressed_onStacks (onStacks_finishBinary id operation) m
          | assign id target value =>
              exact .unlessSuppressed fun hrun => moves_finishAssign hrun
                ⟨rfl, id, target, value, rfl, rfl⟩
          | ret id value =>
              exact .unlessSuppressed fun hrun => moves_finishReturn hrun ⟨rfl, id, value, rfl⟩
          | conditional id condition truePart falsePart =>
              exact .unlessSuppressed_onStacks
                (onStacks_finishConditional id condition truePart falsePart) m
          | _ => exact .unmoved m

theorem suppressed_eq_false_iff {m : Machine} :
    m.suppressed = false ↔ m.skipUntil = none ∧ m.returned = none := by
  simp [suppressed]

-- What every call of a walk keeps, the walk keeps, also where it fails.
theorem traverse_keeps {I : Machine → Prop} {steps : List Step}
    (hcall : ∀ c, .call c ∈ steps → ∀ m m', Moves c m m' → I m → I m') {m : Machine} (h : I m) :
    I (effect (evaluator.traverse steps) m).2 := by
  induction steps generalizing m with
  | nil => exact h
  | cons step rest ih =>
      have hrest := fun {m} => ih (m := m) fun c hc => hcall c (List.mem_cons_of_mem _ hc)
      cases step with
      | note entry => exact hrest h
      | fail error => exact h
      | call c =>
          have hnext := hcall c List.mem_cons_self m _ (call_moves c m) h
          rcases hrun : effect (evaluator.call c) m with ⟨error | _, m'⟩
          · rw [Visitor.effect_traverse_call_error hrun]
            rwa [hrun] at hnext
          · rw [Visitor.effect_traverse_call_ok hrun]
            rw [hrun] at hnext
            exact hrest hnext

end Machine

-- A call of this kind is made, and to a machine that is not suppressed.
def Executes (P : Call → Prop) (steps : List Step) (m : Machine) : Prop :=
  ∃ before c after m', steps = before ++ .call c :: after ∧
    effect (evaluator.traverse before) m = (.ok (), m') ∧ m'.suppressed = false ∧ P c

namespace Executes

variable {P : Call → Prop} {step : Step} {rest : List Step} {c : Call} {m m' : Machine}

theorem first (hrun : m.suppressed = false) (hc : P c) : Executes P (.call c :: rest) m :=
  ⟨[], c, rest, m, rfl, rfl, hrun, hc⟩

theorem later (hstep : effect (evaluator.traverse [step]) m = (.ok (), m'))
    (h : Executes P rest m') : Executes P (step :: rest) m := by
  obtain ⟨before, c, after, m'', hsplit, hbefore, hrun, hc⟩ := h
  refine ⟨step :: before, c, after, m'', by rw [hsplit, List.cons_append], ?_, hrun, hc⟩
  rw [← List.singleton_append, Visitor.effect_traverse_append_ok hstep, hbefore]

end Executes

namespace Machine

-- What all calls but those of one kind keep is kept unless one of them is executed.
theorem kept_of_not_executes {I : Machine → Prop} {P : Call → Prop} {steps : List Step}
    (hcall : ∀ c, .call c ∈ steps → ∀ m m', Moves c m m' →
      ¬ (m.suppressed = false ∧ P c) → I m → I m')
    {m m' : Machine} (hrun : effect (evaluator.traverse steps) m = (.ok (), m'))
    (hnot : ¬ Executes P steps m) (h : I m) : I m' := by
  induction steps generalizing m with
  | nil =>
      cases hrun
      exact h
  | cons step rest ih =>
      have hrest := fun {m} => ih (m := m) fun c hc => hcall c (List.mem_cons_of_mem _ hc)
      cases step with
      | note entry => exact hrest hrun (fun hexecutes => hnot (.later rfl hexecutes)) h
      | fail error => cases hrun
      | call c =>
          rcases hc : effect (evaluator.call c) m with ⟨error | _, next⟩
          · rw [Visitor.effect_traverse_call_error hc] at hrun
            cases hrun
          · rw [Visitor.effect_traverse_call_ok hc] at hrun
            have hmoves := call_moves c m
            rw [hc] at hmoves
            have hnext : I next :=
              hcall c List.mem_cons_self m next hmoves (fun ⟨hm, hP⟩ => hnot (.first hm hP)) h
            have hlater : ¬ Executes P rest next := fun hexecutes =>
              hnot (.later (Visitor.effect_traverse_call_ok hc []) hexecutes)
            exact hrest hrun hlater hnext

-- A walk that succeeds got past each of its calls.
theorem effect_call_of_split {before after : List Step} {c : Call} {m m₁ m' : Machine}
    (hrun : effect (evaluator.traverse (before ++ .call c :: after)) m = (.ok (), m'))
    (hbefore : effect (evaluator.traverse before) m = (.ok (), m₁)) :
    ∃ m₂, effect (evaluator.call c) m₁ = (.ok (), m₂) ∧
      effect (evaluator.traverse after) m₂ = (.ok (), m') := by
  rw [Visitor.effect_traverse_append_ok hbefore] at hrun
  rcases hc : effect (evaluator.call c) m₁ with ⟨error | _, m₂⟩
  · rw [Visitor.effect_traverse_call_error hc] at hrun
    cases hrun
  · rw [Visitor.effect_traverse_call_ok hc] at hrun
    exact ⟨m₂, rfl, hrun⟩

-- What only the calls of one kind bring about, and no call undoes, is so after a walk
-- just if one of them was executed.
theorem brought_about_iff_executes {I : Machine → Prop} {P : Call → Prop} {steps : List Step}
    (hkept : ∀ c, .call c ∈ steps → ∀ m m', Moves c m m' →
      ¬ (m.suppressed = false ∧ P c) → ¬ I m → ¬ I m')
    (hstays : ∀ c, .call c ∈ steps → ∀ m m', Moves c m m' → I m → I m')
    (hdone : ∀ c m m', P c → m.suppressed = false →
      effect (evaluator.call c) m = (.ok (), m') → I m')
    {m m' : Machine} (hrun : effect (evaluator.traverse steps) m = (.ok (), m'))
    (h : ¬ I m) : I m' ↔ Executes P steps m := by
  constructor
  · intro hI
    apply Classical.byContradiction
    intro hnot
    exact kept_of_not_executes hkept hrun hnot h hI
  · rintro ⟨before, c, after, m₁, rfl, hbefore, hm₁, hP⟩
    obtain ⟨m₂, hcall, hafter⟩ := effect_call_of_split hrun hbefore
    have hlast := traverse_keeps (fun d (hd : .call d ∈ after) => hstays d (by simp [hd]))
      (hdone c m₁ m₂ hP hm₁ hcall)
    rwa [hafter] at hlast

end Machine

end TreeLang

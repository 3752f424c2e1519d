import TreeLang.Evaluation.Machine
import TreeLang.Proofs.Static.TypeChecking
import TreeLang.Walk.Recorder

namespace TreeLang

-- One signal of a walk and what the visitor answered.
structure Exchange where
  signal : Signal
  answer : Except Error Unit

-- The state of a visitor and the exchanges it has had, in order.
structure Audit (σ : Type) where
  state : σ
  exchanges : List Exchange := []

variable {σ τ : Type}

def Audit.hear (signal : Signal) (action : Action σ Unit) : Action (Audit σ) Unit :=
  ExceptT.mk fun audit => do
    let (answer, state) ← action.run.run audit.state
    return (answer, { state, exchanges := audit.exchanges ++ [⟨signal, answer⟩] })

-- The same visitor, with a list of its exchanges.
def Visitor.audited (visitor : Visitor σ) : Visitor (Audit σ) where
  setUp := Audit.hear .setUp visitor.setUp
  call c := Audit.hear (.call c) (visitor.call c)
  cleanUp := Audit.hear .cleanUp visitor.cleanUp

def granted (calls : List Call) : List Exchange :=
  calls.map fun c => ⟨.call c, .ok ()⟩

-- What is exchanged about the nodes of a tree, and the result: a visitor is
-- called as far as it agrees, and the first call it refuses is the last one.
inductive Attended (calls : List Call) (fault : Option Error) :
    List Exchange → Except Error Unit → Prop where
  | throughout : Attended calls fault (granted calls) (verdict fault)
  | refused (before : List Call) (call : Call) (after : List Call) (error : Error)
      (split : calls = before ++ call :: after) :
      Attended calls fault (granted before ++ [⟨.call call, .error error⟩]) (.error error)

-- The same for a whole walk, which sets up first, cleans up last, and does each
-- of the two once. The answer to the cleaning up counts only in the absence of
-- another error.
inductive AttendedWalk (calls : List Call) (fault : Option Error) :
    List Exchange → Except Error Unit → Prop where
  | unprepared (error : Error) (last : Except Error Unit) :
      AttendedWalk calls fault [⟨.setUp, .error error⟩, ⟨.cleanUp, last⟩] (.error error)
  | prepared {exchanges : List Exchange} {traversed : Except Error Unit}
      (attended : Attended calls fault exchanges traversed) (last : Except Error Unit) :
      AttendedWalk calls fault (⟨.setUp, .ok ()⟩ :: exchanges ++ [⟨.cleanUp, last⟩])
        (traversed *> last)

theorem call_mem_of_mem_granted {calls : List Call} {c : Call} {answer : Except Error Unit}
    (h : ⟨.call c, answer⟩ ∈ granted calls) : c ∈ calls := by
  obtain ⟨called, hcalled, heq⟩ := List.mem_map.mp h
  cases heq
  exact hcalled

theorem AttendedWalk.call_mem {calls : List Call} {fault : Option Error}
    {exchanges : List Exchange} {result answer : Except Error Unit} {c : Call}
    (h : AttendedWalk calls fault exchanges result) (hc : ⟨.call c, answer⟩ ∈ exchanges) :
    c ∈ calls := by
  cases h with
  | unprepared error last => simp at hc
  | @prepared exchanges traversed hattended last =>
      have hc : ⟨.call c, answer⟩ ∈ exchanges := by simpa using hc
      cases hattended with
      | throughout => exact call_mem_of_mem_granted hc
      | refused before call after error split =>
          rw [split, List.mem_append]
          rcases List.mem_append.mp hc with hc | hc
          · exact .inl (call_mem_of_mem_granted hc)
          · cases List.mem_singleton.mp hc
            exact .inr List.mem_cons_self

namespace Visitor

open TreeLang.Action

variable (visitor : Visitor σ) (s : σ) (earlier : List Exchange)

theorem effect_audited_setUp :
    effect visitor.audited.setUp ⟨s, earlier⟩ =
      ((effect visitor.setUp s).1,
        ⟨(effect visitor.setUp s).2, earlier ++ [⟨.setUp, (effect visitor.setUp s).1⟩]⟩) := rfl

theorem effect_audited_call (c : Call) :
    effect (visitor.audited.call c) ⟨s, earlier⟩ =
      ((effect (visitor.call c) s).1,
        ⟨(effect (visitor.call c) s).2, earlier ++ [⟨.call c, (effect (visitor.call c) s).1⟩]⟩) :=
  rfl

theorem effect_audited_cleanUp :
    effect visitor.audited.cleanUp ⟨s, earlier⟩ =
      ((effect visitor.cleanUp s).1,
        ⟨(effect visitor.cleanUp s).2, earlier ++ [⟨.cleanUp, (effect visitor.cleanUp s).1⟩]⟩) :=
  rfl

-- Being audited changes neither what a visitor answers nor its state.
theorem audited_traverse_attended (steps : List Step) :
    ∃ exchanges,
      effect (visitor.audited.traverse steps) ⟨s, earlier⟩ =
        ((effect (visitor.traverse steps) s).1,
          ⟨(effect (visitor.traverse steps) s).2, earlier ++ exchanges⟩) ∧
      Attended (Step.calls steps) (Step.fault? steps) exchanges
        (effect (visitor.traverse steps) s).1 := by
  induction steps generalizing s earlier with
  | nil => exact ⟨[], by simp, .throughout⟩
  | cons step rest ih =>
      cases step with
      | note entry => exact ih s earlier
      | fail error => exact ⟨[], by simp, .throughout⟩
      | call c =>
          have heard := effect_audited_call visitor s earlier c
          rcases answered : effect (visitor.call c) s with ⟨answer, t⟩
          rw [answered] at heard
          cases answer with
          | error error =>
              rw [effect_traverse_call_error answered,
                effect_traverse_call_error heard]
              exact ⟨_, rfl, .refused [] c _ error rfl⟩
          | ok value =>
              rw [effect_traverse_call_ok answered,
                effect_traverse_call_ok heard]
              obtain ⟨exchanges, hrun, hattended⟩ := ih t (earlier ++ [⟨.call c, .ok ()⟩])
              refine ⟨⟨.call c, .ok ()⟩ :: exchanges, by simp [hrun], ?_⟩
              generalize (effect (visitor.traverse rest) t).1 = result at hattended ⊢
              cases hattended with
              | throughout => exact .throughout
              | refused before call after error split =>
                  have hsplit : Step.calls (.call c :: rest) = c :: before ++ call :: after := by
                    simp [Step.calls, split]
                  exact .refused _ _ _ error hsplit

theorem audited_traverse_of_neverFails {visitor : Visitor σ} (h : visitor.NeverFails)
    (steps : List Step) (s : σ) (earlier : List Exchange) :
    ∃ t, effect (visitor.audited.traverse steps) ⟨s, earlier⟩ =
      (verdict (Step.fault? steps), ⟨t, earlier ++ granted (Step.calls steps)⟩) := by
  induction steps generalizing s earlier with
  | nil => exact ⟨s, by simp [granted, Step.calls, Step.fault?, verdict]⟩
  | cons step rest ih =>
      cases step with
      | note entry => exact ih s earlier
      | fail error => exact ⟨s, by simp [granted, Step.calls, Step.fault?, verdict]⟩
      | call c =>
          have heard := effect_audited_call visitor s earlier c
          rw [h.call c s] at heard
          rw [effect_traverse_call_ok heard]
          obtain ⟨t, ht⟩ := ih (effect (visitor.call c) s).2 (earlier ++ [⟨.call c, .ok ()⟩])
          exact ⟨t, by simp [ht, granted, Step.calls, Step.fault?]⟩

theorem audited_walk_attended (root : Node) :
    ∃ exchanges,
      effect (walk visitor.audited root) ⟨s, []⟩ =
        ((effect (walk visitor root) s).1, ⟨(effect (walk visitor root) s).2, exchanges⟩) ∧
      AttendedWalk root.calls root.fault? exchanges (effect (walk visitor root) s).1 := by
  have heard := effect_audited_setUp visitor s []
  rcases answered : effect visitor.setUp s with ⟨answer, t⟩
  rw [answered] at heard
  simp only [effect_walk]
  cases answer with
  | error error =>
      rw [effect_bind_error answered, effect_bind_error heard]
      refine ⟨_, rfl, ?_⟩
      exact .unprepared error (effect visitor.cleanUp t).1
  | ok value =>
      rw [effect_bind_ok answered, effect_bind_ok heard]
      obtain ⟨exchanges, hrun, hattended⟩ := audited_traverse_attended visitor t
        [⟨.setUp, .ok ()⟩] root.steps
      simp only [List.nil_append, hrun]
      exact ⟨_, rfl, .prepared hattended (effect visitor.cleanUp _).1⟩

theorem audited_walk_of_neverFails {visitor : Visitor σ} (h : visitor.NeverFails) (root : Node)
    (s : σ) :
    ∃ t, effect (walk visitor.audited root) ⟨s, []⟩ =
      (verdict root.fault?,
        ⟨t, ⟨.setUp, .ok ()⟩ :: granted root.calls ++ [⟨.cleanUp, .ok ()⟩]⟩) := by
  have heard := effect_audited_setUp visitor s []
  rw [h.setUp s] at heard
  simp only [effect_walk]
  rw [effect_bind_ok heard]
  obtain ⟨t, ht⟩ := audited_traverse_of_neverFails h root.steps
    (effect visitor.setUp s).2 [⟨.setUp, .ok ()⟩]
  simp only [List.nil_append, ht]
  refine ⟨(effect visitor.cleanUp t).2, ?_⟩
  rw [effect_audited_cleanUp, h.cleanUp t]
  cases hfault : Step.fault? root.steps <;> simp [Node.fault?, Node.calls, hfault, verdict] <;> rfl

end Visitor

-- The calls of a walk do not depend on the visitor. One that never fails has
-- all of them, any other has them up to the first it refuses; and the first
-- error of all, be it of the visitor or of the tree, is the result.
theorem walk_attended (root : Node) {tolerant : Visitor τ} (h : tolerant.NeverFails) (t : τ)
    (visitor : Visitor σ) (s : σ) :
    (∃ u, Action.effect (walk tolerant.audited root) ⟨t, []⟩ =
      (verdict root.fault?,
        ⟨u, ⟨.setUp, .ok ()⟩ :: granted root.calls ++ [⟨.cleanUp, .ok ()⟩]⟩)) ∧
    ∃ exchanges,
      Action.effect (walk visitor.audited root) ⟨s, []⟩ =
        ((Action.effect (walk visitor root) s).1,
          ⟨(Action.effect (walk visitor root) s).2, exchanges⟩) ∧
      AttendedWalk root.calls root.fault? exchanges (Action.effect (walk visitor root) s).1 :=
  ⟨Visitor.audited_walk_of_neverFails h root t, Visitor.audited_walk_attended visitor s root⟩

-- The evaluator refuses the quotient of 1 by 0 once it has seen the operands,
-- which the checker accepts.
theorem walk_attended_quotient :
    let root : Node := .expr (.binary ⟨3⟩ .div (.int32 ⟨1⟩ 1) (.int32 ⟨2⟩ 0))
    typeChecker.NeverFails ∧ ∃ exchanges,
      (Action.effect (walk evaluator.audited root) ⟨{}, []⟩).2.exchanges = exchanges ∧
      AttendedWalk root.calls root.fault? exchanges
        (.error { cause := .divisionByZero, node := some ⟨3⟩ }) := by
  obtain ⟨_, exchanges, hrun, hattended⟩ :=
    walk_attended (.expr (.binary ⟨3⟩ .div (.int32 ⟨1⟩ 1) (.int32 ⟨2⟩ 0)))
      typeChecker_neverFails 0 evaluator {}
  exact ⟨typeChecker_neverFails, exchanges, congrArg (·.2.exchanges) hrun, hattended⟩

end TreeLang

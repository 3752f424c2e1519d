import TreeLang.Proofs.Evaluation.Composition
import TreeLang.Proofs.Evaluation.Refinement

namespace TreeLang

open TreeLang.Action

-- The error of a machine whose stacks do not fit the tree.
def Error.Internal (error : Error) : Prop :=
  ∃ message, error.cause = .invalidState message

-- The words in which a machine says so.
def Error.Stuck (error : Error) : Prop :=
  error.cause = .invalidState "value stack is empty" ∨
    error.cause = .invalidState "branch visited before its condition" ∨
    error.cause = .invalidState "conditional has no evaluated condition"

-- What operations on values, and types without a zero, fail with.
def Error.OfRun (error : Error) : Prop :=
  error.cause = .divisionByZero ∨ (∃ case, error.cause = .unhandledCase case) ∨
    ∃ left right, error.cause = .operandMismatch left right

-- The errors of evaluation proper: an operation that cannot be carried out, and a
-- value that is missing where the type has no zero.
inductive Expr.Raises : Expr → Error → Prop where
  | operation {id : NodeId} {operation : Operation} {left right : Expr} {l r : Value}
      {error : Error} (h : operation.apply l r id = .error error) :
      Raises (.binary id operation left right) error
  | read {id : NodeId} {target : Variable} {error : Error}
      (h : target.type.zero id = .error error) : Raises (.ref id target) error
  | missing {id : NodeId} {condition : Expr} {truePart falsePart : Option Expr} {error : Error}
      (h : (conditional id condition truePart falsePart).type.zero id = .error error) :
      Raises (.conditional id condition truePart falsePart) error

-- The ways an operation fails; the node is to blame in each.
theorem Operation.apply_error {operation : Operation} {l r : Value} {id : NodeId} {error : Error}
    (h : operation.apply l r id = .error error) :
    error = { cause := .divisionByZero, node := some id } ∨
      error = { cause := .unhandledCase s!"{operation.text} on {l.type.text}", node := some id } ∨
      error = { cause := .operandMismatch l.type r.type, node := some id } := by
  unfold apply at h
  split at h
  · split at h
    · cases h
      exact .inl rfl
    · cases h
  · cases h
  · cases h
  · split at h
    · cases h
      exact .inr (.inl rfl)
    · cases h
      exact .inr (.inr rfl)

theorem DataType.zero_error {type : DataType} {id : NodeId} {error : Error}
    (h : type.zero id = .error error) :
    error = { cause := .unhandledCase type.text, node := some id } := by
  unfold zero at h
  split at h
  · cases h
  · cases h
    rfl

namespace Expr.Raises

variable {e : Expr} {error : Error}

theorem node_cause (h : e.Raises error) : error.node = some e.id ∧ error.OfRun := by
  cases h with
  | operation h =>
      rcases Operation.apply_error h with rfl | rfl | rfl
      · exact ⟨rfl, .inl rfl⟩
      · exact ⟨rfl, .inr (.inl ⟨_, rfl⟩)⟩
      · exact ⟨rfl, .inr (.inr ⟨_, _, rfl⟩)⟩
  | read h =>
      obtain rfl := DataType.zero_error h
      exact ⟨rfl, .inr (.inl ⟨_, rfl⟩)⟩
  | missing h =>
      obtain rfl := DataType.zero_error h
      exact ⟨rfl, .inr (.inl ⟨_, rfl⟩)⟩

theorem not_internal (h : e.Raises error) : ¬ error.Internal := by
  rintro ⟨message, hinternal⟩
  obtain ⟨-, hcause⟩ := h.node_cause
  simp [Error.OfRun, hinternal] at hcause

end Expr.Raises

theorem Site.Violates.not_internal {site : Site} {error : Error} (h : site.Violates error) :
    ¬ error.Internal := by
  rintro ⟨message, hinternal⟩
  cases h <;> cases hinternal

-- The errors there is a reason for within `root`: a site that is not lawful, or an
-- expression that raises them.
def Expr.Explains (root : Expr) (error : Error) : Prop :=
  (∃ site : Site, site.Violates error) ∨ ∃ e ∈ root.preorder, e.Raises error

theorem Expr.Explains.not_internal {root : Expr} {error : Error} (h : root.Explains error) :
    ¬ error.Internal := by
  rcases h with ⟨site, hsite⟩ | ⟨e, _, hraises⟩
  · exact hsite.not_internal
  · exact hraises.not_internal

-- A direct evaluation fails with errors of one kind only.
def FailsDirectly (R : Error → Prop) {α : Type} (direct : Direct α) : Prop :=
  ∀ s error, direct.run s = .error error → R error

namespace FailsDirectly

variable {α β : Type} {R : Error → Prop}

theorem pure (a : α) : FailsDirectly R (Pure.pure a : Direct α) := by
  intro s error h
  cases h

theorem bind {first : Direct α} {next : α → Direct β} (hfirst : FailsDirectly R first)
    (hnext : ∀ a, FailsDirectly R (next a)) : FailsDirectly R (first >>= next) := by
  intro s error h
  rw [StateT.run_bind] at h
  cases hrun : first.run s with
  | error raised =>
      rw [hrun] at h
      cases h
      exact hfirst s _ hrun
  | ok outcome =>
      rw [hrun] at h
      exact hnext _ _ _ h

theorem lift {result : Except Error α} (h : ∀ error, result = .error error → R error) :
    FailsDirectly R (liftM result : Direct α) := by
  intro s error hrun
  cases result with
  | error raised =>
      cases hrun
      exact h _ rfl
  | ok a => cases hrun

theorem obey {fault : Option Error} (h : ∀ error ∈ fault, R error) :
    FailsDirectly R (TreeLang.obey fault) := by
  intro s error hrun
  cases fault with
  | none => cases hrun
  | some raised =>
      cases hrun
      exact h _ rfl

theorem read {id : NodeId} {target : Variable}
    (h : ∀ error, target.type.zero id = .error error → R error) :
    FailsDirectly R (Expr.readDirectly id target) := by
  intro s error hrun
  simp only [Expr.readDirectly, StateT.run_bind, StateT.run_get, pure_bind] at hrun
  cases hfind : s.find? target.id with
  | some stored =>
      rw [hfind] at hrun
      cases hrun
  | none =>
      rw [hfind] at hrun
      exact lift h s error hrun

theorem mono {R' : Error → Prop} {direct : Direct α} (h : FailsDirectly R direct)
    (himp : ∀ error, R error → R' error) : FailsDirectly R' direct :=
  fun s error hrun => himp error (h s error hrun)

theorem run' {direct : Direct α} (h : FailsDirectly R direct) {s : Store} {error : Error}
    (hrun : direct.run' s = .error error) : R error := by
  rw [StateT.run'_eq] at hrun
  cases hdirect : direct.run s with
  | error raised =>
      rw [hdirect] at hrun
      cases hrun
      exact h s _ hdirect
  | ok outcome =>
      rw [hdirect] at hrun
      cases hrun

end FailsDirectly

theorem Expr.explains_composes (root : Expr) : Composes root (FailsDirectly root.Explains) where
  pure := .pure
  bind := .bind
  obey h := .obey fun error herror => .inl (h error herror)
  read he := .read fun _ h => .inr ⟨_, he, .read h⟩
  apply he _ _ := .lift fun _ h => .inr ⟨_, he, .operation h⟩
  insert _ _ := by
    intro s error h
    cases h
  zero he := .lift fun _ h => .inr ⟨_, he, .missing h⟩

theorem Expr.evaluateDirectly_explained (e : Expr) (scopes : List Scope) :
    FailsDirectly e.Explains (e.evaluateDirectly scopes) :=
  e.explains_composes.evaluateDirectly e e.self_mem_preorder scopes

-- The actions of a machine fail with errors of one kind.
def FailsWith (R : Error → Prop) {α : Type} (action : Action Machine α) : Prop :=
  ∀ m error m', effect action m = (.error error, m') → R error

namespace FailsWith

variable {α β : Type} {R : Error → Prop}

theorem of_succeeds {action : Action Machine α} (h : ∀ m, ∃ a m', effect action m = (.ok a, m')) :
    FailsWith R action := by
  intro m error m' hrun
  obtain ⟨a, m'', hok⟩ := h m
  rw [hok] at hrun
  cases hrun

theorem bind {first : Action Machine α} {next : α → Action Machine β} (hfirst : FailsWith R first)
    (hnext : ∀ a, FailsWith R (next a)) : FailsWith R (first >>= next) := by
  intro m error m' h
  rw [effect_bind] at h
  rcases hrun : effect first m with ⟨raised | a, m''⟩
  · rw [hrun] at h
    cases h
    exact hfirst m _ _ hrun
  · rw [hrun] at h
    exact hnext a _ _ _ h

theorem lift {result : Except Error α} (h : ∀ error, result = .error error → R error) :
    FailsWith R (liftM result : Action Machine α) := by
  intro m error m' hrun
  cases result with
  | error raised =>
      cases hrun
      exact h _ rfl
  | ok a => cases hrun

theorem throw {error : Error} (h : R error) :
    FailsWith R (MonadExcept.throw error : Action Machine α) := by
  intro m raised m' hrun
  cases hrun
  exact h

theorem unlessSuppressed {action : Action Machine Unit} (h : FailsWith R action) :
    FailsWith R (Machine.unlessSuppressed action) := by
  intro m error m' hrun
  rw [Machine.effect_unlessSuppressed] at hrun
  split at hrun
  · cases hrun
  · exact h m error m' hrun

theorem mono {R' : Error → Prop} {action : Action Machine α} (h : FailsWith R action)
    (himp : ∀ error, R error → R' error) : FailsWith R' action :=
  fun m error m' hrun => himp error (h m error m' hrun)

end FailsWith

namespace Machine

theorem pop_failsWith : FailsWith Error.Stuck pop := by
  rintro ⟨_ | ⟨value, rest⟩, store, branches, skipUntil, returned⟩ error m' h
  · cases h
    exact .inl rfl
  · cases h

theorem takeResult_stuck : FailsWith Error.Stuck takeResult := by
  intro m error m' h
  rcases hreturned : m.returned with _ | value
  · rw [takeResult, effect_bind_ok (effect_get m), hreturned] at h
    exact pop_failsWith m error m' h
  · rw [takeResult, effect_bind_ok (effect_get m), hreturned] at h
    cases h

theorem enter_failsWith (node : Node) (context : Context) :
    FailsWith Error.Stuck (enter node context) := by
  refine .unlessSuppressed ?_
  split
  · exact .of_succeeds fun _ => ⟨_, _, rfl⟩
  · exact .of_succeeds fun _ => ⟨_, _, rfl⟩
  · refine .bind (.of_succeeds fun _ => ⟨_, _, rfl⟩) fun m => ?_
    cases m.branches with
    | nil => exact .throw (.inr (.inl rfl))
    | cons outcome rest =>
        dsimp only
        split
        · exact .of_succeeds fun _ => ⟨_, _, rfl⟩
        · exact .of_succeeds fun _ => ⟨_, _, rfl⟩

theorem leave_failsWith (node : Node) (context : Context) :
    FailsWith Error.Stuck (leave node context) := by
  intro m error m' h
  by_cases hskip : m.skipUntil = some node.id
  · rw [leave, effect_bind_ok (effect_get m), if_pos hskip] at h
    cases h
  · rw [effect_leave node context m hskip] at h
    refine FailsWith.unlessSuppressed ?_ m error m' h
    split
    · exact .bind pop_failsWith fun _ => .of_succeeds fun _ => ⟨_, _, rfl⟩
    · exact .of_succeeds fun _ => ⟨_, _, rfl⟩

theorem finishFunction_failsWith (f : Function) : FailsWith Error.Stuck (finishFunction f) :=
  .bind takeResult_stuck fun _ => .of_succeeds fun _ => ⟨_, _, rfl⟩

theorem read_failsWith (id : NodeId) (target : Variable) :
    FailsWith (Expr.ref id target).Raises (read id target) := by
  refine .bind (.of_succeeds fun _ => ⟨_, _, rfl⟩) fun m => ?_
  cases m.store.find? target.id with
  | some value => exact .of_succeeds fun _ => ⟨_, _, rfl⟩
  | none => exact .bind (.lift fun _ => .read) fun _ => .of_succeeds fun _ => ⟨_, _, rfl⟩

theorem finishBinary_failsWith (id : NodeId) (operation : Operation) (left right : Expr) :
    FailsWith (fun error => (Expr.binary id operation left right).Raises error ∨ error.Stuck)
      (finishBinary id operation) := by
  refine .bind (pop_failsWith.mono fun _ => .inr) fun r => ?_
  refine .bind (pop_failsWith.mono fun _ => .inr) fun l => ?_
  exact .bind (.lift fun _ h => .inl (.operation h)) fun _ => .of_succeeds fun _ => ⟨_, _, rfl⟩

theorem finishAssign_failsWith (target : Variable) :
    FailsWith Error.Stuck (finishAssign target) :=
  .bind pop_failsWith fun _ => .of_succeeds fun _ => ⟨_, _, rfl⟩

theorem finishReturn_failsWith (id : NodeId) : FailsWith Error.Stuck (finishReturn id) :=
  .bind pop_failsWith fun _ => .of_succeeds fun _ => ⟨_, _, rfl⟩

theorem finishConditional_failsWith (id : NodeId) (condition : Expr)
    (truePart falsePart : Option Expr) :
    FailsWith (fun error =>
        (Expr.conditional id condition truePart falsePart).Raises error ∨ error.Stuck)
      (finishConditional id condition truePart falsePart) := by
  refine .bind (.of_succeeds fun _ => ⟨_, _, rfl⟩) fun m => ?_
  cases m.branches with
  | nil => exact .throw (.inr (.inr (.inr rfl)))
  | cons outcome rest =>
      refine .bind (.of_succeeds fun _ => ⟨_, _, rfl⟩) fun _ => ?_
      generalize (if outcome then truePart else falsePart) = taken
      cases taken with
      | none =>
          refine .bind (.lift fun _ h => .inl (.missing h)) fun _ => ?_
          exact .of_succeeds fun _ => ⟨_, _, rfl⟩
      | some e => exact .of_succeeds fun _ => ⟨_, _, rfl⟩

-- The evaluator itself refuses a call for what the expression raises, or because
-- its stacks do not fit the tree.
theorem evaluator_raises_or_stuck (c : Call) :
    FailsWith (fun error => (∃ e, c.node = .expr e ∧ e.Raises error) ∨ error.Stuck)
      (evaluator.call c) := by
  rcases c with ⟨moment, node, context⟩
  have hnothing : ∀ {R : Error → Prop}, FailsWith R (pure () : Action Machine Unit) :=
    .of_succeeds fun _ => ⟨_, _, rfl⟩
  have hstuck : ∀ {action : Action Machine Unit}, FailsWith Error.Stuck action →
      FailsWith (fun error => (∃ e, node = .expr e ∧ e.Raises error) ∨ error.Stuck) action :=
    fun h => h.mono fun _ => .inr
  cases moment with
  | enter => exact hstuck (enter_failsWith node context)
  | leave => exact hstuck (leave_failsWith node context)
  | discard =>
      refine hstuck (.unlessSuppressed ?_)
      exact .bind pop_failsWith fun _ => .of_succeeds fun _ => ⟨_, _, rfl⟩
  | start => cases node <;> exact .of_succeeds fun _ => ⟨_, _, rfl⟩
  | visit =>
      cases node with
      | function f => exact hnothing
      | module mod => exact hnothing
      | expr e =>
          cases e with
          | int32 id value => exact .unlessSuppressed (.of_succeeds fun _ => ⟨_, _, rfl⟩)
          | float id value => exact .unlessSuppressed (.of_succeeds fun _ => ⟨_, _, rfl⟩)
          | ref id target =>
              exact .unlessSuppressed
                ((read_failsWith id target).mono fun _ h => .inl ⟨_, rfl, h⟩)
          | _ => exact hnothing
  | finish =>
      cases node with
      | function f => exact hstuck (finishFunction_failsWith f)
      | module mod => exact hnothing
      | expr e =>
          cases e with
          | binary id operation left right =>
              refine .unlessSuppressed ((finishBinary_failsWith id operation left right).mono ?_)
              exact fun _ => .imp_left fun h => ⟨_, rfl, h⟩
          | assign id target value =>
              exact hstuck (.unlessSuppressed (finishAssign_failsWith target))
          | ret id value => exact hstuck (.unlessSuppressed (finishReturn_failsWith id))
          | conditional id condition truePart falsePart =>
              refine .unlessSuppressed
                ((finishConditional_failsWith id condition truePart falsePart).mono ?_)
              exact fun _ => .imp_left fun h => ⟨_, rfl, h⟩
          | _ => exact hnothing

end Machine

end TreeLang

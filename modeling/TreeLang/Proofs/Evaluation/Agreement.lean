import TreeLang.Evaluation.Direct
import TreeLang.Proofs.Evaluation.Running

namespace TreeLang

open TreeLang.Action

variable {α β : Type}

-- A direct evaluation and a run of the machine agree: both fail with one error,
-- or both succeed, in a state that fits the result and what is stored.
def Agrees (fits : α → Store → Machine → Prop) (direct : Except Error (α × Store))
    (run : Except Error Unit × Machine) : Prop :=
  match direct with
  | .error error => run.1 = .error error
  | .ok (a, store) => run.1 = .ok () ∧ fits a store run.2

-- The states that fit an ending, from given stacks. A value is left on top of
-- them; a return can leave more, which is never looked at again.
def Ends (values : List Value) (branches : List Bool) : Ending → Store → Machine → Prop
  | .normal value, store, m => m = { values := value :: values, store, branches }
  | .returned value, store, m => ∃ above pending,
      m = { values := above ++ values, store, branches := pending ++ branches,
            returned := some value }

-- A stretch of a walk in which nothing is evaluated: it can fail a check, and
-- leaves the machine as it was if it does not.
structure Checked (fault : Option Error) (m : Machine) (run : Except Error Unit × Machine) :
    Prop where
  result : run.1 = verdict fault
  unmoved : fault = none → run.2 = m

theorem Checked.of_eq {fault : Option Error} {m : Machine} {run : Except Error Unit × Machine}
    (h : run = (verdict fault, m)) : Checked fault m run :=
  ⟨congrArg Prod.fst h, fun _ => congrArg Prod.snd h⟩

theorem Checked.of_error {error : Error} {m : Machine} {run : Except Error Unit × Machine}
    (h : run.1 = .error error) : Checked (some error) m run where
  result := h
  unmoved hnone := by cases hnone

theorem Checked.append {fault fault' : Option Error} {m : Machine} {xs ys : List Step}
    (hx : Checked fault m (effect (evaluator.traverse xs) m))
    (hy : Checked fault' m (effect (evaluator.traverse ys) m)) :
    Checked (fault <|> fault') m (effect (evaluator.traverse (xs ++ ys)) m) := by
  rcases hrun : effect (evaluator.traverse xs) m with ⟨result, m'⟩
  rw [hrun] at hx
  cases fault with
  | none =>
      obtain rfl : result = .ok () := hx.result
      obtain rfl : m' = m := hx.unmoved rfl
      rw [Visitor.effect_traverse_append_ok hrun]
      exact hy
  | some error =>
      obtain rfl : result = .error error := hx.result
      rw [Visitor.effect_traverse_append_error hrun]
      exact .of_error rfl

namespace Agrees

variable {fits : α → Store → Machine → Prop} {fits' : β → Store → Machine → Prop}
  {direct : Except Error (α × Store)} {store : Store} {m m' : Machine} {xs ys : List Step}
  {c : Call}

theorem bind {first : Direct α} {next : α → Direct β}
    (h : Agrees fits (first.run store) (effect (evaluator.traverse xs) m))
    (hnext : ∀ a store' m', fits a store' m' →
      Agrees fits' ((next a).run store') (effect (evaluator.traverse ys) m')) :
    Agrees fits' ((first >>= next).run store) (effect (evaluator.traverse (xs ++ ys)) m) := by
  rw [StateT.run_bind]
  rcases hrun : effect (evaluator.traverse xs) m with ⟨result, m'⟩
  rw [hrun] at h
  cases hd : first.run store with
  | error error =>
      rw [hd] at h
      obtain rfl : result = .error error := h
      rw [Visitor.effect_traverse_append_error hrun]
      rfl
  | ok outcome =>
      rw [hd] at h
      obtain ⟨rfl, hfits⟩ : result = .ok () ∧ fits outcome.1 outcome.2 m' := h
      rw [Visitor.effect_traverse_append_ok hrun]
      exact hnext _ _ _ hfits

theorem obey {fault : Option Error} {next : Direct β}
    (h : Checked fault m (effect (evaluator.traverse xs) m))
    (hnext : Agrees fits' (next.run store) (effect (evaluator.traverse ys) m)) :
    Agrees fits' ((do TreeLang.obey fault; next).run store)
      (effect (evaluator.traverse (xs ++ ys)) m) := by
  rcases hrun : effect (evaluator.traverse xs) m with ⟨result, m'⟩
  rw [hrun] at h
  cases fault with
  | none =>
      obtain rfl : result = .ok () := h.result
      obtain rfl : m' = m := h.unmoved rfl
      rw [Visitor.effect_traverse_append_ok hrun]
      exact hnext
  | some error =>
      obtain rfl : result = .error error := h.result
      rw [Visitor.effect_traverse_append_error hrun]
      rfl

theorem call (h : effect (evaluator.call c) m = (.ok (), m'))
    (hrest : Agrees fits direct (effect (evaluator.traverse xs) m')) :
    Agrees fits direct (effect (evaluator.traverse (.call c :: xs)) m) := by
  rw [Visitor.effect_traverse_call_ok h]
  exact hrest

theorem note (entry : Entry)
    (hrest : Agrees fits direct (effect (evaluator.traverse xs) m)) :
    Agrees fits direct (effect (evaluator.traverse (.note entry :: xs)) m) := hrest

theorem nil {a : α} (h : fits a store m) :
    Agrees fits (.ok (a, store)) (effect (evaluator.traverse []) m) :=
  ⟨rfl, h⟩

theorem obey_last {fault : Option Error} {b : β}
    (h : Checked fault m (effect (evaluator.traverse xs) m)) (hfits : fits' b store m) :
    Agrees fits' ((do TreeLang.obey fault; return b : Direct β).run store)
      (effect (evaluator.traverse xs) m) := by
  rw [← List.append_nil xs]
  exact obey h (nil hfits)

-- Steps the direct evaluation knows nothing of.
theorem followed {fits₂ : α → Store → Machine → Prop} {first : Direct α}
    (h : Agrees fits (first.run store) (effect (evaluator.traverse xs) m))
    (hlast : ∀ a store' m', fits a store' m' →
      Agrees fits₂ (.ok (a, store')) (effect (evaluator.traverse ys) m')) :
    Agrees fits₂ (first.run store) (effect (evaluator.traverse (xs ++ ys)) m) := by
  rw [← bind_pure first]
  exact bind h hlast

-- The last call of a form, which has to apply an operation or find a zero.
theorem last {result : Except Error Value} {values : List Value} {branches : List Bool}
    (h : effect (evaluator.call c) m =
      match result with
      | .ok value => (.ok (), { values := value :: values, store, branches })
      | .error error => (.error error, { values, store, branches })) :
    Agrees (Ends values branches)
      ((do return .normal (← liftM result) : Direct Ending).run store)
      (effect (evaluator.traverse [.call c]) m) := by
  cases result with
  | ok value =>
      rw [Visitor.effect_traverse_call_ok h]
      exact ⟨rfl, rfl⟩
  | error error =>
      rw [Visitor.effect_traverse_call_error h]
      rfl

end Agrees

namespace Ends

variable {values : List Value} {store : Store} {branches : List Bool} {value : Value} {m : Machine}

-- A return out of an operand or a part leaves its values and outcomes behind.
theorem of_deeper (extra : List Value) (outcomes : List Bool)
    (h : Ends (extra ++ values) (outcomes ++ branches) (.returned value) store m) :
    Ends values branches (.returned value) store m := by
  obtain ⟨above, pending, rfl⟩ := h
  exact ⟨above ++ extra, pending ++ outcomes, by simp⟩

theorem call_ignored (h : Ends values branches (.returned value) store m) {c : Call} {e : Expr}
    (hnode : c.node = .expr e) : effect (evaluator.call c) m = (.ok (), m) := by
  obtain ⟨above, pending, rfl⟩ := h
  exact Machine.effect_call_of_suppressed rfl hnode (by simp)

theorem last_ignored (h : Ends values branches (.returned value) store m) {c : Call} {e : Expr}
    (hnode : c.node = .expr e) :
    Agrees (Ends values branches) (.ok (.returned value, store))
      (effect (evaluator.traverse [.call c]) m) :=
  .call (h.call_ignored hnode) (.nil h)

end Ends

end TreeLang

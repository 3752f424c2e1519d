import TreeLang.Action

namespace TreeLang.Action

variable {σ α β : Type}

-- What an action gives and the state it leaves, whatever it logs. Statements
-- about results and states are said of the effect.
def effect (action : Action σ α) (state : σ) : Except Error α × σ :=
  (action.run.run state).value

@[simp] theorem effect_pure (a : α) (s : σ) : effect (pure a) s = (.ok a, s) := rfl

@[simp] theorem effect_get (s : σ) : effect get s = (.ok s, s) := rfl

@[simp] theorem effect_set (s t : σ) : effect (set t) s = (.ok (), t) := rfl

theorem effect_bind (action : Action σ α) (next : α → Action σ β) (s : σ) :
    effect (action >>= next) s =
      match effect action s with
      | (.ok a, t) => effect (next a) t
      | (.error error, t) => (.error error, t) := by
  simp only [effect, ExceptT.run_bind, StateT.run_bind, Logged.value_bind]
  rcases (action.run.run s).value with ⟨_ | a, t⟩ <;> rfl

-- A bind is opened by whichever of these two fits the effect of its first action.
theorem effect_bind_ok {action : Action σ α} {s t : σ} {a : α}
    (h : effect action s = (.ok a, t)) (next : α → Action σ β) :
    effect (action >>= next) s = effect (next a) t := by
  rw [effect_bind, h]

theorem effect_bind_error {action : Action σ α} {s t : σ} {error : Error}
    (h : effect action s = (.error error, t)) (next : α → Action σ β) :
    effect (action >>= next) s = (.error error, t) := by
  rw [effect_bind, h]

@[simp] theorem value_startingFrom (s : σ) (action : Action σ α) :
    (action.startingFrom s).run.value = (effect action s).1 := rfl

end TreeLang.Action

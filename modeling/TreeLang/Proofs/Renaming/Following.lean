import TreeLang.Proofs.Renaming.Steps
import TreeLang.Proofs.Walk.Audit

namespace TreeLang

open TreeLang.Action

variable {σ τ α α' β β' : Type} {ρ : Renaming} {onState : σ → τ}

-- From a renamed state, the second action has the renamed effect of the first.
def Follows (ρ : Renaming) (onState : σ → τ) (onValue : α → α') (action : Action σ α)
    (action' : Action τ α') : Prop :=
  ∀ s, effect action' (onState s) =
    (ρ.onResult onValue (effect action s).1, onState (effect action s).2)

namespace Follows

variable {onValue : α → α'} {onNext : β → β'}

theorem pure (onValue : α → α') (a : α) :
    Follows ρ onState onValue (Pure.pure a) (Pure.pure (onValue a)) :=
  fun _ => rfl

theorem throw (onValue : α → α') (error : Error) :
    Follows ρ onState onValue (MonadExcept.throw error) (MonadExcept.throw (error.rename ρ)) :=
  fun _ => rfl

theorem get : Follows ρ onState onState MonadState.get MonadState.get :=
  fun _ => rfl

theorem set (s : σ) :
    Follows ρ onState id (MonadStateOf.set s) (MonadStateOf.set (onState s)) :=
  fun _ => rfl

theorem modify {f : σ → σ} {g : τ → τ} (h : ∀ s, g (onState s) = onState (f s)) :
    Follows ρ onState id (modify f : Action σ PUnit) (modify g) :=
  fun s => Prod.ext rfl (h s)

-- The two may write different things to the log.
theorem emit (entry entry' : Entry) :
    Follows ρ onState id (TreeLang.emit entry : Action σ Unit) (TreeLang.emit entry') :=
  fun _ => rfl

theorem lift {result : Except Error α} {result' : Except Error α'}
    (h : result' = ρ.onResult onValue result) :
    Follows ρ onState onValue (liftM result) (liftM result') := by
  subst h
  intro s
  cases result <;> rfl

theorem bind {first : Action σ α} {first' : Action τ α'} {next : α → Action σ β}
    {next' : α' → Action τ β'} (hfirst : Follows ρ onState onValue first first')
    (hnext : ∀ a, Follows ρ onState onNext (next a) (next' (onValue a))) :
    Follows ρ onState onNext (first >>= next) (first' >>= next') := by
  intro s
  have hrun := hfirst s
  rcases hstep : effect first s with ⟨error | a, t⟩
  · rw [hstep] at hrun
    rw [effect_bind_error hstep, effect_bind_error hrun]
    rfl
  · rw [hstep] at hrun
    rw [effect_bind_ok hstep, effect_bind_ok hrun]
    exact hnext a t

theorem mapM {ι : Type} {action : ι → Action σ α} {action' : ι → Action τ α'} {xs : List ι}
    (h : ∀ x, Follows ρ onState onValue (action x) (action' x)) :
    Follows ρ onState (List.map onValue) (xs.mapM action) (xs.mapM action') := by
  induction xs with
  | nil => exact .pure _ []
  | cons x rest ih =>
      rw [List.mapM_cons, List.mapM_cons]
      exact .bind (h x) fun a => .bind ih fun as => .pure _ (a :: as)

theorem ite {condition : Prop} [Decidable condition] {first second : Action σ α}
    {first' second' : Action τ α'} (hfirst : Follows ρ onState onValue first first')
    (hsecond : Follows ρ onState onValue second second') :
    Follows ρ onState onValue (if condition then first else second)
      (if condition then first' else second') := by
  split
  · exact hfirst
  · exact hsecond

end Follows

def Signal.rename (ρ : Renaming) : Signal → Signal
  | setUp => setUp
  | call c => call (c.rename ρ)
  | cleanUp => cleanUp

def Exchange.rename (ρ : Renaming) (exchange : Exchange) : Exchange :=
  ⟨exchange.signal.rename ρ, ρ.onResult id exchange.answer⟩

def Audit.rename (ρ : Renaming) (onState : σ → τ) (audit : Audit σ) : Audit τ :=
  ⟨onState audit.state, audit.exchanges.map (Exchange.rename ρ)⟩

namespace Visitor

-- The second visitor does at renamed calls what the first does at the calls they stand for.
structure Follows (ρ : Renaming) (onState : σ → τ) (visitor : Visitor σ) (visitor' : Visitor τ) :
    Prop where
  setUp : TreeLang.Follows ρ onState id visitor.setUp visitor'.setUp
  call : ∀ c, TreeLang.Follows ρ onState id (visitor.call c) (visitor'.call (c.rename ρ))
  cleanUp : TreeLang.Follows ρ onState id visitor.cleanUp visitor'.cleanUp

namespace Follows

variable {visitor : Visitor σ} {visitor' : Visitor τ}

theorem traverse (h : visitor.Follows ρ onState visitor') {steps steps' : List Step}
    (hsteps : Step.AllRenamed ρ steps steps') :
    TreeLang.Follows ρ onState id (visitor.traverse steps) (visitor'.traverse steps') := by
  induction hsteps with
  | nil => exact .pure id ()
  | @cons step step' rest rest' hstep _ ih =>
      have hfirst : TreeLang.Follows ρ onState id (visitor.step step) (visitor'.step step') := by
        cases hstep with
        | call c => exact h.call c
        | note entry entry' => exact .emit entry entry'
        | fail error => exact .throw id error
      exact .bind hfirst fun _ => ih

-- A walk cleans up whatever has happened, and then the first error counts.
theorem walk (h : visitor.Follows ρ onState visitor') (root : Node) :
    TreeLang.Follows ρ onState id (walk visitor root) (walk visitor' (root.rename ρ)) := by
  intro s
  have htraversed : TreeLang.Follows ρ onState id
      (do visitor.setUp; visitor.traverse root.steps)
      (do visitor'.setUp; visitor'.traverse (root.rename ρ).steps) :=
    h.setUp.bind fun _ => h.traverse root.steps_rename
  rw [effect_walk, effect_walk, htraversed s]
  rcases effect (do visitor.setUp; visitor.traverse root.steps) s with ⟨traversed, t⟩
  simp only [h.cleanUp t]
  rcases effect visitor.cleanUp t with ⟨cleaned, u⟩
  cases traversed <;> cases cleaned <;> rfl

theorem hear (signal : Signal) {action : Action σ Unit} {action' : Action τ Unit}
    (h : TreeLang.Follows ρ onState id action action') :
    TreeLang.Follows ρ (Audit.rename ρ onState) id (Audit.hear signal action)
      (Audit.hear (signal.rename ρ) action') := by
  rintro ⟨s, earlier⟩
  have hheard : effect (Audit.hear signal action) ⟨s, earlier⟩ =
      ((effect action s).1,
        ⟨(effect action s).2, earlier ++ [⟨signal, (effect action s).1⟩]⟩) := rfl
  have hheard' : effect (Audit.hear (signal.rename ρ) action')
      (Audit.rename ρ onState ⟨s, earlier⟩) =
        ((effect action' (onState s)).1, ⟨(effect action' (onState s)).2,
          earlier.map (Exchange.rename ρ) ++
            [⟨signal.rename ρ, (effect action' (onState s)).1⟩]⟩) := rfl
  rw [hheard, hheard', h s]
  simp [Audit.rename, Exchange.rename]

-- What is exchanged with the two differs by the renaming alone.
theorem audited (h : visitor.Follows ρ onState visitor') :
    visitor.audited.Follows ρ (Audit.rename ρ onState) visitor'.audited where
  setUp := hear .setUp h.setUp
  call c := hear (.call c) (h.call c)
  cleanUp := hear .cleanUp h.cleanUp

end Follows

end Visitor

end TreeLang

import TreeLang.Proofs.Effect
import TreeLang.Walk.Visitor

namespace TreeLang

-- How a walk ends for a visitor that does not object.
def verdict : Option Error → Except Error Unit
  | none => .ok ()
  | some error => .error error

theorem verdict_eq_ok_iff {fault : Option Error} : verdict fault = .ok () ↔ fault = none := by
  cases fault <;> simp [verdict]

theorem verdict_eq_error_iff {fault : Option Error} {error : Error} :
    verdict fault = .error error ↔ fault = some error := by
  cases fault <;> simp [verdict]

-- Two splits of one list are made at one place, or one of them before the other.
theorem splits_cases {α : Type} {x x' : α} {before after before' after' : List α}
    (h : before ++ x :: after = before' ++ x' :: after') :
    x ∈ before' ∨ x' ∈ before ∨ before = before' ∧ x = x' ∧ after = after' := by
  rcases List.append_eq_append_iff.mp h with ⟨between, rfl, hrest⟩ | ⟨between, rfl, hrest⟩
  · cases between with
    | nil =>
        obtain ⟨rfl, rfl⟩ := List.cons.inj hrest
        exact .inr (.inr ⟨by simp, rfl, rfl⟩)
    | cons y between =>
        obtain ⟨rfl, -⟩ := List.cons.inj hrest
        exact .inl (by simp)
  · cases between with
    | nil =>
        obtain ⟨rfl, rfl⟩ := List.cons.inj hrest
        exact .inr (.inr ⟨by simp, rfl, rfl⟩)
    | cons y between =>
        obtain ⟨rfl, -⟩ := List.cons.inj hrest
        exact .inr (.inl (by simp))

namespace Step

-- The calls made before the first failing step.
def calls : List Step → List Call
  | [] => []
  | call c :: rest => c :: calls rest
  | note _ :: rest => calls rest
  | fail _ :: _ => []

-- The error of the first failing step.
def fault? : List Step → Option Error
  | [] => none
  | call _ :: rest => fault? rest
  | note _ :: rest => fault? rest
  | fail error :: _ => some error

theorem fault?_append (xs ys : List Step) : fault? (xs ++ ys) = (fault? xs <|> fault? ys) := by
  induction xs with
  | nil => simp [fault?]
  | cons step rest ih => cases step <;> simp [fault?, ih]

-- Steps that follow a failing one are not reached.
theorem calls_append (xs ys : List Step) :
    calls (xs ++ ys) = calls xs ++ if (fault? xs).isNone then calls ys else [] := by
  induction xs with
  | nil => simp [calls, fault?]
  | cons step rest ih => cases step <;> simp [calls, fault?, ih]

theorem call_mem_of_mem_calls {steps : List Step} {c : Call} (h : c ∈ calls steps) :
    .call c ∈ steps := by
  induction steps with
  | nil => cases h
  | cons step rest ih =>
      cases step with
      | call first =>
          rcases List.mem_cons.mp h with rfl | h
          · exact List.mem_cons_self
          · exact List.mem_cons_of_mem _ (ih h)
      | note entry => exact List.mem_cons_of_mem _ (ih h)
      | fail error => cases h

end Step

def Node.calls (root : Node) : List Call :=
  Step.calls root.steps

def Node.fault? (root : Node) : Option Error :=
  Step.fault? root.steps

namespace Visitor

open TreeLang.Action

variable {σ : Type} (visitor : Visitor σ)

-- No hook of the visitor fails in any state.
structure NeverFails : Prop where
  setUp : ∀ s, (effect visitor.setUp s).1 = .ok ()
  call : ∀ c s, (effect (visitor.call c) s).1 = .ok ()
  cleanUp : ∀ s, (effect visitor.cleanUp s).1 = .ok ()

@[simp] theorem effect_traverse_nil (s : σ) : effect (visitor.traverse []) s = (.ok (), s) := rfl

@[simp] theorem effect_traverse_note (entry : Entry) (rest : List Step) (s : σ) :
    effect (visitor.traverse (.note entry :: rest)) s = effect (visitor.traverse rest) s := rfl

@[simp] theorem effect_traverse_fail (error : Error) (rest : List Step) (s : σ) :
    effect (visitor.traverse (.fail error :: rest)) s = (.error error, s) := rfl

theorem traverse_append (xs ys : List Step) :
    visitor.traverse (xs ++ ys) = (do visitor.traverse xs; visitor.traverse ys) := by
  simp [traverse]

variable {visitor}

theorem effect_traverse_call_ok {c : Call} {s t : σ}
    (h : effect (visitor.call c) s = (.ok (), t)) (rest : List Step) :
    effect (visitor.traverse (.call c :: rest)) s = effect (visitor.traverse rest) t :=
  effect_bind_ok h fun _ => visitor.traverse rest

theorem effect_traverse_call_error {c : Call} {s t : σ} {error : Error}
    (h : effect (visitor.call c) s = (.error error, t)) (rest : List Step) :
    effect (visitor.traverse (.call c :: rest)) s = (.error error, t) :=
  effect_bind_error h fun _ => visitor.traverse rest

theorem effect_traverse_append_ok {xs : List Step} {s t : σ}
    (h : effect (visitor.traverse xs) s = (.ok (), t)) (ys : List Step) :
    effect (visitor.traverse (xs ++ ys)) s = effect (visitor.traverse ys) t := by
  rw [traverse_append]
  exact effect_bind_ok h _

theorem effect_traverse_append_error {xs : List Step} {s t : σ} {error : Error}
    (h : effect (visitor.traverse xs) s = (.error error, t)) (ys : List Step) :
    effect (visitor.traverse (xs ++ ys)) s = (.error error, t) := by
  rw [traverse_append]
  exact effect_bind_error h _

-- Where no call has an effect, only the steps of the walk itself can end it.
theorem effect_traverse_of_quiet {s : σ} {steps : List Step}
    (h : ∀ c, .call c ∈ steps → effect (visitor.call c) s = (.ok (), s)) :
    effect (visitor.traverse steps) s = (verdict (Step.fault? steps), s) := by
  induction steps with
  | nil => rfl
  | cons step rest ih =>
      have hr := ih fun c hc => h c (List.mem_cons_of_mem _ hc)
      cases step with
      | call c =>
          rw [effect_traverse_call_ok (h c List.mem_cons_self), hr]
          rfl
      | note entry => exact hr
      | fail error => rfl

-- Some hook of the visitor gives this error in some state.
def Raises (visitor : Visitor σ) (error : Error) : Prop :=
  ∃ s, (effect visitor.setUp s).1 = .error error ∨
    (∃ c, (effect (visitor.call c) s).1 = .error error) ∨
    (effect visitor.cleanUp s).1 = .error error

-- How a traversal goes: to its end, or to the first step that fails, or to a call
-- that the visitor refuses before it.
inductive Course (visitor : Visitor σ) (s : σ) (steps : List Step) :
    Except Error Unit × σ → Prop where
  | finished {t : σ} (hfault : Step.fault? steps = none) : Course visitor s steps (.ok (), t)
  | failed {before after : List Step} {error : Error} {t : σ}
      (hsplit : steps = before ++ .fail error :: after) (hfault : Step.fault? before = none)
      (hrun : effect (visitor.traverse before) s = (.ok (), t)) :
      Course visitor s steps (.error error, t)
  | refused {before after : List Step} {c : Call} {error : Error} {t u : σ}
      (hsplit : steps = before ++ .call c :: after) (hfault : Step.fault? before = none)
      (hrun : effect (visitor.traverse before) s = (.ok (), t))
      (hcall : effect (visitor.call c) t = (.error error, u)) :
      Course visitor s steps (.error error, u)

theorem Course.cons {s s' : σ} {step : Step} {rest : List Step} {outcome : Except Error Unit × σ}
    (hfault : Step.fault? [step] = none)
    (hstep : effect (visitor.traverse [step]) s = (.ok (), s'))
    (h : Course visitor s' rest outcome) : Course visitor s (step :: rest) outcome := by
  have hlonger : ∀ {xs}, Step.fault? xs = none → Step.fault? (step :: xs) = none := by
    intro xs hxs
    rw [← List.singleton_append, Step.fault?_append, hfault, hxs]
    rfl
  have hfurther : ∀ {xs t}, effect (visitor.traverse xs) s' = (.ok (), t) →
      effect (visitor.traverse (step :: xs)) s = (.ok (), t) := by
    intro xs t hrun
    rw [← List.singleton_append, effect_traverse_append_ok hstep, hrun]
  cases h with
  | finished hrest => exact .finished (hlonger hrest)
  | failed hsplit hbefore hrun =>
      exact .failed (congrArg (step :: ·) hsplit) (hlonger hbefore) (hfurther hrun)
  | refused hsplit hbefore hrun hcall =>
      exact .refused (congrArg (step :: ·) hsplit) (hlonger hbefore) (hfurther hrun) hcall

theorem traverse_course (steps : List Step) (s : σ) :
    Course visitor s steps (effect (visitor.traverse steps) s) := by
  induction steps generalizing s with
  | nil => exact .finished rfl
  | cons step rest ih =>
      cases step with
      | note entry => exact .cons rfl rfl (ih s)
      | fail error => exact .failed (List.nil_append _).symm rfl rfl
      | call c =>
          rcases hcall : effect (visitor.call c) s with ⟨error | _, t⟩
          · rw [effect_traverse_call_error hcall]
            exact .refused (List.nil_append _).symm rfl rfl hcall
          · rw [effect_traverse_call_ok hcall]
            exact .cons rfl (effect_traverse_call_ok hcall []) (ih t)

theorem effect_traverse_of_neverFails (h : visitor.NeverFails) (steps : List Step) (s : σ) :
    (effect (visitor.traverse steps) s).1 = verdict (Step.fault? steps) := by
  have hcourse := visitor.traverse_course steps s
  generalize effect (visitor.traverse steps) s = outcome at hcourse ⊢
  cases hcourse with
  | finished hfault => rw [hfault]; rfl
  | failed hsplit hfault => rw [hsplit, Step.fault?_append, hfault]; rfl
  | @refused before after c error t u hsplit hfault hrun hcall =>
      have hok := h.call c t
      rw [hcall] at hok
      cases hok

end Visitor

open TreeLang.Action in
theorem effect_walk {σ : Type} (visitor : Visitor σ) (root : Node) (s : σ) :
    effect (walk visitor root) s =
      let (traversed, t) := effect (do visitor.setUp; visitor.traverse root.steps) s
      let (cleaned, u) := effect visitor.cleanUp t
      (traversed *> cleaned, u) := rfl

open TreeLang.Action in
theorem effect_walk_of_neverFails {σ : Type} {visitor : Visitor σ} (h : visitor.NeverFails)
    (root : Node) (s : σ) : (effect (walk visitor root) s).1 = verdict root.fault? := by
  rcases hset : effect visitor.setUp s with ⟨result, t⟩
  obtain rfl : result = .ok () := by simpa [hset] using h.setUp s
  rw [effect_walk, effect_bind_ok hset]
  have hrun := Visitor.effect_traverse_of_neverFails h root.steps t
  rcases hrest : effect (visitor.traverse root.steps) t with ⟨traversed, u⟩
  rw [hrest] at hrun
  obtain rfl : traversed = verdict root.fault? := hrun
  have hclean := h.cleanUp u
  simp only [hclean]
  cases root.fault? <;> rfl

-- A walk has no other errors than the faults of the tree and those its visitor raises.
open TreeLang.Action in
theorem walk_error {σ : Type} {visitor : Visitor σ} {root : Node} {s : σ} {error : Error}
    (h : (effect (walk visitor root) s).1 = .error error) :
    root.fault? = some error ∨ visitor.Raises error := by
  rw [effect_walk] at h
  rcases hset : effect visitor.setUp s with ⟨raised | _, t⟩
  · rw [effect_bind_error hset] at h
    obtain rfl := Except.error.inj h
    exact .inr ⟨s, .inl (congrArg Prod.fst hset)⟩
  · rw [effect_bind_ok hset] at h
    have hcourse := visitor.traverse_course root.steps t
    generalize effect (visitor.traverse root.steps) t = outcome at hcourse h
    cases hcourse with
    | @finished u hfault =>
        refine .inr ⟨u, .inr (.inr ?_)⟩
        rcases hclean : effect visitor.cleanUp u with ⟨raised | _, rest⟩ <;>
          simp only [hclean] at h
        · exact h
        · cases h
    | failed hsplit hfault hrun =>
        obtain rfl := Except.error.inj h
        rw [Node.fault?, hsplit, Step.fault?_append, hfault]
        exact .inl rfl
    | @refused before after c raised u rest hsplit hfault hrun hcall =>
        obtain rfl := Except.error.inj h
        exact .inr ⟨u, .inr (.inl ⟨c, congrArg Prod.fst hcall⟩)⟩

end TreeLang

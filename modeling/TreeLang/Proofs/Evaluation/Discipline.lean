import TreeLang.Proofs.Evaluation.Moves
import TreeLang.Proofs.Validity

namespace TreeLang

open TreeLang.Action

-- A machine is suppressed for one reason at a time.
def Machine.Coherent (m : Machine) : Prop :=
  m.skipUntil = none ∨ m.returned = none

namespace Machine

-- Only a running machine begins to skip or returns, and a function ends or drops
-- both states.
theorem Moves.coherent {c : Call} {m m' : Machine} (h : Moves c m m') (hm : m.Coherent) :
    m'.Coherent := by
  cases h with
  | restacks values branches => exact hm
  | skips hrun => exact .inr (suppressed_eq_false_iff.mp hrun).2
  | resumes => exact .inl rfl
  | assigns hrun hassigns value => exact hm
  | returns hrun hreturns values value => exact .inl (suppressed_eq_false_iff.mp hrun).1
  | opens f hnode => exact .inl rfl
  | closes f hnode values => exact .inr rfl

theorem coherent_traverse (steps : List Step) {m : Machine} (hm : m.Coherent) :
    (effect (evaluator.traverse steps) m).2.Coherent :=
  traverse_keeps (fun _ _ _ _ => Moves.coherent) hm

-- Within a function, what a return has left stays.
theorem Moves.returned_eq {c : Call} {e : Expr} (hnode : c.node = .expr e) {m m' : Machine}
    (h : Moves c m m') (hnot : ¬ (m.suppressed = false ∧ c.Returns)) :
    m'.returned = m.returned := by
  cases h with
  | restacks values branches => rfl
  | skips hrun => rfl
  | resumes => rfl
  | assigns hrun hassigns value => rfl
  | returns hrun hreturns values value => exact absurd ⟨hrun, hreturns⟩ hnot
  | opens f hf => cases hnode.symm.trans hf
  | closes f hf values => cases hnode.symm.trans hf

theorem returned_of_call {c : Call} (hreturns : c.Returns) {m m' : Machine}
    (hrun : m.suppressed = false) (h : effect (evaluator.call c) m = (.ok (), m')) :
    m'.returned ≠ none := by
  rcases c with ⟨moment, node, context⟩
  obtain ⟨rfl, id, e, rfl⟩ := hreturns
  change effect (unlessSuppressed (finishReturn id)) m = _ at h
  rw [effect_unlessSuppressed, hrun] at h
  rcases m with ⟨_ | ⟨value, rest⟩, store, branches, skipUntil, returned⟩
  · cases h
  · cases h
    exact Option.some_ne_none value

theorem returned_iff_executes {steps : List Step}
    (hsteps : ∀ c, .call c ∈ steps → ∃ e, c.node = .expr e) {m m' : Machine}
    (hm : m.returned = none) (hrun : effect (evaluator.traverse steps) m = (.ok (), m')) :
    m'.returned ≠ none ↔ Executes Call.Returns steps m := by
  refine brought_about_iff_executes (I := fun m => m.returned ≠ none)
    (fun c hc s t hmoves hnot hs => ?_) (fun c hc s t hmoves hs => ?_)
    (fun c s t hreturns hrunning => returned_of_call hreturns hrunning) hrun (by simp [hm])
  · obtain ⟨e, hnode⟩ := hsteps c hc
    rwa [hmoves.returned_eq hnode hnot]
  · obtain ⟨e, hnode⟩ := hsteps c hc
    have hsuppressed : ¬ (s.suppressed = false ∧ c.Returns) :=
      fun ⟨hrunning, _⟩ => hs (suppressed_eq_false_iff.mp hrunning).2
    rwa [hmoves.returned_eq hnode hsuppressed]

end Machine

-- Whether an expression is walked for its effect. A part is if the outcome of the
-- condition, on top of the branches, chooses it.
def Chosen (branches : List Bool) : Option Part → Prop
  | none | some .condition => True
  | some part => branches.head? = some (decide (part = .truePart))

theorem chosen_iff {branches : List Bool} {part : Part} (hbranch : part ≠ .condition) :
    Chosen branches (some part) ↔ branches.head? = some (decide (part = .truePart)) := by
  cases part with
  | condition => exact absurd rfl hbranch
  | truePart => exact Iff.rfl
  | falsePart => exact Iff.rfl

-- How the stacks stand after an expression that was walked for its effect: with one
-- value more or, for a condition, one outcome more, unless a return was executed. That
-- leaves a value to return, and on the stacks whatever was above those of before.
inductive Settles (part? : Option Part) (values : List Value) (branches : List Bool)
    (returns : Prop) : Machine → Prop where
  | valued (hpart : part? ≠ some .condition) (hnot : ¬ returns) (value : Value) (store : Store) :
      Settles part? values branches returns { values := value :: values, store, branches }
  | decided (hpart : part? = some .condition) (hnot : ¬ returns) (outcome : Bool)
      (store : Store) :
      Settles part? values branches returns { values, store, branches := outcome :: branches }
  | unwound (hreturns : returns) (above : List Value) (pending : List Bool) (value : Value)
      (store : Store) :
      Settles part? values branches returns
        { values := above ++ values, store, branches := pending ++ branches,
          returned := some value }

theorem Agrees.of_ok {α : Type} {fits : α → Store → Machine → Prop}
    {direct : Except Error (α × Store)} {m : Machine} (h : Agrees fits direct (.ok (), m)) :
    ∃ a store, fits a store m := by
  cases direct with
  | error error => cases h
  | ok outcome => exact ⟨outcome.1, outcome.2, h.2⟩

namespace Settles

variable {part? : Option Part} {values : List Value} {branches : List Bool} {returns : Prop}
  {ending : Ending} {store : Store} {m : Machine}

theorem of_ends (hpart : part? ≠ some .condition) (h : Ends values branches ending store m)
    (hreturns : m.returned ≠ none ↔ returns) : Settles part? values branches returns m := by
  cases ending with
  | normal value =>
      obtain rfl := h
      exact .valued hpart (fun hreturn => hreturns.mpr hreturn rfl) value store
  | returned value =>
      obtain ⟨above, pending, rfl⟩ := h
      exact .unwound (hreturns.mp (Option.some_ne_none value)) above pending value store

theorem of_chooses (hpart : part? = some .condition)
    (h : Expr.Chooses values branches ending store m) (hreturns : m.returned ≠ none ↔ returns) :
    Settles part? values branches returns m := by
  cases ending with
  | normal value =>
      obtain rfl := h
      exact .decided hpart (fun hreturn => hreturns.mpr hreturn rfl) value.truthy store
  | returned value =>
      obtain ⟨above, pending, rfl⟩ := h
      exact .unwound (hreturns.mp (Option.some_ne_none value)) above pending value store

end Settles

namespace Expr

variable {e : Expr} {outer : Context} {values : List Value} {store : Store}
  {branches : List Bool} {m' : Machine}

theorem returned_steps_iff
    (hrun : effect (evaluator.traverse (e.steps outer)) { values, store, branches } =
      (.ok (), m')) :
    m'.returned ≠ none ↔
      Executes Call.Returns (e.steps outer) { values, store, branches } := by
  refine Machine.returned_iff_executes (fun c hc => ?_) rfl hrun
  obtain ⟨x, _, hnode⟩ := call_mem_steps hc
  exact ⟨x, hnode⟩

-- The places an expression can stand at: alone, as the condition of a conditional,
-- and as one of its other parts.
theorem settles_of_chosen (hwf : e.WellFormed)
    (hchosen : Chosen branches (outer.within (.expr e)).part?)
    (hrun : effect (evaluator.traverse (e.steps outer)) { values, store, branches } =
      (.ok (), m')) :
    Settles (outer.within (.expr e)).part? values branches
      (Executes Call.Returns (e.steps outer) { values, store, branches }) m' := by
  have hsimulated := e.simulated hwf
  have hreturns := returned_steps_iff hrun
  cases hpart : (outer.within (.expr e)).part? with
  | none =>
      have hagrees := hsimulated.steps outer values store branches hpart
      rw [hrun] at hagrees
      obtain ⟨ending, store', hends⟩ := hagrees.of_ok
      exact .of_ends (by simp) hends hreturns
  | some part =>
      by_cases hcondition : part = .condition
      · subst hcondition
        have hagrees := hsimulated.condition outer values store branches hpart
        rw [hrun] at hagrees
        obtain ⟨ending, store', hchooses⟩ := hagrees.of_ok
        exact .of_chooses rfl hchooses hreturns
      · rw [hpart, chosen_iff hcondition] at hchosen
        obtain ⟨outcome, rest, rfl⟩ : ∃ outcome rest, branches = outcome :: rest :=
          List.exists_cons_of_ne_nil (by rintro rfl; cases hchosen)
        have hagrees : Agrees (EndsPart (some e) values (outcome :: rest))
            ((evaluatePart outer.scopes (some e)).run store)
            (effect (evaluator.traverse (partSteps outer (some e)))
              { values, store, branches := outcome :: rest }) :=
          agrees_part_taken (by simpa using hsimulated) hcondition (by simpa using hpart)
            (by simpa using hchosen) values store rest
        rw [partSteps, hrun] at hagrees
        obtain ⟨_ | ending, store', hsome, hends⟩ := hagrees.of_ok
        · cases hsome
        · exact .of_ends (by simpa using hcondition) hends hreturns

theorem unmoved_of_not_chosen (hwf : e.WellFormed)
    (hchosen : ¬ Chosen branches (outer.within (.expr e)).part?)
    (hrun : effect (evaluator.traverse (e.steps outer)) { values, store, branches } =
      (.ok (), m')) : m' = { values, store, branches } := by
  obtain ⟨part, hpart, hbranch⟩ : ∃ part,
      (outer.within (.expr e)).part? = some part ∧ part ≠ .condition := by
    cases hpart : (outer.within (.expr e)).part? with
    | none => exact absurd (by rw [hpart]; trivial) hchosen
    | some part =>
        refine ⟨part, rfl, ?_⟩
        rintro rfl
        exact hchosen (by rw [hpart]; trivial)
  rw [hpart, chosen_iff hbranch] at hchosen
  cases branches with
  | nil =>
      -- There is no outcome to go by, so the walk has failed on coming to the part.
      rw [steps_eq] at hrun
      have henter : ∃ error m₁, effect (evaluator.call
          ⟨.enter, .expr e, outer.within (.expr e)⟩) { values, store, branches := [] } =
          (.error error, m₁) := by
        change ∃ error m₁, effect (Machine.enter (.expr e) (outer.within (.expr e))) _ = _
        rw [Machine.enter, Machine.effect_unlessSuppressed_running, hpart]
        cases part with
        | condition => exact absurd rfl hbranch
        | truePart => exact ⟨_, _, rfl⟩
        | falsePart => exact ⟨_, _, rfl⟩
      obtain ⟨error, m₁, herror⟩ := henter
      rw [Visitor.effect_traverse_call_error herror] at hrun
      cases hrun
  | cons outcome rest =>
      have hchecked : Checked (partViolation? outer.scopes (some e))
          { values, store, branches := outcome :: rest }
          (effect (evaluator.traverse (partSteps outer (some e)))
            { values, store, branches := outcome :: rest }) :=
        checked_part_untaken (by simpa using hwf) hbranch (by simpa using hpart)
          (by simpa using hchosen) values store rest
      rw [partSteps, hrun] at hchecked
      exact hchecked.unmoved (verdict_eq_ok_iff.mp hchecked.result.symm)

end Expr

-- Whatever is on the stacks when an expression is come to is there when it is left,
-- at every place of a tree and from every state; what is suppressed does nothing at
-- all. The machine never wants for a value or an outcome of its own.
theorem stacks_disciplined :
    (∀ e : Expr, e.WellFormed → ∀ outer : Context,
      (∀ values store branches m',
        effect (evaluator.traverse (e.steps outer)) { values, store, branches } = (.ok (), m') →
        (Chosen branches (outer.within (.expr e)).part? →
          Settles (outer.within (.expr e)).part? values branches
            (Executes Call.Returns (e.steps outer) { values, store, branches }) m') ∧
        (¬ Chosen branches (outer.within (.expr e)).part? →
          m' = { values, store, branches })) ∧
      ∀ m : Machine, m.suppressed = true → (∀ x ∈ e.preorder, m.skipUntil ≠ some x.id) →
        (effect (evaluator.traverse (e.steps outer)) m).2 = m) ∧
    (({} : Machine).Coherent ∧
      ∀ steps (m : Machine), m.Coherent → (effect (evaluator.traverse steps) m).2.Coherent) ∧
    ∀ root : Node, root.WellFormed → (∀ mod, root = .module mod → mod.functions ≠ []) →
      ∀ m error, (effect (evaluate root) m).1 = .error error → ¬ error.Internal := by
  refine ⟨fun e hwf outer => ⟨fun values store branches m' hrun => ?_, fun m hm hskip => ?_⟩,
    ⟨.inl rfl, fun steps m => Machine.coherent_traverse steps⟩,
    fun root hwf hfunctions m error => evaluate_not_internal hwf hfunctions m⟩
  · exact ⟨fun hchosen => Expr.settles_of_chosen hwf hchosen hrun,
      fun hchosen => Expr.unmoved_of_not_chosen hwf hchosen hrun⟩
  · rw [Expr.effect_steps_of_suppressed hm e outer hskip]

-- A return out of a part in the right operand of a sum leaves the left operand and the
-- outcome of the condition behind, above what there was.
theorem stacks_disciplined_operand_returns :
    let early : Expr := .conditional ⟨5⟩ (.int32 ⟨2⟩ 1) (some (.ret ⟨4⟩ (.int32 ⟨3⟩ 7))) none
    let e : Expr := .binary ⟨6⟩ .add (.int32 ⟨1⟩ 2) early
    let left : Machine :=
      { values := [.int32 2, .int32 9], branches := [true, false], returned := some (.int32 7) }
    let skipping : Machine := { values := [.int32 9], skipUntil := some ⟨8⟩ }
    e.WellFormed ∧
      effect (evaluator.traverse (e.steps .outside)) { values := [.int32 9], branches := [false] } =
        (.ok (), left) ∧
      Settles none [.int32 9] [false]
        (Executes Call.Returns (e.steps .outside) { values := [.int32 9], branches := [false] })
        left ∧
      (effect (evaluator.traverse (e.steps .outside)) skipping).2 = skipping ∧
      left.Coherent ∧
      ∀ error, (effect (evaluate (.expr e)) left).1 = .error error → ¬ error.Internal := by
  intro early e left skipping
  have hwf : e.WellFormed := by
    refine ⟨by decide, ?_⟩
    simp [e, early, Expr.preorder, Expr.preorderPart]
  have hroot : (Node.expr e).WellFormed := by
    refine ⟨by decide, ?_⟩
    simp [e, early, Node.preorder, Expr.preorder, Expr.preorderPart]
  have hrun : effect (evaluator.traverse (e.steps .outside))
      { values := [.int32 9], branches := [false] } = (.ok (), left) := by decide +kernel
  obtain ⟨hexpr, ⟨-, hcoherent⟩, hnever⟩ := stacks_disciplined
  obtain ⟨hstacks, hsuppressed⟩ := hexpr e hwf .outside
  have hleft :=
    hcoherent (e.steps .outside) { values := [.int32 9], branches := [false] } (.inl rfl)
  rw [hrun] at hleft
  exact ⟨hwf, hrun, (hstacks _ _ _ _ hrun).1 trivial, hsuppressed skipping rfl (by decide), hleft,
    hnever _ hroot (fun _ hmod => by cases hmod) left⟩

end TreeLang

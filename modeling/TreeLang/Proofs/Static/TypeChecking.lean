import TreeLang.Proofs.Static.Judgement
import TreeLang.TypeCheck

namespace TreeLang

open TreeLang.Action

-- The checker objects to nothing, and counts the binary expressions.
theorem effect_typeChecker (c : Call) (n : Nat) :
    effect (typeChecker.call c) n = (.ok (), n + if c.finishesBinary then 1 else 0) := by
  rcases c with ⟨moment, node, context⟩
  rcases node with e | f | m
  · cases moment <;> cases e <;> rfl
  · cases moment <;> rfl
  · cases moment <;> rfl

theorem typeChecker_neverFails : typeChecker.NeverFails where
  setUp _ := rfl
  call c n := by rw [effect_typeChecker]
  cleanUp _ := rfl

theorem effect_traverse_typeChecker (steps : List Step) (n : Nat) :
    effect (typeChecker.traverse steps) n =
      (verdict (Step.fault? steps), n + (Step.calls steps).countP Call.finishesBinary) := by
  induction steps generalizing n with
  | nil => rfl
  | cons step rest ih =>
      cases step with
      | note entry => exact ih n
      | fail error => rfl
      | call c =>
          rw [Visitor.effect_traverse_call_ok (effect_typeChecker c n), ih]
          simp only [Step.fault?, Step.calls, List.countP_cons]
          ac_rfl

-- A checker can be used again, as each walk counts anew.
theorem effect_walk_typeChecker (root : Node) (n : Nat) :
    effect (walk typeChecker root) n =
      (verdict root.fault?, root.calls.countP Call.finishesBinary) := by
  have hset : effect typeChecker.setUp n = (.ok (), 0) := rfl
  rw [effect_walk, effect_bind_ok hset, effect_traverse_typeChecker, Nat.zero_add]
  change (verdict root.fault? *> .ok (), root.calls.countP Call.finishesBinary) = _
  cases root.fault? <;> rfl

theorem value_typeCheck (root : Node) : (typeCheck root).run.value = verdict root.fault? := by
  have hwalk := effect_walk_typeChecker root 0
  simp only [typeCheck, ExceptT.run_bind, Logged.value_bind, value_startingFrom]
  cases hfault : root.fault? with
  | none =>
      rw [hfault] at hwalk
      rw [effect_bind_ok hwalk, effect_get]
      rfl
  | some error =>
      rw [hfault] at hwalk
      rw [effect_bind_error hwalk]
      rfl

-- The checker decides the rules, each said of a place in the tree. It goes
-- through the places in their order up to the first that breaks one, which it
-- reports, and has then counted the binary expressions before that place.
theorem typeCheck_first_violation (root : Node) (n : Nat) :
    (∀ site, site ∈ root.sites ↔ root.Contains site) ∧
    ((typeCheck root).run.value = .ok () ↔ ∀ site, root.Contains site → site.Lawful) ∧
    (∀ error, (typeCheck root).run.value = .error error ↔
      ∃ passed site rest, root.sites = passed ++ site :: rest ∧
        (∀ earlier ∈ passed, earlier.Lawful) ∧ site.Violates error) ∧
    ∃ passed rest, root.sites = passed ++ rest ∧ (∀ site ∈ passed, site.Lawful) ∧
      (∀ site ∈ rest.head?, ¬ site.Lawful) ∧
      (effect (walk typeChecker root) n).2 = passed.countP (·.expr.isBinary) := by
  have hjudge := root.steps_judge
  refine ⟨fun _ => Node.mem_sites_iff, ?_, fun error => ?_, ?_⟩
  · rw [value_typeCheck, Node.fault?, hjudge.fault, verdict_eq_ok_iff, List.findSome?_eq_none_iff]
    simp only [Site.error?_eq_none_iff, Node.mem_sites_iff]
  · rw [value_typeCheck, Node.fault?, hjudge.fault, verdict_eq_error_iff,
      List.findSome?_eq_some_iff]
    simp only [Site.error?_eq_none_iff, Site.error?_eq_some_iff]
    constructor
    · rintro ⟨passed, site, rest, hsplit, herror, hpassed⟩
      exact ⟨passed, site, rest, hsplit, hpassed, herror⟩
    · rintro ⟨passed, site, rest, hsplit, hpassed, herror⟩
      exact ⟨passed, site, rest, hsplit, herror, hpassed⟩
  · refine ⟨root.sites.takeWhile Site.isSound, root.sites.dropWhile Site.isSound,
      List.takeWhile_append_dropWhile.symm, fun site hsite => ?_, fun site hsite => ?_, ?_⟩
    · exact Site.isSound_iff.mp (List.all_eq_true.mp List.all_takeWhile site hsite)
    · have hstop := List.head?_dropWhile_not Site.isSound root.sites
      rw [Option.mem_def.mp hsite] at hstop
      rw [← Site.isSound_iff]
      simpa using hstop
    · rw [effect_walk_typeChecker]
      exact hjudge.finished

end TreeLang

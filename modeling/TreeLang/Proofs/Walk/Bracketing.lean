import TreeLang.Proofs.Walk.Position
import TreeLang.Proofs.Walk.Transcript

namespace TreeLang

namespace Action

variable {σ α β : Type}

-- What an action writes to the log.
def log (action : Action σ α) (state : σ) : List Entry :=
  (action.run.run state).log

theorem log_bind_ok {action : Action σ α} {s t : σ} {a : α}
    (h : effect action s = (.ok a, t)) (next : α → Action σ β) :
    log (action >>= next) s = log action s ++ log (next a) t := by
  have hvalue : (action.run.run s).value = (.ok a, t) := h
  simp only [log, ExceptT.run_bind, StateT.run_bind, Logged.log_bind, hvalue]

theorem log_bind_error {action : Action σ α} {s t : σ} {error : Error}
    (h : effect action s = (.error error, t)) (next : α → Action σ β) :
    log (action >>= next) s = log action s := by
  have hvalue : (action.run.run s).value = (.error error, t) := h
  simp only [log, ExceptT.run_bind, StateT.run_bind, Logged.log_bind, hvalue]
  exact List.append_nil _

end Action

open TreeLang.Action

namespace Visitor

variable {σ : Type}

-- No hook of the visitor writes to the log.
structure Quiet (visitor : Visitor σ) : Prop where
  setUp : ∀ s, log visitor.setUp s = []
  call : ∀ c s, log (visitor.call c) s = []
  cleanUp : ∀ s, log visitor.cleanUp s = []

variable (visitor : Visitor σ)

theorem effect_traverse_marks (marks : List Mark) (rest : List Step) (s : σ) :
    effect (visitor.traverse (marks.map Mark.step ++ rest)) s =
      effect (visitor.traverse rest) s := by
  induction marks with
  | nil => rfl
  | cons mark more ih => exact ih

theorem log_traverse_marks (marks : List Mark) (rest : List Step) (s : σ) :
    log (visitor.traverse (marks.map Mark.step ++ rest)) s =
      marks.map Mark.entry ++ log (visitor.traverse rest) s := by
  induction marks with
  | nil => rfl
  | cons mark more ih => exact congrArg (mark.entry :: ·) ih

variable {visitor}

theorem Quiet.log_traverse_call_ok (h : visitor.Quiet) {c : Call} {s t : σ}
    (hcall : effect (visitor.call c) s = (.ok (), t)) (rest : List Step) :
    log (visitor.traverse (.call c :: rest)) s = log (visitor.traverse rest) t := by
  have hlog := log_bind_ok hcall fun _ => visitor.traverse rest
  rw [h.call] at hlog
  exact hlog

theorem Quiet.log_traverse_call_error (h : visitor.Quiet) {c : Call} {s t : σ} {error : Error}
    (hcall : effect (visitor.call c) s = (.error error, t)) (rest : List Step) :
    log (visitor.traverse (.call c :: rest)) s = [] := by
  have hlog := log_bind_error hcall fun _ => visitor.traverse rest
  rw [h.call] at hlog
  exact hlog

end Visitor

-- What is written about an exchange: right before a call in any case, and right after it if
-- it is granted.
def Exchange.marks (exchange : Exchange) : List Mark :=
  match exchange.signal, exchange.answer with
  | .call c, .ok () => c.heralds ++ c.sequels
  | .call c, .error _ => c.heralds
  | .setUp, _ | .cleanUp, _ => []

def written (exchanges : List Exchange) : List Mark :=
  exchanges.flatMap Exchange.marks

@[simp] theorem written_cons (exchange : Exchange) (rest : List Exchange) :
    written (exchange :: rest) = exchange.marks ++ written rest := rfl

@[simp] theorem written_append (xs ys : List Exchange) :
    written (xs ++ ys) = written xs ++ written ys :=
  List.flatMap_append

namespace Step

@[simp] theorem calls_marks (marks : List Mark) (rest : List Step) :
    calls (marks.map Mark.step ++ rest) = calls rest := by
  induction marks with
  | nil => rfl
  | cons mark more ih => exact ih

@[simp] theorem fault?_marks (marks : List Mark) (rest : List Step) :
    fault? (marks.map Mark.step ++ rest) = fault? rest := by
  induction marks with
  | nil => rfl
  | cons mark more ih => exact ih

end Step

-- How the exchanges about some steps end, with the blocks that are open then. All lines that
-- there are to write are written, unless the steps fail or a call is refused.
inductive Told (root : Node) (blocks : List Node) (calls : List Call) (fault : Option Error)
    (marks : List Mark) (blocks' : List Node) : List Exchange → Except Error Unit → Prop where
  | finished (hfault : fault = none) (hmarks : written (granted calls) = marks)
      (h : Bracketed blocks marks blocks') :
      Told root blocks calls fault marks blocks' (granted calls) (.ok ())
  | faulted {error : Error} {left : List Node} (hfault : fault = some error)
      (hmarks : written (granted calls) <+: marks)
      (h : Bracketed blocks (written (granted calls)) left) (hbreaks : Breaks root left error) :
      Told root blocks calls fault marks blocks' (granted calls) (.error error)
  | refused {before after : List Call} {c : Call} {error : Error}
      (hsplit : calls = before ++ c :: after)
      (hmarks : written (granted before ++ [⟨.call c, .error error⟩]) <+: marks)
      (h : Bracketed blocks (written (granted before ++ [⟨.call c, .error error⟩])) c.openBlocks) :
      Told root blocks calls fault marks blocks' (granted before ++ [⟨.call c, .error error⟩])
        (.error error)

theorem Told.cons {root : Node} {blocks between blocks' : List Node} {calls : List Call}
    {fault : Option Error} {marks : List Mark} {exchanges : List Exchange}
    {result : Except Error Unit} {c : Call}
    (hc : Bracketed blocks (c.heralds ++ c.sequels) between)
    (h : Told root between calls fault marks blocks' exchanges result) :
    Told root blocks (c :: calls) fault (c.heralds ++ c.sequels ++ marks) blocks'
      (⟨.call c, .ok ()⟩ :: exchanges) result := by
  cases h with
  | finished hfault hmarks h => exact .finished hfault (congrArg _ hmarks) (hc.append h)
  | faulted hfault hmarks h hbreaks =>
      exact .faulted hfault ((List.prefix_append_right_inj _).mpr hmarks) (hc.append h) hbreaks
  | @refused before after refused error hsplit hmarks h =>
      have hlonger : c :: calls = (c :: before) ++ refused :: after := congrArg (c :: ·) hsplit
      exact .refused hlonger ((List.prefix_append_right_inj _).mpr hmarks) (hc.append h)

theorem Narrates.told {σ : Type} {visitor : Visitor σ} (hquiet : visitor.Quiet) {root : Node}
    {blocks blocks' : List Node} {steps : List Step} {marks : List Mark}
    (h : Narrates root blocks steps marks blocks') (s : σ) (earlier : List Exchange) :
    ∃ exchanges,
      effect (visitor.audited.traverse steps) ⟨s, earlier⟩ =
        ((effect (visitor.traverse steps) s).1,
          ⟨(effect (visitor.traverse steps) s).2, earlier ++ exchanges⟩) ∧
      log (visitor.traverse steps) s = (written exchanges).map Mark.entry ∧
      Told root blocks (Step.calls steps) (Step.fault? steps) marks blocks' exchanges
        (effect (visitor.traverse steps) s).1 := by
  induction h generalizing s earlier with
  | nil blocks => exact ⟨[], by simp, rfl, .finished rfl rfl (.nil blocks)⟩
  | fail breaks steps marks blocks' =>
      exact ⟨[], by simp, rfl, .faulted rfl (List.nil_prefix) (.nil _) breaks⟩
  | @call blocks blocks' blocks'' steps marks c before after sound rest ih =>
      have heard := visitor.effect_audited_call s earlier c
      have hsilent := hquiet.call c s
      simp only [Visitor.effect_traverse_marks, Visitor.log_traverse_marks, Step.calls_marks,
        Step.fault?_marks, Step.calls, Step.fault?]
      rcases answered : effect (visitor.call c) s with ⟨error | _, t⟩
      · rw [answered] at heard
        rw [Visitor.effect_traverse_call_error answered, Visitor.effect_traverse_call_error heard,
          hquiet.log_traverse_call_error answered]
        refine ⟨[⟨.call c, .error error⟩], rfl, ?_, ?_⟩
        · simp [written, Exchange.marks]
        · have hwritten : written (granted [] ++ [⟨.call c, .error error⟩]) = c.heralds :=
            List.append_nil _
          refine .refused (List.nil_append _).symm ?_ ?_
          · rw [hwritten, List.append_assoc]
            exact List.prefix_append _ _
          · rw [hwritten]
            exact before
      · rw [answered] at heard
        rw [Visitor.effect_traverse_call_ok answered, Visitor.effect_traverse_call_ok heard,
          hquiet.log_traverse_call_ok answered]
        simp only [Visitor.effect_traverse_marks, Visitor.log_traverse_marks]
        obtain ⟨exchanges, hrun, hlog, htold⟩ := ih t (earlier ++ [⟨.call c, .ok ()⟩])
        refine ⟨⟨.call c, .ok ()⟩ :: exchanges, ?_, ?_, htold.cons (before.append after)⟩
        · rw [hrun, List.append_assoc]
          rfl
        · rw [hlog]
          simp [Exchange.marks]

theorem Visitor.Quiet.log_walk {σ : Type} {visitor : Visitor σ} (h : visitor.Quiet) {root : Node}
    {s t : σ} {traversed : Except Error Unit}
    (hrun : effect (do visitor.setUp; visitor.traverse root.steps) s = (traversed, t)) :
    log (walk visitor root) s = walkStarted root ::
      log (do visitor.setUp; visitor.traverse root.steps) s ++ [walkEnded root traversed] := by
  let traversal : Action σ Unit := do visitor.setUp; visitor.traverse root.steps
  have hlog : log (walk visitor root) s = walkStarted root :: (log traversal s ++
      (log visitor.cleanUp (effect traversal s).2 ++
        [walkEnded root (effect traversal s).1])) := rfl
  rw [hlog, h.cleanUp, hrun]
  rfl

-- How a walk ends that cleans up with this answer, and the blocks whose scopes are in effect
-- when it ends, the innermost first: none unless a rule is broken or a call is refused, and
-- then those on the way to where that is.
inductive Halted (root : Node) (last : Except Error Unit) :
    List Exchange → Except Error Unit → List Node → Prop where
  | unprepared (error : Error) :
      Halted root last [⟨.setUp, .error error⟩, ⟨.cleanUp, last⟩] (.error error) []
  | finished (hchecked : (typeCheck root).run.value = .ok ()) :
      Halted root last (⟨.setUp, .ok ()⟩ :: granted root.calls ++ [⟨.cleanUp, last⟩]) (.ok ()) []
  | faulted {error : Error} {path : List Node} {e : Expr}
      (hchecked : (typeCheck root).run.value = .error error) (hpath : root.Path path (.expr e))
      (hviolates : Site.Violates ⟨(path.filterMap Node.scope?).reverse, e⟩ error) :
      Halted root last (⟨.setUp, .ok ()⟩ :: granted root.calls ++ [⟨.cleanUp, last⟩])
        (.error error) (blocksOf path).reverse
  | refused {before after : List Call} {c : Call} {error : Error} {path : List Node} {node : Node}
      (hsplit : root.calls = before ++ c :: after) (hplaced : c.Placed root path node) :
      Halted root last
        (⟨.setUp, .ok ()⟩ :: (granted before ++ [⟨.call c, .error error⟩]) ++ [⟨.cleanUp, last⟩])
        (.error error) (blocksOf (c.moment.enclosing path)).reverse

theorem Call.Placed.openBlocks_eq {c : Call} {root node : Node} {path : List Node}
    (h : c.Placed root path node) :
    c.openBlocks = (blocksOf (c.moment.enclosing path)).reverse := by
  have hpath : c.context.path = path.reverse := by
    rw [← h.ancestry, Context.ancestry, List.reverse_reverse]
  rw [openBlocks, hpath, blocksOf, blocksOf, ← List.filter_reverse, Moment.enclosing]
  split
  · rw [List.tail_reverse]
  · rfl

theorem Told.halted {root : Node} {exchanges : List Exchange} {traversed : Except Error Unit}
    (h : Told root [] root.calls root.fault? (root.transcript []) [] exchanges traversed)
    (last : Except Error Unit) :
    written exchanges <+: root.transcript [] ∧
      (traversed = .ok () → written exchanges = root.transcript []) ∧
      ∃ active, Bracketed [] (written exchanges) active ∧
        Halted root last (⟨.setUp, .ok ()⟩ :: exchanges ++ [⟨.cleanUp, last⟩]) traversed
          active := by
  cases h with
  | finished hfault hmarks h =>
      have hchecked : (typeCheck root).run.value = .ok () := by
        rw [value_typeCheck, hfault]
        rfl
      rw [hmarks]
      exact ⟨List.prefix_rfl, fun _ => rfl, [], h, .finished hchecked⟩
  | @faulted error active hfault hmarks h hbreaks =>
      obtain ⟨path, e, hpath, rfl, hviolates⟩ := hbreaks
      have hchecked : (typeCheck root).run.value = .error error := by
        rw [value_typeCheck, hfault]
        rfl
      exact ⟨hmarks, (by simp), _, h, .faulted hchecked hpath hviolates⟩
  | @refused before after c error hsplit hmarks h =>
      have hcall : c ∈ root.calls := by simp [hsplit]
      obtain ⟨path, node, hbelow⟩ := root.call_below (Step.call_mem_of_mem_calls hcall)
      have hplaced := hbelow.placed
      rw [hplaced.openBlocks_eq] at h
      exact ⟨hmarks, (by simp), _, h, .refused hsplit hplaced⟩

theorem Narrates.sound {root : Node} {blocks blocks' : List Node} {steps : List Step}
    {marks : List Mark} (h : Narrates root blocks steps marks blocks') {c : Call}
    (hc : c ∈ Step.calls steps) : ∀ mark ∈ c.heralds ++ c.sequels, mark.Sound root := by
  induction h with
  | nil blocks => cases hc
  | fail breaks steps marks blocks' => cases hc
  | call called before after sound rest ih =>
      rw [Step.calls_marks, Step.calls, Step.calls_marks] at hc
      rcases List.mem_cons.mp hc with rfl | hc
      · exact sound
      · exact ih hc

theorem mem_written {mark : Mark} {exchanges : List Exchange} (h : mark ∈ written exchanges) :
    ∃ c answer, ⟨.call c, answer⟩ ∈ exchanges ∧ mark ∈ c.heralds ++ c.sequels := by
  obtain ⟨⟨signal, answer⟩, hexchange, hmark⟩ := List.mem_flatMap.mp h
  cases signal with
  | setUp => cases hmark
  | cleanUp => cases hmark
  | call c =>
      refine ⟨c, answer, hexchange, ?_⟩
      cases answer with
      | error error => exact List.mem_append_left _ hmark
      | ok value => exact hmark

-- The call that tells a visitor that operands agree.
def Exchange.agreed? (exchange : Exchange) : Option Node :=
  match exchange.signal with
  | .call c => if c.finishesBinary then some c.node else none
  | .setUp | .cleanUp => none

theorem Exchange.checked_marks (exchange : Exchange) :
    exchange.marks.filterMap Mark.checked? = exchange.agreed?.toList := by
  rcases exchange with ⟨signal, answer⟩
  cases signal with
  | setUp => rfl
  | cleanUp => rfl
  | call c =>
      rcases c with ⟨moment, e | f | m, context⟩
      · cases moment <;> cases e <;> cases answer <;> rfl
      · cases moment <;> cases answer <;> rfl
      · cases moment <;> cases answer <;> rfl

theorem written_checked (exchanges : List Exchange) :
    (written exchanges).filterMap Mark.checked? = exchanges.filterMap Exchange.agreed? := by
  induction exchanges with
  | nil => rfl
  | cons exchange rest ih =>
      rw [written_cons, List.filterMap_append, exchange.checked_marks, ih]
      cases h : exchange.agreed? <;> simp [h]

-- What is exchanged in a walk and what is written about it.
theorem walk_halted {σ : Type} {visitor : Visitor σ} (hquiet : visitor.Quiet) (root : Node)
    (s : σ) :
    ∃ exchanges traversed last active,
      effect (walk visitor.audited root) ⟨s, []⟩ =
        (traversed *> last, ⟨(effect (walk visitor root) s).2, exchanges⟩) ∧
      (effect (walk visitor root) s).1 = traversed *> last ∧
      log (walk visitor root) s =
        walkStarted root :: (written exchanges).map Mark.entry ++ [walkEnded root traversed] ∧
      Halted root last exchanges traversed active ∧
      Bracketed [] (written exchanges) active ∧
      written exchanges <+: root.transcript [] ∧
      (traversed = .ok () → written exchanges = root.transcript []) := by
  have heard := visitor.effect_audited_setUp s []
  have hsilent := hquiet.setUp s
  rcases answered : effect visitor.setUp s with ⟨error | _, t⟩
  · rw [answered] at heard
    let last := (effect visitor.cleanUp t).1
    have hlog : log (do visitor.setUp; visitor.traverse root.steps) s = [] := by
      rw [log_bind_error answered, hsilent]
    refine ⟨[⟨.setUp, .error error⟩, ⟨.cleanUp, last⟩], .error error, last, [], ?_, ?_, ?_,
      .unprepared error, .nil [], List.nil_prefix, by simp⟩
    · rw [effect_walk, effect_walk, effect_bind_error answered, effect_bind_error heard]
      rfl
    · rw [effect_walk, effect_bind_error answered]
    · rw [hquiet.log_walk (effect_bind_error answered _), hlog]
      rfl
  · rw [answered] at heard
    obtain ⟨exchanges, hrun, hwritten, htold⟩ :=
      root.steps_narrate.told hquiet t [⟨.setUp, .ok ()⟩]
    rcases htraversed : effect (visitor.traverse root.steps) t with ⟨traversed, u⟩
    rw [htraversed] at hrun htold
    let last := (effect visitor.cleanUp u).1
    obtain ⟨horder, hwhole, active, hbracketed, hhalted⟩ := htold.halted last
    have hlog : log (do visitor.setUp; visitor.traverse root.steps) s =
        (written exchanges).map Mark.entry := by
      rw [log_bind_ok answered, hsilent, hwritten, List.nil_append]
    have hall : written (⟨.setUp, .ok ()⟩ :: exchanges ++ [⟨.cleanUp, last⟩]) =
        written exchanges := by
      simp [written, Exchange.marks]
    refine ⟨_, traversed, last, active, ?_, ?_, ?_, hhalted, ?_, ?_, ?_⟩
    · rw [effect_walk, effect_walk, effect_bind_ok answered, effect_bind_ok heard,
        List.nil_append, hrun, htraversed]
      rfl
    · rw [effect_walk, effect_bind_ok answered, htraversed]
    · rw [hquiet.log_walk ((effect_bind_ok answered _).trans htraversed), hlog, hall]
    · rwa [hall]
    · rwa [hall]
    · rwa [hall]

-- The log of a walk with a visitor that writes none itself: a line at the start, one at the
-- end that tells how the traversal ended and, in between, the lines about the blocks and the
-- operands in the order of the tree, up to where the walk ends. They are well bracketed, and
-- the scopes that are entered and not left are those in effect at that place.
theorem walk_log_bracketed {σ : Type} {visitor : Visitor σ} (hquiet : visitor.Quiet) (root : Node)
    (s : σ) :
    (∃ exchanges traversed last active,
      effect (walk visitor.audited root) ⟨s, []⟩ =
        (traversed *> last, ⟨(effect (walk visitor root) s).2, exchanges⟩) ∧
      (effect (walk visitor root) s).1 = traversed *> last ∧
      log (walk visitor root) s =
        walkStarted root :: (written exchanges).map Mark.entry ++ [walkEnded root traversed] ∧
      Halted root last exchanges traversed active ∧
      Bracketed [] (written exchanges) active ∧
      ((written exchanges).filterMap Mark.entered?).Perm
        ((written exchanges).filterMap Mark.left? ++ active) ∧
      written exchanges <+: root.transcript [] ∧
      (traversed = .ok () → written exchanges = root.transcript []) ∧
      (written exchanges).filterMap Mark.checked? = exchanges.filterMap Exchange.agreed? ∧
      ∀ mark ∈ written exchanges, mark.Sound root) ∧
    (root.transcript []).filterMap Mark.entered? = blocksOf root.preorder ∧
    (root.transcript []).filterMap Mark.left? = blocksOf root.postorder ∧
    (root.transcript []).filterMap Mark.checked? = root.postorder.filter (·.kind = .binary) := by
  obtain ⟨exchanges, traversed, last, active, hrun, hresult, hlog, hhalted, hbracketed, hrest⟩ :=
    walk_halted hquiet root s
  have hperm := hbracketed.entered_perm
  rw [List.append_nil] at hperm
  refine ⟨⟨exchanges, traversed, last, active, hrun, hresult, hlog, hhalted, hbracketed, hperm,
    hrest.1, hrest.2, written_checked exchanges, fun mark hmark => ?_⟩,
    root.transcript_entered [], root.transcript_left [], root.transcript_checked []⟩
  obtain ⟨c, answer, hexchange, hmark⟩ := mem_written hmark
  obtain ⟨exchanges', hrun', hattended⟩ := visitor.audited_walk_attended s root
  rw [hrun, hresult] at hrun'
  obtain rfl : exchanges = exchanges' := congrArg (·.2.exchanges) hrun'
  exact root.steps_narrate.sound (hattended.call_mem hexchange) mark hmark

theorem typeChecker_quiet : typeChecker.Quiet where
  setUp _ := rfl
  call c n := by
    rcases c with ⟨moment, e | f | m, context⟩
    · cases moment <;> cases e <;> rfl
    · cases moment <;> rfl
    · cases moment <;> rfl
  cleanUp _ := rfl

-- Operands that do not agree, in the second of two blocks within the body of a function.
theorem walk_log_bracketed_mismatch :
    let x : Variable := ⟨⟨1⟩, "x", .float⟩
    let first : Expr := .block ⟨2⟩ ⟨[]⟩ [.int32 ⟨1⟩ 1]
    let second : Expr := .block ⟨6⟩ ⟨[]⟩ [.binary ⟨5⟩ .add (.int32 ⟨3⟩ 1) (.ref ⟨4⟩ x)]
    let root : Node := .function ⟨⟨8⟩, "f", .int32, ⟨[x]⟩, .block ⟨7⟩ ⟨[]⟩ [first, second]⟩
    typeChecker.Quiet ∧
    (log (walk typeChecker root) 0).map Entry.message =
      ["walking tree rooted at Function #8",
        "entered scope of block #7 (scope depth 2)",
        "entered scope of block #2 (scope depth 3)",
        "left scope of block #2",
        "entered scope of block #6 (scope depth 3)",
        "walk of Function #8 failed: BinaryExprDataTypeMismatch"] ∧
    ∃ exchanges traversed last active,
      log (walk typeChecker root) 0 =
        walkStarted root :: (written exchanges).map Mark.entry ++ [walkEnded root traversed] ∧
      Halted root last exchanges traversed active ∧ Bracketed [] (written exchanges) active := by
  intro x first second root
  obtain ⟨⟨exchanges, traversed, last, active, -, -, hlog, hhalted, hbracketed, -⟩, -⟩ :=
    walk_log_bracketed typeChecker_quiet root 0
  exact ⟨typeChecker_quiet, by decide +kernel, exchanges, traversed, last, active, hlog, hhalted,
    hbracketed⟩

end TreeLang

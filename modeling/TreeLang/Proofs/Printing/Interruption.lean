import TreeLang.Proofs.Printing.Reach
import TreeLang.Proofs.Walk.Audit

namespace TreeLang

open TreeLang.Action

namespace Sink

variable {ω : Type} {sink : Sink ω}

-- The state of the sink after pieces that are all accepted.
def feed (sink : Sink ω) (s : ω) (pieces : List String) : Option ω :=
  pieces.foldlM sink.write s

-- What a sink holds grows by what it accepts, and by nothing else.
def Holds (sink : Sink ω) (content : ω → List Char) : Prop :=
  ∀ s piece t, sink.write s piece = some t → content t = content s ++ piece.toList

-- A sink that keeps what another one accepts.
def keeping (sink : Sink ω) : Sink (ω × String) where
  write s piece := (sink.write s.1 piece).map fun t => (t, s.2 ++ piece)

theorem keeping_holds (sink : Sink ω) : sink.keeping.Holds fun s => s.2.toList := by
  intro s piece t h
  obtain ⟨u, -, rfl⟩ := Option.map_eq_some_iff.mp h
  exact String.toList_append

@[simp] theorem feed_nil (s : ω) : sink.feed s [] = some s := rfl

@[simp] theorem feed_cons (s : ω) (piece : String) (rest : List String) :
    sink.feed s (piece :: rest) = (sink.write s piece).bind fun t => sink.feed t rest := rfl

theorem feed_append (s : ω) (pieces more : List String) :
    sink.feed s (pieces ++ more) = (sink.feed s pieces).bind fun t => sink.feed t more :=
  List.foldlM_append

theorem Holds.feed {content : ω → List Char} (h : sink.Holds content) {s t : ω}
    {pieces : List String} (hfeed : sink.feed s pieces = some t) :
    content t = content s ++ pieces.flatMap String.toList := by
  induction pieces generalizing s with
  | nil =>
      obtain rfl := Option.some.inj hfeed
      simp
  | cons piece rest ih =>
      obtain ⟨u, hwrite, hrest⟩ := Option.bind_eq_some_iff.mp hfeed
      rw [ih hrest, h s piece u hwrite, List.flatMap_cons, List.append_assoc]

-- The sink takes these pieces up to one that it rejects.
structure Rejects (sink : Sink ω) (s : ω) (pieces written : List String) (t : ω) : Prop where
  accepted : sink.feed s written = some t
  rejected : ∃ piece unwritten, pieces = written ++ piece :: unwritten ∧ sink.write t piece = none

theorem feed_or_rejects (sink : Sink ω) (s : ω) (pieces : List String) :
    (∃ t, sink.feed s pieces = some t) ∨ ∃ written t, sink.Rejects s pieces written t := by
  induction pieces generalizing s with
  | nil => exact .inl ⟨s, rfl⟩
  | cons piece rest ih =>
      cases hwrite : sink.write s piece with
      | none => exact .inr ⟨[], s, rfl, piece, rest, rfl, hwrite⟩
      | some t =>
          rcases ih t with ⟨u, hu⟩ | ⟨written, u, haccepted, next, unwritten, rfl, hrejected⟩
          · exact .inl ⟨u, by simp [hwrite, hu]⟩
          · refine .inr ⟨piece :: written, u, by simp [hwrite, haccepted], next, unwritten, ?_⟩
            exact ⟨rfl, hrejected⟩

end Sink

-- The pieces in which a line is written.
def pieces (entry : Nat × Node) : List String :=
  [String.ofList (List.replicate entry.1 '\t'), entry.2.describe, "\n"]

theorem flatMap_pieces (entry : Nat × Node) :
    (pieces entry).flatMap String.toList = line entry.1 entry.2.describe := by
  simp [pieces, line]

-- The lines of these nodes.
def printout (entries : List (Nat × Node)) : List Char :=
  entries.flatMap fun entry => line entry.1 entry.2.describe

theorem flatMap_flatMap_pieces (entries : List (Nat × Node)) :
    (entries.flatMap pieces).flatMap String.toList = printout entries := by
  rw [List.flatMap_assoc]
  exact List.flatMap_congr fun entry _ => flatMap_pieces entry

def writeError (node : Node) : Error :=
  { cause := .invalidState "failed to write pretty-printed tree", node := some node.id }

section Writing

variable {ω : Type} {sink : Sink ω}

theorem effect_writeAll_of_feed {s t : ω} {pieces : List String}
    (h : sink.feed s pieces = some t) (node : NodeId) :
    effect (writeAll sink node pieces) s = (.ok (), t) := by
  induction pieces generalizing s with
  | nil =>
      obtain rfl := Option.some.inj h
      rfl
  | cons piece rest ih =>
      obtain ⟨u, hwrite, hrest⟩ := Option.bind_eq_some_iff.mp h
      simp only [writeAll, effect_bind, effect_get, hwrite, effect_set]
      exact ih hrest

theorem effect_writeAll_of_rejects {s t : ω} {pieces written : List String} {node : Node}
    (h : sink.Rejects s pieces written t) :
    effect (writeAll sink node.id pieces) s = (.error (writeError node), t) := by
  obtain ⟨haccepted, piece, unwritten, rfl, hrejected⟩ := h
  induction written generalizing s with
  | nil =>
      obtain rfl := Option.some.inj haccepted
      simp only [List.nil_append, writeAll, effect_bind, effect_get, hrejected]
      rfl
  | cons first rest ih =>
      obtain ⟨u, hwrite, hrest⟩ := Option.bind_eq_some_iff.mp haccepted
      simp only [List.cons_append, writeAll, effect_bind, effect_get, hwrite, effect_set]
      exact ih hrest

-- How the printing of the lines that come ends: all are written, and the walk ends as the
-- tree has it end, or a piece of one is rejected, and that ends it.
inductive Writes (sink : Sink ω) (s : ω) (entries : List (Nat × Node))
    (ending : Except Error Unit) : Except Error Unit × ω → Prop where
  | whole {t : ω} (hfeed : sink.feed s (entries.flatMap pieces) = some t) :
      Writes sink s entries ending (ending, t)
  | broken {before after : List (Nat × Node)} {entry : Nat × Node} {written : List String}
      {t u : ω} (hentries : entries = before ++ entry :: after)
      (hbefore : sink.feed s (before.flatMap pieces) = some t)
      (hrejects : sink.Rejects t (pieces entry) written u) :
      Writes sink s entries ending (.error (writeError entry.2), u)

theorem Writes.cons {s t : ω} {entry : Nat × Node} {entries : List (Nat × Node)}
    {ending : Except Error Unit} {outcome : Except Error Unit × ω}
    (hentry : sink.feed s (pieces entry) = some t) (h : Writes sink t entries ending outcome) :
    Writes sink s (entry :: entries) ending outcome := by
  cases h with
  | whole hfeed =>
      refine .whole ?_
      rw [List.flatMap_cons, Sink.feed_append, hentry]
      exact hfeed
  | @broken before after last written t u hentries hbefore hrejects =>
      have hlonger : entry :: entries = (entry :: before) ++ last :: after :=
        congrArg (entry :: ·) hentries
      refine .broken hlonger ?_ hrejects
      rw [List.flatMap_cons, Sink.feed_append, hentry]
      exact hbefore

theorem traverse_printer_writes (sink : Sink ω) (steps : List Step) (s : ω) :
    Writes sink s (Step.entered steps) (verdict (Step.fault? steps))
      (effect ((printer sink).traverse steps) s) := by
  induction steps generalizing s with
  | nil => exact .whole rfl
  | cons step rest ih =>
      cases step with
      | note entry => exact ih s
      | fail error => exact .whole rfl
      | call c =>
          rcases c with ⟨moment, node, context⟩
          by_cases hmoment : moment = .enter
          · subst hmoment
            have hcall : (printer sink).call ⟨.enter, node, context⟩ =
                writeAll sink node.id (pieces (context.depth - 1, node)) := rfl
            rw [Step.entered_enter]
            rcases sink.feed_or_rejects s (pieces (context.depth - 1, node)) with
              ⟨t, ht⟩ | ⟨written, t, hrejects⟩
            · have hline := effect_writeAll_of_feed ht node.id
              rw [← hcall] at hline
              rw [Visitor.effect_traverse_call_ok hline]
              exact (ih t).cons ht
            · have hline : effect (writeAll sink node.id (pieces (context.depth - 1, node))) s =
                  (.error (writeError node), t) := effect_writeAll_of_rejects hrejects
              rw [← hcall] at hline
              rw [Visitor.effect_traverse_call_error hline]
              exact .broken (List.nil_append _).symm rfl hrejects
          · have hcall : effect ((printer sink).call ⟨moment, node, context⟩) s = (.ok (), s) :=
              effect_printer_other hmoment s
            rw [Step.entered_call hmoment, Visitor.effect_traverse_call_ok hcall]
            exact ih s

theorem walk_printer_writes (sink : Sink ω) (root : Node) (s : ω) :
    Writes sink s root.entered (typeCheck root).run.value
      (effect (walk (printer sink) root) s) := by
  have hstart : effect (printer sink).setUp s = (.ok (), s) := rfl
  have hwrites : Writes sink s root.entered (verdict root.fault?) _ :=
    traverse_printer_writes sink root.steps s
  rw [effect_walk, effect_bind_ok hstart, value_typeCheck]
  rcases hrun : effect ((printer sink).traverse root.steps) s with ⟨traversed, t⟩
  rw [hrun] at hwrites
  have hend : effect (printer sink).cleanUp t = (.ok (), t) := rfl
  have hresult : traversed *> (.ok () : Except Error Unit) = traversed := by
    cases traversed <;> rfl
  simpa only [hend, hresult] using hwrites

-- What a sink holds then: the lines in order, and of a line that is broken the first pieces.
theorem Writes.content_eq {content : ω → List Char} (hsink : sink.Holds content) {s : ω}
    {entries : List (Nat × Node)} {ending : Except Error Unit} {outcome : Except Error Unit × ω}
    (h : Writes sink s entries ending outcome) :
    ∃ held, held <+: printout entries ∧ content outcome.2 = content s ++ held := by
  cases h with
  | whole hfeed =>
      refine ⟨_, List.prefix_rfl, ?_⟩
      rw [← flatMap_flatMap_pieces]
      exact hsink.feed hfeed
  | @broken before after entry written t u hentries hbefore hrejects =>
      obtain ⟨haccepted, piece, unwritten, hpieces, -⟩ := hrejects
      have hline : written.flatMap String.toList ++ (piece :: unwritten).flatMap String.toList =
          line entry.1 entry.2.describe := by
        rw [← List.flatMap_append, ← hpieces, flatMap_pieces]
      refine ⟨printout before ++ written.flatMap String.toList,
        ⟨(piece :: unwritten).flatMap String.toList ++ printout after, ?_⟩, ?_⟩
      · rw [List.append_assoc, ← List.append_assoc _ _ (printout after), hline, hentries, printout,
          printout, printout, List.flatMap_append, List.flatMap_cons]
      · rw [hsink.feed haccepted, hsink.feed hbefore, flatMap_flatMap_pieces, List.append_assoc]

end Writing

-- Whatever pieces a sink takes, a printing leaves in it the first of what a sink that takes
-- all of them would hold: the lines of the nodes that a walk comes to. If no piece is
-- rejected, that is all of it, and the printing ends as the type check does. If one is, the
-- printing ends there, and reports the node of the line instead of any rule that is broken.
theorem walk_printer_interrupted {ω : Type} {sink : Sink ω} {content : ω → List Char}
    (hsink : sink.Holds content) (root : Node) (s : ω) :
    (∃ held, held <+: printout root.entered ∧
      content (effect (walk (printer sink) root) s).2 = content s ++ held) ∧
    ((∃ t, sink.feed s (root.entered.flatMap pieces) = some t ∧
        content t = content s ++ printout root.entered ∧
        effect (walk (printer sink) root) s = ((typeCheck root).run.value, t)) ∨
      ∃ before entry after written t u, root.entered = before ++ entry :: after ∧
        sink.feed s (before.flatMap pieces) = some t ∧
        sink.Rejects t (pieces entry) written u ∧
        content u = content s ++ printout before ++ written.flatMap String.toList ∧
        effect (walk (printer sink) root) s = (.error (writeError entry.2), u)) ∧
    (∃ n, effect (walk typeChecker.audited root) ⟨0, []⟩ = ((typeCheck root).run.value,
      ⟨n, ⟨.setUp, .ok ()⟩ :: granted root.calls ++ [⟨.cleanUp, .ok ()⟩]⟩)) ∧
    root.Reached root.entered (typeCheck root).run.value := by
  have hwrites := walk_printer_writes sink root s
  have hchecker := Visitor.audited_walk_of_neverFails typeChecker_neverFails root 0
  rw [← value_typeCheck] at hchecker
  refine ⟨hwrites.content_eq hsink, ?_, hchecker, root.entered_reached⟩
  generalize effect (walk (printer sink) root) s = outcome at hwrites ⊢
  cases hwrites with
  | @whole t hfeed =>
      refine .inl ⟨t, hfeed, ?_, rfl⟩
      rw [hsink.feed hfeed, flatMap_flatMap_pieces]
  | @broken before after entry written t u hentries hbefore hrejects =>
      refine .inr ⟨before, entry, after, written, t, u, hentries, hbefore, hrejects, ?_, rfl⟩
      rw [hsink.feed hrejects.accepted, hsink.feed hbefore, flatMap_flatMap_pieces]

-- The operands do not agree, but the sink is full before the last line is written that the
-- type check would come to.
theorem walk_printer_interrupted_last_line :
    let x : Variable := ⟨⟨1⟩, "x", .float⟩
    let root : Node := .expr (.block ⟨4⟩ ⟨[x]⟩ [.binary ⟨3⟩ .add (.int32 ⟨1⟩ 1) (.ref ⟨2⟩ x)])
    let outcome := effect (walk (printer Sink.limited.keeping) root) (55, "> ")
    Sink.limited.keeping.Holds (fun s => s.2.toList) ∧
    (typeCheck root).run.value =
      .error { cause := .operandMismatch .int32 .float, node := some ⟨3⟩ } ∧
    outcome = (.error (writeError (.expr (.ref ⟨2⟩ x))),
      6, "> Block:(x:Float)\n\tBinary: Add\n\t\tLiteralInt32: 1\n\t\t") ∧
    (∃ held, held <+: printout root.entered ∧ outcome.2.2.toList = "> ".toList ++ held) ∧
    root.entered.map Prod.snd <+: root.preorder := by
  intro x root outcome
  have hsink := Sink.limited.keeping_holds
  obtain ⟨hheld, -, -, hreached⟩ := walk_printer_interrupted hsink root (55, "> ")
  exact ⟨hsink, by decide +kernel, by decide +kernel, hheld, hreached.order⟩

end TreeLang

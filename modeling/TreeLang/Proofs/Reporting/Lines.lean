import TreeLang.Proofs.Printing.Plain

namespace TreeLang

-- Text of one line.
def Unbroken (text : String) : Prop :=
  '\n' ∉ text.toList

instance (text : String) : Decidable (Unbroken text) :=
  inferInstanceAs (Decidable (¬ '\n' ∈ text.toList))

@[simp] theorem unbroken_append_iff {s t : String} :
    Unbroken (s ++ t) ↔ Unbroken s ∧ Unbroken t := by
  simp only [Unbroken, String.toList_append, List.mem_append, not_or]

theorem Plain.unbroken {text : String} (h : Plain text) : Unbroken text :=
  fun hmem => (h _ hmem).1 rfl

@[simp] theorem unbroken_type (type : DataType) : Unbroken type.text :=
  (plain_type type).unbroken

namespace Text

theorem toString_text (text : String) : toString text = text := rfl

section Splitting

-- What a reader takes for the lines of a text.
def lines (text : String) : List String :=
  (text.toList.splitOn '\n').map String.ofList

theorem lines_ne_nil (text : String) : lines text ≠ [] := by
  simp [lines, List.splitOn_ne_nil]

theorem lines_of_unbroken {text : String} (h : Unbroken text) : lines text = [text] := by
  rw [lines, List.splitOn_eq_singleton h, List.map_singleton, String.ofList_toList]

theorem lines_append_newline (s t : String) : lines (s ++ "\n" ++ t) = lines s ++ lines t := by
  have hchars : (s ++ "\n" ++ t).toList = s.toList ++ '\n' :: t.toList := by simp
  rw [lines, hchars, List.splitOn_append_cons_self, List.map_append, lines, lines]

-- Whatever follows it, text of one line begins the first one.
theorem lines_append {s : String} (h : Unbroken s) (t : String) :
    ∃ rest others, lines (s ++ t) = (s ++ rest) :: others := by
  have hchars : ∀ chars : List Char, '\n' ∉ chars →
      ∃ rest others, (chars ++ t.toList).splitOn '\n' = (chars ++ rest) :: others := by
    intro chars hchars
    induction chars with
    | nil => exact List.exists_cons_of_ne_nil (List.splitOn_ne_nil '\n' t.toList)
    | cons c chars ih =>
        obtain ⟨hc, hrest⟩ := not_or.mp (mt List.mem_cons.mpr hchars)
        obtain ⟨rest, others, hsplit⟩ := ih hrest
        refine ⟨rest, others, ?_⟩
        rw [List.cons_append, List.splitOn_cons_eq_if_modifyHead, hsplit]
        simp [Ne.symm hc]
  obtain ⟨rest, others, hsplit⟩ := hchars s.toList h
  refine ⟨String.ofList rest, others.map String.ofList, ?_⟩
  rw [lines, String.toList_append, hsplit]
  simp

theorem lines_intercalate {texts : List String} (hne : texts ≠ []) :
    lines ("\n".intercalate texts) = texts.flatMap lines := by
  induction texts with
  | nil => exact absurd rfl hne
  | cons text rest ih =>
      cases rest with
      | nil => simp
      | cons next rest =>
          have hrest := ih (List.cons_ne_nil _ _)
          rw [String.intercalate_cons_cons, lines_append_newline, hrest]
          rfl

-- Broken text is read as more than one line.
theorem one_lt_length_lines {text : String} (h : ¬ Unbroken text) : 1 < (lines text).length := by
  obtain ⟨before, after, hsplit⟩ := List.append_of_mem (Decidable.not_not.mp h)
  have hbefore := List.length_pos_iff.mpr (List.splitOn_ne_nil '\n' before)
  have hafter := List.length_pos_iff.mpr (List.splitOn_ne_nil '\n' after)
  rw [lines, hsplit, List.splitOn_append_cons_self, List.length_map, List.length_append]
  omega

theorem length_le_flatMap_lines (texts : List String) :
    texts.length ≤ (texts.flatMap lines).length := by
  induction texts with
  | nil => exact Nat.le_refl 0
  | cons text rest ih =>
      have hfirst := List.length_pos_iff.mpr (lines_ne_nil text)
      rw [List.flatMap_cons, List.length_append, List.length_cons]
      omega

theorem length_lt_flatMap_lines {texts : List String} (h : ∃ text ∈ texts, ¬ Unbroken text) :
    texts.length < (texts.flatMap lines).length := by
  obtain ⟨text, htext, hbroken⟩ := h
  obtain ⟨before, after, rfl⟩ := List.append_of_mem htext
  have htwo := one_lt_length_lines hbroken
  have hbefore := length_le_flatMap_lines before
  have hafter := length_le_flatMap_lines after
  simp only [List.flatMap_append, List.flatMap_cons, List.length_append, List.length_cons]
  omega

-- Texts that are put together as lines are read back if none of them is broken.
theorem flatMap_lines_eq_iff {texts : List String} :
    texts.flatMap lines = texts ↔ ∀ text ∈ texts, Unbroken text := by
  constructor
  · intro hsame text htext
    by_contra hbroken
    have hlonger := length_lt_flatMap_lines ⟨text, htext, hbroken⟩
    rw [hsame] at hlonger
    exact Nat.lt_irrefl _ hlonger
  · intro h
    rw [List.flatMap_congr fun text htext => lines_of_unbroken (h text htext)]
    simp

end Splitting

section Quoting

theorem newline_notMem_toDigits (n : Nat) : '\n' ∉ Nat.toDigits 16 n := by
  have hdigit : ∀ d < 16, Nat.digitChar d ≠ '\n' := by decide
  induction n using Nat.strongRecOn with
  | ind n ih =>
      rw [Nat.toDigits_eq_if (by decide)]
      split
      · rename_i hsmall
        simp [(hdigit n hsmall).symm]
      · have hrest := ih (n / 16) (by omega)
        have hlast := hdigit (n % 16) (Nat.mod_lt _ (by decide))
        simp [hrest, hlast.symm]

theorem newline_notMem_escape (c : Char) : '\n' ∉ escape c := by
  by_cases hc : c = '\n'
  · subst hc
    decide
  · unfold escape
    split
    all_goals try decide
    split
    · simp [hexadecimal, newline_notMem_toDigits]
    · simpa using Ne.symm hc

-- Whatever is quoted stays on one line.
@[simp] theorem unbroken_quoted (text : String) : Unbroken (quoted text) := by
  simp [Unbroken, quoted, newline_notMem_escape]

end Quoting

end Text

-- The texts that an error shows as they are. Names are among them, as a tip shows them
-- so, while the message has them quoted.
def Cause.raw : Cause → List String
  | undeclaredVariable name | shadowedVariable name | redeclaredVariable name
  | redeclaredFunction name | missingEntryPoint name => [name]
  | unhandledCase text | invalidState text | nativeTarget text | backend text => [text]
  | invalidArgument argument reason => [argument, reason]
  | _ => []

-- All else in a tip or a message is on one line.
theorem Cause.unbroken_iff {cause : Cause} :
    (∀ tip ∈ cause.tip?, Unbroken tip) ∧ Unbroken cause.message ↔
      ∀ text ∈ cause.raw, Unbroken text := by
  -- The equations of the message are not used, as their texts are too long to compare.
  delta Cause.message
  cases cause <;>
    simp only [tip?, raw, Text.toString_text, unbroken_append_iff, unbroken_type,
      Text.unbroken_quoted, Option.mem_def, reduceCtorEq, Option.some.injEq, forall_eq',
      false_imp_iff, implies_true, true_and, and_true, List.forall_mem_cons] <;>
    simp [Unbroken]

theorem Cause.unbroken_name (cause : Cause) : Unbroken cause.name := by
  cases cause <;> simp [Unbroken, name]

namespace Error

-- The lines a report is made of: what is wrong with the advice there is, where there is a
-- node the place, and the message.

def heading (error : Error) : String :=
  "Error: " ++ error.cause.name ++ error.cause.tip?.elim "" fun tip => " (" ++ tip ++ ")"

def lines (error : Error) : List String :=
  error.heading :: error.node.toList.map (fun node => "-> at node " ++ node.text) ++
    ["   " ++ error.cause.message]

-- A report keeps its lines if these are what is read off it.
def Kept (error : Error) : Prop :=
  Text.lines error.report = error.lines

variable {error : Error}

theorem length_lines : error.lines.length = if error.node = none then 2 else 3 := by
  cases h : error.node <;> simp [lines, h]

theorem report_eq (error : Error) : error.report = "\n".intercalate error.lines := by
  have hplace : "\n-> at node " = "\n" ++ "-> at node " := rfl
  have hmessage : "\n   " = "\n" ++ "   " := rfl
  rcases error with ⟨cause, _ | node⟩ <;> cases htip : cause.tip? <;>
    simp only [report, lines, heading, htip, Text.toString_text, hplace, hmessage,
      Option.elim_none, Option.elim_some, Option.toList_none, Option.toList_some, List.map_nil,
      List.map_cons, String.append_assoc, String.append_empty, List.cons_append, List.nil_append,
      String.intercalate_cons_cons, String.intercalate_singleton]

theorem lines_report (error : Error) :
    Text.lines error.report = error.lines.flatMap Text.lines := by
  have hne : error.lines ≠ [] := List.cons_ne_nil _ _
  rw [report_eq, Text.lines_intercalate hne]

theorem unbroken_title (error : Error) : Unbroken ("Error: " ++ error.cause.name) :=
  unbroken_append_iff.mpr ⟨by decide, error.cause.unbroken_name⟩

theorem unbroken_heading_iff :
    Unbroken error.heading ↔ ∀ tip ∈ error.cause.tip?, Unbroken tip := by
  rw [heading, unbroken_append_iff, and_iff_right error.unbroken_title]
  cases error.cause.tip? with
  | none => simp [Unbroken]
  | some tip =>
      have hopen : Unbroken " (" := by decide
      have hclose : Unbroken ")" := by decide
      simp [hopen, hclose]

theorem unbroken_place (node : NodeId) : Unbroken ("-> at node " ++ node.text) := by
  have hindex : Unbroken (toString node.index) := (plain_nat node.index.toNat).unbroken
  simp only [NodeId.text, unbroken_append_iff]
  exact ⟨by decide, by decide, hindex⟩

theorem unbroken_lines_iff :
    (∀ line ∈ error.lines, Unbroken line) ↔ ∀ text ∈ error.cause.raw, Unbroken text := by
  have hplaces : ∀ line ∈ error.node.toList.map (fun node => "-> at node " ++ node.text),
      Unbroken line := List.forall_mem_map.mpr fun node _ => unbroken_place node
  have hindent : Unbroken "   " := by decide
  rw [lines, List.forall_mem_append, List.forall_mem_cons, List.forall_mem_singleton,
    unbroken_heading_iff, and_iff_left hplaces, unbroken_append_iff, and_iff_right hindent,
    Cause.unbroken_iff]

theorem kept_iff : error.Kept ↔ ∀ text ∈ error.cause.raw, Unbroken text := by
  rw [Kept, lines_report, Text.flatMap_lines_eq_iff, unbroken_lines_iff]

-- What is not kept has lines too many.
theorem length_lt_of_not_kept (h : ¬ error.Kept) :
    error.lines.length < (Text.lines error.report).length := by
  rw [Kept, lines_report, Text.flatMap_lines_eq_iff] at h
  rw [lines_report]
  exact Text.length_lt_flatMap_lines (by simpa using h)

-- The name of the error comes first, whatever comes after it.
theorem lines_report_head (error : Error) :
    ∃ rest others,
      Text.lines error.report = ("Error: " ++ error.cause.name ++ rest) :: others := by
  obtain ⟨rest, others, hfirst⟩ := Text.lines_append error.unbroken_title
    (error.cause.tip?.elim "" fun tip => " (" ++ tip ++ ")")
  have hlines : Text.lines error.report = Text.lines error.heading ++ _ :=
    error.lines_report.trans List.flatMap_cons
  rw [hlines, heading, hfirst]
  exact ⟨rest, _, rfl⟩

end Error

end TreeLang

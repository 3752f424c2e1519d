import Mathlib.Data.List.Nodup
import TreeLang.Identifier

namespace TreeLang

-- The underscore counts as a letter, and letters outside ASCII do not.
def Letter (c : Char) : Prop :=
  ('a' ≤ c ∧ c ≤ 'z') ∨ ('A' ≤ c ∧ c ≤ 'Z') ∨ c = '_'

def Digit (c : Char) : Prop :=
  '0' ≤ c ∧ c ≤ '9'

-- A name that may be declared: a letter, and then letters and digits.
def Identifier (name : String) : Prop :=
  ∃ first rest, name.toList = first :: rest ∧ Letter first ∧ ∀ c ∈ rest, Letter c ∨ Digit c

theorem startsIdentifier_iff {c : Char} : startsIdentifier c = true ↔ Letter c := by
  have hlower : c.isLower = true ↔ 'a' ≤ c ∧ c ≤ 'z' :=
    Bool.and_eq_true_iff.trans (and_congr decide_eq_true_iff decide_eq_true_iff)
  have hupper : c.isUpper = true ↔ 'A' ≤ c ∧ c ≤ 'Z' := decide_eq_true_iff
  have halpha : c.isAlpha = true ↔ c.isUpper = true ∨ c.isLower = true := Bool.or_eq_true_iff
  rw [startsIdentifier, Bool.or_eq_true, halpha, hlower, hupper, beq_iff_eq, Letter, or_assoc]
  exact or_left_comm

theorem continuesIdentifier_iff {c : Char} :
    continuesIdentifier c = true ↔ Letter c ∨ Digit c := by
  have hdigit : c.isDigit = true ↔ Digit c := by
    simp [Digit, Char.isDigit, Char.le_def]
  rw [← startsIdentifier_iff, ← hdigit]
  simp only [continuesIdentifier, startsIdentifier, Char.isAlphanum, Bool.or_eq_true]
  exact or_right_comm

theorem isIdentifier_iff {name : String} : isIdentifier name = true ↔ Identifier name := by
  unfold isIdentifier Identifier
  cases name.toList with
  | nil => simp
  | cons first rest =>
      simp only [Bool.and_eq_true, List.all_eq_true, startsIdentifier_iff, continuesIdentifier_iff]
      constructor
      · intro h
        exact ⟨first, rest, rfl, h⟩
      · rintro ⟨_, _, heq, h⟩
        cases heq
        exact h

theorem isIdentifier_of_ok {argument name : String} (h : checkIdentifier argument name = .ok ()) :
    isIdentifier name = true := by
  cases hname : isIdentifier name with
  | true => rfl
  | false => simp [checkIdentifier, hname] at h

theorem isIdentifier_of_error {argument name : String} {error : Error}
    (h : checkIdentifier argument name = .error error) : isIdentifier name = false := by
  cases hname : isIdentifier name with
  | true => simp [checkIdentifier, hname] at h
  | false => rfl

-- Where names are distinct, looking one up finds what bears it and nothing else.
theorem find?_name_eq_some_iff {α : Type} {name : α → String} {xs : List α}
    (h : (xs.map name).Nodup) {key : String} {x : α} :
    xs.find? (fun y => decide (name y = key)) = some x ↔ x ∈ xs ∧ name x = key := by
  constructor
  · intro hfound
    exact ⟨List.mem_of_find?_eq_some hfound, by simpa using List.find?_some hfound⟩
  · rintro ⟨hx, rfl⟩
    cases hfound : xs.find? (fun y => decide (name y = name x)) with
    | none =>
        have hnone := List.find?_eq_none.mp hfound x hx
        simp at hnone
    | some y =>
        have hname : name y = name x := by simpa using List.find?_some hfound
        rw [List.inj_on_of_nodup_map h (List.mem_of_find?_eq_some hfound) hx hname]

end TreeLang

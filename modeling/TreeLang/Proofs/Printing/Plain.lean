import TreeLang.Print
import TreeLang.Proofs.Builder.Regularity
import TreeLang.Proofs.Static.Sites

namespace TreeLang

-- Text that neither ends a line nor indents one.
def Plain (text : String) : Prop :=
  ∀ c ∈ text.toList, c ≠ '\n' ∧ c ≠ '\t'

instance (text : String) : Decidable (Plain text) :=
  List.decidableBAll (fun c => c ≠ '\n' ∧ c ≠ '\t') text.toList

@[simp] theorem plain_append_iff {s t : String} : Plain (s ++ t) ↔ Plain s ∧ Plain t := by
  simp only [Plain, String.toList_append, List.forall_mem_append]

theorem plain_intercalate {separator : String} {texts : List String}
    (hseparator : Plain separator) (htexts : ∀ text ∈ texts, Plain text) :
    Plain (separator.intercalate texts) := by
  induction texts with
  | nil => simp [Plain]
  | cons text rest ih =>
      obtain ⟨htext, hrest⟩ := List.forall_mem_cons.mp htexts
      cases rest with
      | nil => simpa using htext
      | cons next rest => simpa [htext, hseparator] using ih hrest

section Numerals

theorem plain_of_isDigit {text : String} (h : ∀ c ∈ text.toList, c.isDigit = true) :
    Plain text := by
  intro c hc
  have hdigit := h c hc
  constructor <;> rintro rfl <;> exact absurd hdigit (by decide)

theorem plain_nat (n : Nat) : Plain (toString n) := by
  refine plain_of_isDigit fun c hc => ?_
  have hmem : c ∈ Nat.toDigits 10 n := by simpa [Nat.repr] using hc
  exact Nat.isDigit_of_mem_toDigits (by decide) (by decide) hmem

theorem plain_int32 (n : Int32) : Plain (toString n) := by
  have hint : Plain (toString n.toInt) := by
    cases n.toInt with
    | ofNat m => exact plain_nat m
    | negSucc m => exact plain_append_iff.mpr ⟨by decide, plain_nat (m + 1)⟩
  exact hint

open Decimal

theorem plain_pointed (places n : Nat) : Plain (pointed places n) := by
  have hzeros : ∀ k, Plain (String.ofList (List.replicate k '0')) := by
    intro k
    refine plain_of_isDigit fun c hc => ?_
    rw [String.toList_ofList] at hc
    rw [List.eq_of_mem_replicate hc]
    decide
  simp only [pointed, plain_append_iff]
  exact ⟨⟨⟨plain_nat _, by decide⟩, hzeros _⟩, plain_nat _⟩

theorem plain_signed {negative : Bool} {text : String} (h : Plain text) :
    Plain (signed negative text) := by
  cases negative with
  | false => exact h
  | true => exact plain_append_iff.mpr ⟨by decide, h⟩

theorem plain_fixed (layout : Layout) (places word : Nat) : Plain (fixed layout places word) := by
  rw [fixed]
  cases layout.read word with
  | nan => exact (by decide : Plain "NaN")
  | infinite negative => exact plain_signed (by decide)
  | finite negative units => exact plain_signed (plain_pointed _ _)

end Numerals

theorem Identifier.plain {name : String} (h : Identifier name) : Plain name := by
  obtain ⟨first, rest, hname, hfirst, hrest⟩ := h
  have hall : ∀ c ∈ name.toList, Letter c ∨ Digit c := by
    rw [hname]
    exact List.forall_mem_cons.mpr ⟨.inl hfirst, hrest⟩
  intro c hc
  constructor <;> rintro rfl <;> exact absurd (hall _ hc) (by unfold Letter Digit; decide)

theorem plain_type (type : DataType) : Plain type.text := by
  cases type <;> decide

theorem plain_operation (operation : Operation) : Plain operation.text := by
  cases operation <;> decide

theorem Scope.Regular.plain {scope : Scope} (h : scope.Regular) : Plain scope.text := by
  have hvariables : ∀ text ∈ scope.sorted.map Variable.text, Plain text := by
    intro text htext
    obtain ⟨v, hv, rfl⟩ := List.mem_map.mp htext
    have hname := (h.named v ((List.mergeSort_perm ..).mem_iff.mp hv)).plain
    simp only [Variable.text, plain_append_iff]
    exact ⟨⟨hname, by decide⟩, plain_type v.type⟩
  simp only [Scope.text, plain_append_iff]
  exact ⟨⟨by decide, plain_intercalate (by decide) hvariables⟩, by decide⟩

namespace Node

-- Whatever is regular, and reads or writes nothing but declared names, has a plain line.
theorem plain_describe {node : Node} (h : node.Regular)
    (hused : ∀ e v, node = .expr e → e.used? = some v → Identifier v.name) :
    Plain node.describe := by
  cases node with
  | expr e =>
      cases e with
      | int32 id value => exact plain_append_iff.mpr ⟨by decide, plain_int32 value⟩
      | float id value => exact plain_append_iff.mpr ⟨by decide, plain_fixed _ _ _⟩
      | ref id target => exact plain_append_iff.mpr ⟨by decide, (hused _ _ rfl rfl).plain⟩
      | binary id operation left right =>
          exact plain_append_iff.mpr ⟨by decide, plain_operation operation⟩
      | assign id target value =>
          exact plain_append_iff.mpr ⟨by decide, (hused _ _ rfl rfl).plain⟩
      | ret id value => exact (by decide : Plain "Return:")
      | conditional id condition truePart falsePart => exact (by decide : Plain "Conditional:")
      | block id scope children => exact plain_append_iff.mpr ⟨by decide, h.2.plain⟩
  | function f => exact plain_append_iff.mpr ⟨by decide, h.1.plain⟩
  | module m => exact plain_append_iff.mpr ⟨by decide, h.1.plain⟩

end Node

end TreeLang

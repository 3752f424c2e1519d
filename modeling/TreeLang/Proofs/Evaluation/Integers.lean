import Mathlib.Data.Int.ModEq
import TreeLang.Proofs.Evaluation.Refinement
import TreeLang.Proofs.Walk.Tour

namespace TreeLang

namespace Operation

-- The operation on unbounded integers. Quotients are left out: what a division gives is
-- not determined by what its operands are up to multiples of the word size.
def onInt? : Operation → Int → Int → Option Int
  | add, l, r => some (l + r)
  | sub, l, r => some (l - r)
  | mul, l, r => some (l * r)
  | div, _, _ => none

theorem onInt?_isSome {operation : Operation} (h : operation ≠ .div) (l r : Int) :
    ∃ z, operation.onInt? l r = some z := by
  cases operation with
  | div => exact absurd rfl h
  | _ => exact ⟨_, rfl⟩

theorem bmod_modEq (z : Int) : z.bmod (2 ^ 32) ≡ z [ZMOD 2 ^ 32] :=
  Int.bmod_emod

-- Wrapping commutes with the operations of the ring.
theorem onInt32_modEq {operation : Operation} {l r : Int32} {x y z : Int}
    (hl : l.toInt ≡ x [ZMOD 2 ^ 32]) (hr : r.toInt ≡ y [ZMOD 2 ^ 32])
    (h : operation.onInt? x y = some z) : (operation.onInt32 l r).toInt ≡ z [ZMOD 2 ^ 32] := by
  cases operation with
  | add =>
      obtain rfl := Option.some.inj h
      rw [onInt32, Int32.toInt_add]
      exact (bmod_modEq _).trans (hl.add hr)
  | sub =>
      obtain rfl := Option.some.inj h
      rw [onInt32, Int32.toInt_sub]
      exact (bmod_modEq _).trans (hl.sub hr)
  | mul =>
      obtain rfl := Option.some.inj h
      rw [onInt32, Int32.toInt_mul]
      exact (bmod_modEq _).trans (hl.mul hr)
  | div => cases h

theorem apply_eq_int32_iff {operation : Operation} {l r : Value} {id : NodeId} {n : Int32} :
    operation.apply l r id = .ok (.int32 n) ↔
      ∃ a b, l = .int32 a ∧ r = .int32 b ∧ (operation = .div → b ≠ 0) ∧
        n = operation.onInt32 a b := by
  cases l <;> cases r <;> grind [apply]

-- The one quotient that is no 32-bit integer wraps to its dividend.
theorem toInt_onInt32_div (a b : Int32) :
    (div.onInt32 a b).toInt =
      if a = Int32.minValue ∧ b = -1 then Int32.minValue.toInt else a.toInt.tdiv b.toInt := by
  rw [onInt32]
  split
  · rename_i h
    obtain ⟨rfl, rfl⟩ := h
    decide
  · rename_i h
    by_cases ha : a = Int32.minValue
    · exact Int32.toInt_div_of_ne_right a b fun hb => h ⟨ha, hb⟩
    · exact Int32.toInt_div_of_ne_left a b ha

end Operation

namespace Expr

-- Built from integers by these operations alone.
inductive Integral (allowed : Operation → Prop) : Expr → Prop where
  | int32 (id : NodeId) (value : Int32) : Integral allowed (int32 id value)
  | binary {id : NodeId} {operation : Operation} {left right : Expr} (hop : allowed operation)
      (hl : left.Integral allowed) (hr : right.Integral allowed) :
      Integral allowed (binary id operation left right)

-- The value over the unbounded integers, of what is built from integers by addition,
-- subtraction and multiplication.
def unbounded? : Expr → Option Int
  | int32 _ value => some value.toInt
  | binary _ operation left right => do
      operation.onInt? (← left.unbounded?) (← right.unbounded?)
  | _ => none

-- Evaluated on its own, the expression gives this integer.
def Yields (e : Expr) (n : Int32) : Prop :=
  (evaluateExpr e).run.value = .ok (.int32 n)

-- A division whose right operand is zero.
def DividesByZero (e : Expr) : Prop :=
  ∃ id left right, e = binary id .div left right ∧ right.Yields 0

theorem Yields.unique {e : Expr} {n n' : Int32} (h : e.Yields n) (h' : e.Yields n') : n = n' :=
  Value.int32.inj (Except.ok.inj (h.symm.trans h'))

-- The direct evaluation comes to this result, whatever is declared or stored, and neither
-- returns nor stores anything.
def Calculates (e : Expr) (result : Except Error Value) : Prop :=
  ∀ scopes, e.evaluateDirectly scopes = (do return .normal (← result) : Direct Ending)

theorem calculates_int32 (id : NodeId) (value : Int32) :
    (int32 id value).Calculates (.ok (.int32 value)) :=
  fun _ => rfl

theorem calculates_binary {id : NodeId} {operation : Operation} {left right : Expr}
    {l r : Except Error Value} (htypes : left.type = right.type) (hl : left.Calculates l)
    (hr : right.Calculates r) :
    (binary id operation left right).Calculates (do operation.apply (← l) (← r) id) := by
  intro scopes
  have hoperands : operandError? id left right = none := if_pos htypes
  simp only [evaluateDirectly, hl scopes, hr scopes, hoperands, obey, bind_assoc, pure_bind]
  cases l with
  | error error => rfl
  | ok l =>
      cases r with
      | error error => rfl
      | ok r => rfl

theorem Calculates.value {e : Expr} {result : Except Error Value} (h : e.Calculates result)
    (hsimulated : e.Simulated) : (evaluateExpr e).run.value = result := by
  rw [value_evaluateExpr, effect_evaluate_simulated {} hsimulated, h []]
  cases result <;> rfl

namespace Integral

variable {allowed : Operation → Prop} {e x : Expr} {id : NodeId} {operation : Operation}
  {left right : Expr}

theorem type (h : e.Integral allowed) : e.type = .int32 := by
  induction h with
  | int32 id value => rfl
  | binary hop hl hr _ ihr => exact ihr

theorem simulated (h : e.Integral allowed) : e.Simulated := by
  induction h with
  | int32 id value => exact simulated_int32 id value
  | binary hop hl hr ihl ihr => exact simulated_binary ihl ihr

theorem calculates (h : e.Integral allowed) : ∃ result, e.Calculates result := by
  induction h with
  | int32 id value => exact ⟨_, calculates_int32 id value⟩
  | binary hop hl hr ihl ihr =>
      obtain ⟨l, hl'⟩ := ihl
      obtain ⟨r, hr'⟩ := ihr
      exact ⟨_, calculates_binary (hl.type.trans hr.type.symm) hl' hr'⟩

-- Operands evaluate as they do on their own, since nothing is stored or returned.
theorem value_binary (h : (Expr.binary id operation left right).Integral allowed) :
    (evaluateExpr (.binary id operation left right)).run.value = (do
      let l ← (evaluateExpr left).run.value
      let r ← (evaluateExpr right).run.value
      operation.apply l r id) := by
  have hsimulated := h.simulated
  cases h with
  | binary hop hl hr =>
      obtain ⟨l, hleft⟩ := hl.calculates
      obtain ⟨r, hright⟩ := hr.calculates
      rw [hleft.value hl.simulated, hright.value hr.simulated]
      exact (calculates_binary (hl.type.trans hr.type.symm) hleft hright).value hsimulated

theorem yields_binary_iff (h : (Expr.binary id operation left right).Integral allowed)
    {n : Int32} :
    (Expr.binary id operation left right).Yields n ↔
      ∃ l r, left.Yields l ∧ right.Yields r ∧ (operation = .div → r ≠ 0) ∧
        n = operation.onInt32 l r := by
  rw [Yields, h.value_binary]
  constructor
  · intro hvalue
    cases hleft : (evaluateExpr left).run.value with
    | error error =>
        rw [hleft] at hvalue
        cases hvalue
    | ok l =>
        cases hright : (evaluateExpr right).run.value with
        | error error =>
            rw [hleft, hright] at hvalue
            cases hvalue
        | ok r =>
            rw [hleft, hright] at hvalue
            obtain ⟨a, b, rfl, rfl, hzero, rfl⟩ := Operation.apply_eq_int32_iff.mp hvalue
            exact ⟨a, b, hleft, hright, hzero, rfl⟩
  · rintro ⟨l, r, hleft, hright, hzero, rfl⟩
    rw [hleft, hright]
    exact Operation.apply_eq_int32_iff.mpr ⟨l, r, rfl, rfl, hzero, rfl⟩

-- The operands are evaluated before the quotient, so the division fails only where both
-- have a value.
theorem value_quotient_by_zero (h : (Expr.binary id .div left right).Integral allowed)
    {l : Int32} (hleft : left.Yields l) (hright : right.Yields 0) :
    (evaluateExpr (.binary id .div left right)).run.value =
      .error { cause := .divisionByZero, node := some id } := by
  rw [h.value_binary, hleft, hright]
  rfl

theorem of_mem_postorder (h : e.Integral allowed) (hx : x ∈ e.postorder) :
    x.Integral allowed := by
  induction h with
  | int32 id value =>
      obtain rfl := List.mem_singleton.mp hx
      exact .int32 id value
  | binary hop hl hr ihl ihr =>
      simp only [postorder, List.mem_append, List.mem_singleton] at hx
      rcases hx with (hx | hx) | rfl
      · exact ihl hx
      · exact ihr hx
      · exact .binary hop hl hr

-- Without division, the value over the unbounded integers is there, and the evaluation
-- gives what it wraps to.
theorem yields_modEq (h : e.Integral (· ≠ .div)) :
    ∃ z n, e.unbounded? = some z ∧ e.Yields n ∧ n.toInt ≡ z [ZMOD 2 ^ 32] := by
  induction h with
  | int32 id value =>
      exact ⟨value.toInt, value, rfl, (calculates_int32 id value).value (simulated_int32 id value),
        rfl⟩
  | @binary id operation left right hop hl hr ihl ihr =>
      obtain ⟨x, l, hx, hleft, hlx⟩ := ihl
      obtain ⟨y, r, hy, hright, hry⟩ := ihr
      obtain ⟨z, hz⟩ := Operation.onInt?_isSome hop x y
      refine ⟨z, operation.onInt32 l r, ?_, ?_, Operation.onInt32_modEq hlx hry hz⟩
      · simp [unbounded?, hx, hy, hz]
      · have hbinary : (Expr.binary id operation left right).Integral (· ≠ .div) :=
          .binary hop hl hr
        exact hbinary.yields_binary_iff.mpr
          ⟨l, r, hleft, hright, fun hdiv => absurd hdiv hop, rfl⟩

-- What has a value divides by something else than zero.
theorem not_dividesByZero (h : e.Integral allowed) {n : Int32} (hn : e.Yields n) :
    ¬ e.DividesByZero := by
  rintro ⟨id, left, right, rfl, hzero⟩
  obtain ⟨l, r, -, hright, hr, -⟩ := h.yields_binary_iff.mp hn
  exact hr rfl (hright.unique hzero)

end Integral

-- In post-order, nothing before this node divides by zero.
def Reaches (e x : Expr) : Prop :=
  ∃ before after, e.postorder = before ++ x :: after ∧ ∀ y ∈ before, ¬ y.DividesByZero

theorem Reaches.mem {e x : Expr} (h : e.Reaches x) : x ∈ e.postorder := by
  obtain ⟨before, after, horder, -⟩ := h
  simp [horder]

-- How an evaluation in post-order ends: everything has a value, or everything has up to a
-- first division by zero, which is to blame.
inductive Calculation (e : Expr) : Prop where
  | finished {n : Int32} (hn : e.Yields n) (hall : ∀ x ∈ e.postorder, ∃ n, x.Yields n)
  | stopped (before after : List Expr) (x : Expr) (horder : e.postorder = before ++ x :: after)
      (hbefore : ∀ y ∈ before, ∃ n, y.Yields n) (hx : x.DividesByZero)
      (hvalue : (evaluateExpr e).run.value =
        .error { cause := .divisionByZero, node := some x.id })

-- An operand that stops it, after what has a value, stops the whole.
theorem Calculation.of_operand {e operand x : Expr} {front back before after : List Expr}
    (horder : e.postorder = front ++ operand.postorder ++ back)
    (hfront : ∀ y ∈ front, ∃ n, y.Yields n) (hoperand : operand.postorder = before ++ x :: after)
    (hbefore : ∀ y ∈ before, ∃ n, y.Yields n) (hx : x.DividesByZero)
    (hvalue : (evaluateExpr e).run.value =
      .error { cause := .divisionByZero, node := some x.id }) : e.Calculation := by
  have hsplit : e.postorder = (front ++ before) ++ x :: (after ++ back) := by
    simp [horder, hoperand]
  exact .stopped _ _ x hsplit (List.forall_mem_append.mpr ⟨hfront, hbefore⟩) hx hvalue

theorem Integral.calculation {allowed : Operation → Prop} {e : Expr} (h : e.Integral allowed) :
    e.Calculation := by
  induction h with
  | int32 id value =>
      have hvalue : (Expr.int32 id value).Yields value :=
        (calculates_int32 id value).value (simulated_int32 id value)
      refine .finished hvalue fun x hx => ?_
      obtain rfl := List.mem_singleton.mp hx
      exact ⟨value, hvalue⟩
  | @binary id operation left right hop hl hr ihl ihr =>
      have hbinary : (Expr.binary id operation left right).Integral allowed := .binary hop hl hr
      have horder : (Expr.binary id operation left right).postorder =
          left.postorder ++ right.postorder ++ [Expr.binary id operation left right] := by
        rw [postorder]
      cases ihl with
      | stopped before after x hleft hbefore hx hvalue =>
          have hfirst : (Expr.binary id operation left right).postorder = [] ++ left.postorder ++
              (right.postorder ++ [Expr.binary id operation left right]) := by
            rw [horder, List.nil_append, List.append_assoc]
          refine .of_operand hfirst (by simp) hleft hbefore hx ?_
          rw [hbinary.value_binary, hvalue]
          rfl
      | @finished l hleft hall =>
          cases ihr with
          | stopped before after x hright hbefore hx hvalue =>
              refine .of_operand horder hall hright hbefore hx ?_
              rw [hbinary.value_binary, hleft, hvalue]
              rfl
          | @finished r hright hall' =>
              have hoperands := List.forall_mem_append.mpr ⟨hall, hall'⟩
              by_cases hzero : operation = .div ∧ r = 0
              · obtain ⟨rfl, rfl⟩ := hzero
                exact .stopped _ [] _ horder hoperands ⟨id, left, right, rfl, hright⟩
                  (hbinary.value_quotient_by_zero hleft hright)
              · have hyields := hbinary.yields_binary_iff.mpr
                  ⟨l, r, hleft, hright, fun hdiv hr => hzero ⟨hdiv, hr⟩, rfl⟩
                refine .finished hyields ?_
                rw [horder]
                exact List.forall_mem_append.mpr
                  ⟨hoperands, List.forall_mem_singleton.mpr ⟨_, hyields⟩⟩

namespace Integral

variable {allowed : Operation → Prop} {e x : Expr}

theorem not_dividesByZero_of_mem (h : e.Integral allowed) {stretch : List Expr}
    (hstretch : stretch ⊆ e.postorder) (hall : ∀ x ∈ stretch, ∃ n, x.Yields n) :
    ∀ x ∈ stretch, ¬ x.DividesByZero := by
  intro x hx
  obtain ⟨n, hn⟩ := hall x hx
  exact (h.of_mem_postorder (hstretch hx)).not_dividesByZero hn

-- What the evaluation comes to is before what it stops at, or is just that.
theorem yields_or_value_of_reaches (h : e.Integral allowed) (hx : e.Reaches x) :
    (∃ n, x.Yields n) ∨ x.DividesByZero ∧
      (evaluateExpr e).run.value =
        .error { cause := .divisionByZero, node := some x.id } := by
  cases h.calculation with
  | finished hn hall => exact .inl (hall x hx.mem)
  | stopped before' after' x' horder' hbefore' hx' hvalue =>
      obtain ⟨before, after, horder, hbefore⟩ := hx
      rcases splits_cases (horder.symm.trans horder') with hmem | hmem | ⟨-, rfl, -⟩
      · exact .inl (hbefore' x hmem)
      · exact absurd hx' (hbefore x' hmem)
      · exact .inr ⟨hx', hvalue⟩

theorem yields_of_reaches (h : e.Integral allowed) (hx : e.Reaches x) (hzero : ¬ x.DividesByZero) :
    ∃ n, x.Yields n :=
  (h.yields_or_value_of_reaches hx).resolve_right fun hstopped => hzero hstopped.1

theorem value_of_reaches (h : e.Integral allowed) (hx : e.Reaches x) (hzero : x.DividesByZero) :
    (evaluateExpr e).run.value = .error { cause := .divisionByZero, node := some x.id } := by
  rcases h.yields_or_value_of_reaches hx with ⟨n, hn⟩ | ⟨-, hvalue⟩
  · exact absurd hzero ((h.of_mem_postorder hx.mem).not_dividesByZero hn)
  · exact hvalue

theorem fails_iff (h : e.Integral allowed) :
    (∃ error, (evaluateExpr e).run.value = .error error) ↔
      ∃ x, e.Reaches x ∧ x.DividesByZero := by
  constructor
  · rintro ⟨error, herror⟩
    cases h.calculation with
    | finished hn hall => exact absurd (hn.symm.trans herror) (by simp)
    | stopped before after x horder hbefore hx hvalue =>
        have hclear : ∀ y ∈ before, ¬ y.DividesByZero :=
          h.not_dividesByZero_of_mem (by simp [horder]) hbefore
        exact ⟨x, ⟨before, after, horder, hclear⟩, hx⟩
  · rintro ⟨x, hreached, hx⟩
    exact ⟨_, h.value_of_reaches hreached hx⟩

end Integral

end Expr

-- Without division, an expression over integers has a value, and it is what the unbounded
-- calculation wraps to. With division, the first quotient by zero in post-order is to
-- blame, and everything else the evaluation comes to has the value its operands' values
-- call for: quotients are truncated toward zero.
theorem evaluateExpr_integers (e : Expr) :
    (e.Integral (· ≠ .div) →
      ∃ z n, e.unbounded? = some z ∧ e.Yields n ∧ n.toInt ≡ z [ZMOD 2 ^ 32]) ∧
    (e.Integral (fun _ => True) →
      ((∃ error, (evaluateExpr e).run.value = .error error) ↔
        ∃ x, e.Reaches x ∧ x.DividesByZero) ∧
      (∀ x, e.Reaches x → x.DividesByZero →
        (evaluateExpr e).run.value =
          .error { cause := .divisionByZero, node := some x.id }) ∧
      ∀ id operation left right, e.Reaches (.binary id operation left right) →
        (operation = .div → ¬ right.Yields 0) →
        ∃ a b n, left.Yields a ∧ right.Yields b ∧
          (Expr.binary id operation left right).Yields n ∧
          (∀ z, operation.onInt? a.toInt b.toInt = some z → n.toInt ≡ z [ZMOD 2 ^ 32]) ∧
          (operation = .div → b ≠ 0 ∧
            n.toInt = if a = Int32.minValue ∧ b = -1 then Int32.minValue.toInt
              else a.toInt.tdiv b.toInt)) := by
  refine ⟨Expr.Integral.yields_modEq,
    fun h => ⟨h.fails_iff, fun x hreached => h.value_of_reaches hreached, ?_⟩⟩
  intro id operation left right hreached hnonzero
  have hzero : ¬ (Expr.binary id operation left right).DividesByZero := by
    rintro ⟨_, _, _, heq, hright⟩
    obtain ⟨-, rfl, -, rfl⟩ := Expr.binary.inj heq
    exact hnonzero rfl hright
  obtain ⟨n, hn⟩ := h.yields_of_reaches hreached hzero
  obtain ⟨a, b, hleft, hright, hb, rfl⟩ :=
    (h.of_mem_postorder hreached.mem).yields_binary_iff.mp hn
  refine ⟨a, b, _, hleft, hright, hn, fun z hz => Operation.onInt32_modEq rfl rfl hz, ?_⟩
  rintro rfl
  exact ⟨hb rfl, Operation.toInt_onInt32_div a b⟩

-- The square wraps to zero, so the second quotient is to blame; the first one, the least
-- integer by -1, has a value.
theorem evaluateExpr_integers_overflow :
    ∃ square least quotient e : Expr,
      square = .binary ⟨3⟩ .mul (.int32 ⟨1⟩ 65536) (.int32 ⟨2⟩ 65536) ∧
      least = .binary ⟨6⟩ .div (.int32 ⟨4⟩ Int32.minValue) (.int32 ⟨5⟩ (-1)) ∧
      quotient = .binary ⟨8⟩ .div (.int32 ⟨7⟩ 7) square ∧
      e = .binary ⟨9⟩ .sub least quotient ∧
      (∃ z n, square.unbounded? = some z ∧ square.Yields n ∧ n.toInt ≡ z [ZMOD 2 ^ 32]) ∧
      (evaluateExpr e).run.value =
        .error { cause := .divisionByZero, node := some ⟨8⟩ } ∧
      ∃ a b n, (Expr.int32 ⟨4⟩ Int32.minValue).Yields a ∧ (Expr.int32 ⟨5⟩ (-1)).Yields b ∧
        least.Yields n ∧ n.toInt = if a = Int32.minValue ∧ b = -1 then
          Int32.minValue.toInt else a.toInt.tdiv b.toInt := by
  refine ⟨_, _, _, _, rfl, rfl, rfl, rfl, ?_⟩
  have hsquare : (Expr.binary ⟨3⟩ .mul (.int32 ⟨1⟩ 65536) (.int32 ⟨2⟩ 65536)).Yields 0 := rfl
  have hone : (Expr.int32 ⟨5⟩ (-1)).Yields (-1) := rfl
  have hnonzero : ¬ (Expr.int32 ⟨5⟩ (-1)).Yields 0 :=
    fun h => absurd (hone.unique h) (by decide)
  obtain ⟨-, hvalue, hoperations⟩ := (evaluateExpr_integers (.binary ⟨9⟩ .sub
    (.binary ⟨6⟩ .div (.int32 ⟨4⟩ Int32.minValue) (.int32 ⟨5⟩ (-1)))
    (.binary ⟨8⟩ .div (.int32 ⟨7⟩ 7)
      (.binary ⟨3⟩ .mul (.int32 ⟨1⟩ 65536) (.int32 ⟨2⟩ 65536))))).2
    (.binary trivial (.binary trivial (.int32 _ _) (.int32 _ _))
      (.binary trivial (.int32 _ _) (.binary trivial (.int32 _ _) (.int32 _ _))))
  refine ⟨(evaluateExpr_integers _).1 (.binary (by decide) (.int32 _ _) (.int32 _ _)), ?_, ?_⟩
  · refine hvalue (.binary ⟨8⟩ .div (.int32 ⟨7⟩ 7) _) ?_ ⟨_, _, _, rfl, hsquare⟩
    refine ⟨[.int32 ⟨4⟩ _, .int32 ⟨5⟩ _, .binary ⟨6⟩ .div _ _, .int32 ⟨7⟩ 7, .int32 ⟨1⟩ _,
      .int32 ⟨2⟩ _, .binary ⟨3⟩ .mul _ _], _, rfl, ?_⟩
    simpa [Expr.DividesByZero] using hnonzero
  · have hclear : ∀ x ∈ [Expr.int32 ⟨4⟩ Int32.minValue, .int32 ⟨5⟩ (-1)],
        ¬ x.DividesByZero := by
      simp [Expr.DividesByZero]
    obtain ⟨a, b, n, ha, hb, hn, -, hquotient⟩ :=
      hoperations ⟨6⟩ .div _ _ ⟨_, _, rfl, hclear⟩ fun _ => hnonzero
    exact ⟨a, b, n, ha, hb, hn, (hquotient rfl).2⟩

end TreeLang

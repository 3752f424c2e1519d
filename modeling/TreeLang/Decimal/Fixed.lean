namespace TreeLang.Decimal

-- The natural number nearest to the quotient; a half goes to the even neighbour.
def roundEven (num den : Nat) : Nat :=
  let quotient := num / den
  let twice := 2 * (num % den)
  if twice < den then quotient
  else if den < twice then quotient + 1
  else quotient + quotient % 2

-- The layout of a binary floating-point word: a sign bit, then the exponent
-- field, then the fraction field.
structure Layout where
  exponentBits : Nat
  fractionBits : Nat
deriving DecidableEq, Repr

def single : Layout := ⟨8, 23⟩

def double : Layout := ⟨11, 52⟩

-- What a word stands for. Every finite value is a natural multiple of the
-- smallest positive one, so the multiple gives its magnitude exactly.
inductive Reading where
  | nan
  | infinite (negative : Bool)
  | finite (negative : Bool) (units : Nat)
deriving DecidableEq, Repr

namespace Layout

-- The smallest positive value is one part in 2 ^ scale.
def scale (layout : Layout) : Nat :=
  Nat.pow 2 (layout.exponentBits - 1) - 2 + layout.fractionBits

-- An exponent field of all ones marks the infinities and NaN, one of zeros the
-- values whose leading bit is not implied.
def read (layout : Layout) (word : Nat) : Reading :=
  let fractions := Nat.pow 2 layout.fractionBits
  let exponents := Nat.pow 2 layout.exponentBits
  let fraction := word % fractions
  let exponent := word / fractions % exponents
  let negative := word / (fractions * exponents) % 2 == 1
  if exponent + 1 = exponents then
    if fraction = 0 then .infinite negative else .nan
  else if exponent = 0 then .finite negative fraction
  else .finite negative ((fractions + fraction) * Nat.pow 2 (exponent - 1))

end Layout

-- The numeral of n units of 10 ^ -places, with all its places written.
def pointed (places n : Nat) : String :=
  let unit := Nat.pow 10 places
  let whole := toString (n / unit)
  let rest := toString (n % unit)
  whole ++ "." ++ String.ofList (List.replicate (places - rest.length) '0') ++ rest

def signed (negative : Bool) (text : String) : String :=
  if negative then "-" ++ text else text

-- The exact value of a word with a fixed number of decimal places. The sign of
-- a value that rounds to zero stays, and NaN has no sign.
def fixed (layout : Layout) (places word : Nat) : String :=
  match layout.read word with
  | .nan => "NaN"
  | .infinite negative => signed negative "inf"
  | .finite negative units =>
      let rounded := roundEven (units * Nat.pow 10 places) (Nat.pow 2 layout.scale)
      signed negative (pointed places rounded)

end TreeLang.Decimal

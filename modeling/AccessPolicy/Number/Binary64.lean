/-! # Finite binary64 numbers

A finite double-precision number is a sign and a significand scaled by a power
of two. Its form is canonical: the significand has its full 53 bits unless the
exponent is the least one. The sign of zero is kept. Decimal numbers are rounded
to the nearest such number, a half going to the even significand; what exceeds
the largest one has no rounding.
-/

namespace AccessPolicy.Number

/-- Which significands and exponents form a number in its canonical form. -/
abbrev IsCanonical (significand : Nat) (exponent : Int) : Prop :=
  significand < Nat.pow 2 53 ∧ (significand < Nat.pow 2 52 → exponent = -1074) ∧
    -1074 ≤ exponent ∧ exponent ≤ 971

/-- The finite number `±significand · 2 ^ exponent`. -/
structure Binary64 where
  negative : Bool
  significand : Nat
  exponent : Int
  canonical : IsCanonical significand exponent
deriving DecidableEq

namespace Binary64

def zero (negative : Bool) : Binary64 :=
  ⟨negative, 0, -1074, by decide⟩

instance : Inhabited Binary64 := ⟨zero false⟩

/-- The number with these parts, unless they are not in canonical form. -/
def ofParts? (negative : Bool) (significand : Nat) (exponent : Int) : Option Binary64 :=
  if canonical : IsCanonical significand exponent then
    some ⟨negative, significand, exponent, canonical⟩
  else none

/-- The integer nearest to a quotient, a half going to the even neighbour. -/
def roundQuotient (numerator denominator : Nat) : Nat :=
  let floor := numerator / denominator
  let rest := numerator % denominator
  if 2 * rest < denominator then floor
  else if denominator < 2 * rest then floor + 1
  else floor + floor % 2

/-- A quotient with its value divided by a power of two. -/
def scaled (numerator denominator : Nat) (exponent : Int) : Nat × Nat :=
  (numerator * Nat.pow 2 (-exponent).toNat, denominator * Nat.pow 2 exponent.toNat)

/-- The exponent at which a positive quotient has a significand of 53 bits, or
the least one if that is larger. -/
def exponentOf (numerator denominator : Nat) : Int :=
  let below := max (-1074) ((numerator.log2 : Int) - denominator.log2 - 53)
  let (scaledNumerator, scaledDenominator) := scaled numerator denominator below
  if scaledNumerator / scaledDenominator < Nat.pow 2 53 then below else below + 1

/-- The number nearest to `±numerator / denominator`, or `none` when the
magnitude rounds beyond the largest one. -/
def ofQuotient? (negative : Bool) (numerator denominator : Nat) : Option Binary64 :=
  let exponent := exponentOf numerator denominator
  let (scaledNumerator, scaledDenominator) := scaled numerator denominator exponent
  let significand := roundQuotient scaledNumerator scaledDenominator
  if significand = Nat.pow 2 53 then ofParts? negative (Nat.pow 2 52) (exponent + 1)
  else ofParts? negative significand exponent

/-- The number nearest to `±digits · 10 ^ exponent`, or `none` when the magnitude
rounds beyond the largest one. Exponents far outside the range are decided
without computing the power. -/
def ofDecimal? (negative : Bool) (digits : Nat) (exponent : Int) : Option Binary64 :=
  if digits = 0 then some (zero negative)
  else if 400 < exponent then none
  else if (digits.log2 : Int) + 1 + 3 * exponent < -1100 then some (zero negative)
  else ofQuotient? negative (digits * Nat.pow 10 exponent.toNat) (Nat.pow 10 (-exponent).toNat)

end Binary64

end AccessPolicy.Number

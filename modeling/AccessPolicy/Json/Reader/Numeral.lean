import AccessPolicy.Json
import AccessPolicy.Json.Reader.Step
import AccessPolicy.Number.Digits
import AccessPolicy.Number.Scaling

/-! # Reading numbers

A number without fraction and exponent is an integer where it fits 64 bits, and
`-0` is not one. Every other number is a binary64 number: the leading digits, as
many as fit an unsigned word, make a significand, which is scaled by a power of
ten. It is a fault when that goes beyond the largest number.
-/

namespace AccessPolicy.Json

open Number

/-- The integer part: one zero, or digits that do not start with one. -/
def readInteger (input : List UInt8) : Step (List UInt8) input :=
  match input with
  | [] => faultBefore .endInValue []
  | first :: rest =>
    if !isDigit first then faultBefore .invalidNumber rest
    else if first = 48 then
      match rest with
      | [] => .ok ⟨[first], [], by simp⟩
      | next :: later =>
        if isDigit next then faultAfter .invalidNumber (next :: later)
        else .ok ⟨[first], next :: later, by simp⟩
    else
      .ok ⟨first :: (leadingDigits rest).1, (leadingDigits rest).2,
        Nat.lt_succ_of_le (length_leadingDigits rest)⟩

/-- The digits after a decimal point, none without a point. -/
def readFraction (input : List UInt8) : Except Fault (List UInt8 × Remainder input) :=
  match input with
  | 46 :: rest =>
    match (leadingDigits rest).1 with
    | [] =>
      match rest with
      | [] => faultBefore .endInValue []
      | _ => faultAfter .invalidNumber rest
    | digits =>
      .ok (digits, ⟨(leadingDigits rest).2, Nat.le_succ_of_le (length_leadingDigits rest)⟩)
  | other => .ok ([], ⟨other, Nat.le_refl _⟩)

def readSign (input : List UInt8) : Bool × Remainder input :=
  match input with
  | 43 :: rest => (false, ⟨rest, by simp⟩)
  | 45 :: rest => (true, ⟨rest, by simp⟩)
  | other => (false, ⟨other, Nat.le_refl _⟩)

/-- The largest exponent that is read without regard to the significand. -/
def greatestExponent : Nat :=
  2147483647

/-- How many of the digits are read before their number exceeds the largest
exponent. -/
def digitsUntilOverflow (digits : List UInt8) : Nat :=
  ((List.range digits.length).find? fun count =>
    greatestExponent < ofDigits (digits.take count)).getD digits.length

/-- The exponent, if there is one. An exponent too large to be represented is a
fault as soon as its digits show it, unless the number is zero all the same. -/
def readExponent (isZero : Bool) (input : List UInt8) :
    Except Fault (Option Int × Remainder input) :=
  match input with
  | [] => .ok (none, ⟨[], Nat.le_refl _⟩)
  | mark :: rest =>
    if mark = 101 ∨ mark = 69 then
      let (negative, ⟨rest, bound⟩) := readSign rest
      match rest with
      | [] => faultBefore .endInValue []
      | first :: later =>
        if !isDigit first then faultBefore .invalidNumber later
        else
          let digits := (leadingDigits (first :: later)).1
          let after := (leadingDigits (first :: later)).2
          let magnitude := ofDigits digits
          if greatestExponent < magnitude ∧ !negative ∧ !isZero then
            .error ⟨.numberOutOfRange, after.length + (digits.length - digitsUntilOverflow digits)⟩
          else
            .ok (some (if negative then -magnitude else magnitude), ⟨after,
              Nat.le_succ_of_le (Nat.le_trans (length_leadingDigits _) bound)⟩)
    else .ok (none, ⟨mark :: rest, Nat.le_refl _⟩)

/-- Adds digits to a significand as long as it fits an unsigned word of 64 bits, and
gives the digits left. -/
def takeDigits (significand : Nat) : List UInt8 → Nat × List UInt8
  | [] => (significand, [])
  | digit :: rest =>
    let longer := 10 * significand + (digit.toNat - 48)
    if longer < Nat.pow 2 64 then takeDigits longer rest else (significand, digit :: rest)

/-- The binary64 number with the given parts, or `none` when it is too large. Digits
left in front of the point count as places of the significand; digits left after it
do not count. -/
def floatOfParts? (negative : Bool) (integer fraction : List UInt8) (exponent : Int) :
    Option Binary64 :=
  let (whole, integerLeft) := takeDigits 0 integer
  let (significand, fractionLeft) := takeDigits whole fraction
  let places : Int := integerLeft.length + fractionLeft.length - fraction.length
  ((Binary64.ofNat? significand).bind (·.scale? (exponent + places))).map fun value =>
    { value with negative }

/-- The number with the given parts, or `none` when it is too large. -/
def Numeral.ofParts? (negative : Bool) (integer fraction : List UInt8) (exponent : Option Int) :
    Option Numeral :=
  let asFloat :=
    (floatOfParts? negative integer fraction (exponent.getD 0)).map Numeral.float
  match fraction, exponent with
  | [], none =>
    let magnitude := ofDigits integer
    if negative && magnitude == 0 then asFloat
    else
      match Integer64.ofInt? (if negative then -magnitude else magnitude) with
      | some n => some (.integer n)
      | none => asFloat
  | _, _ => asFloat

def readMinus (input : List UInt8) : Bool × Remainder input :=
  match input with
  | 45 :: rest => (true, ⟨rest, by simp⟩)
  | other => (false, ⟨other, Nat.le_refl _⟩)

def readNumeral (input : List UInt8) : Step Numeral input := do
  let (negative, ⟨start, startBound⟩) := readMinus input
  let ⟨integer, afterInteger, integerBound⟩ ← readInteger start
  let (fraction, ⟨afterFraction, fractionBound⟩) ← readFraction afterInteger
  let isZero := ofDigits (integer ++ fraction) == 0
  let (exponent, ⟨rest, exponentBound⟩) ← readExponent isZero afterFraction
  match Numeral.ofParts? negative integer fraction exponent with
  | some value =>
    return ⟨value, rest, Nat.lt_of_le_of_lt (Nat.le_trans exponentBound fractionBound)
      (Nat.lt_of_lt_of_le integerBound startBound)⟩
  | none => faultBefore .numberOutOfRange rest

end AccessPolicy.Json

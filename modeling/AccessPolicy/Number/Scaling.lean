import AccessPolicy.Number.Binary64

/-! # Scaling by powers of ten

Products and quotients of binary64 numbers are rounded to the nearest such number.
A number is scaled by a power of ten in rounded steps: the power is rounded first,
and the product or the quotient after it. Where both the number and the power are
exact there is one rounding only, and the outcome is the nearest number to the
exact one; elsewhere it may be a neighbour of that.
-/

namespace AccessPolicy.Number.Binary64

def ofNat? (n : Nat) : Option Binary64 :=
  ofDecimal? false n 0

def powerOfTen? (exponent : Nat) : Option Binary64 :=
  ofDecimal? false 1 exponent

/-- The exponent of the greatest power of ten that is not beyond the largest
number. -/
def greatestPower : Nat :=
  308

def times? (x y : Binary64) : Option Binary64 :=
  let exponent := x.exponent + y.exponent
  if x.significand = 0 ∨ y.significand = 0 then some (zero (x.negative != y.negative))
  else
    ofQuotient? (x.negative != y.negative)
      (x.significand * y.significand * Nat.pow 2 exponent.toNat) (Nat.pow 2 (-exponent).toNat)

/-- The number nearest to a quotient, or `none` beyond the largest one and for a
divisor that is zero. -/
def dividedBy? (x y : Binary64) : Option Binary64 :=
  let exponent := x.exponent - y.exponent
  if y.significand = 0 then none
  else if x.significand = 0 then some (zero (x.negative != y.negative))
  else
    ofQuotient? (x.negative != y.negative)
      (x.significand * Nat.pow 2 exponent.toNat) (y.significand * Nat.pow 2 (-exponent).toNat)

/-- A number divided several times by the greatest power of ten, until it is zero. -/
def divideDown? (x : Binary64) : Nat → Option Binary64
  | 0 => some x
  | count + 1 =>
    if x.significand = 0 then some x
    else ((powerOfTen? greatestPower).bind x.dividedBy?).bind (·.divideDown? count)

/-- A number scaled by a power of ten, or `none` beyond the largest one. A negative
exponent is worked off by divisions by the greatest power, with a smaller one last. -/
def scale? (x : Binary64) (exponent : Int) : Option Binary64 :=
  if 0 ≤ exponent then
    if x.significand = 0 then some x else (powerOfTen? exponent.toNat).bind x.times?
  else
    let count := (exponent.natAbs - 1) / greatestPower
    (x.divideDown? count).bind fun quotient =>
      (powerOfTen? (exponent.natAbs - count * greatestPower)).bind quotient.dividedBy?

end AccessPolicy.Number.Binary64

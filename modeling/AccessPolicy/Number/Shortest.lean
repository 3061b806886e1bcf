import AccessPolicy.Number.Binary64

/-! # Shortest decimals

The shortest decimal of a number is the one with the fewest digits among those
that round to it, and among those the nearest to it. A decimal rounds to a number
when it lies between the midpoints to the neighbours; the midpoints themselves
count when the significand is even. On a decimal grid with any point in that
interval, one of the two grid points around the number lies in it.
-/

namespace AccessPolicy.Number

/-- The decimal `digits · 10 ^ exponent`. -/
structure Decimal where
  digits : Nat
  exponent : Int
deriving DecidableEq

/-- Which of two equally near decimals is taken. -/
inductive Tie where
  | even
  | up
deriving DecidableEq

namespace Binary64

/-- Compares `a · 10 ^ p` with `b · 2 ^ q`. -/
def compareDecimal (a : Nat) (p : Int) (b : Nat) (q : Int) : Ordering :=
  compare (a * Nat.pow 10 p.toNat * Nat.pow 2 (-q).toNat) (b * Nat.pow 2 q.toNat * Nat.pow 10 (-p).toNat)

/-- Four times the significand, the magnitude in quarters of the last place. -/
def quarters (x : Binary64) : Nat :=
  4 * x.significand

/-- The midpoint to the next number below, in quarters of the last place. Below a
power of two the numbers lie twice as close. -/
def lowerQuarters (x : Binary64) : Nat :=
  if x.significand = Nat.pow 2 52 ∧ -1074 < x.exponent then x.quarters - 1 else x.quarters - 2

def upperQuarters (x : Binary64) : Nat :=
  x.quarters + 2

/-- Whether `digits · 10 ^ exponent` rounds to the magnitude of the number. -/
def holds (x : Binary64) (digits : Nat) (exponent : Int) : Bool :=
  let lower := compareDecimal digits exponent x.lowerQuarters (x.exponent - 2)
  let upper := compareDecimal digits exponent x.upperQuarters (x.exponent - 2)
  (lower == .gt || (lower == .eq && x.significand % 2 == 0)) &&
    (upper == .lt || (upper == .eq && x.significand % 2 == 0))

def quotient (x : Binary64) : Nat × Nat :=
  (x.significand * Nat.pow 2 x.exponent.toNat, Nat.pow 2 (-x.exponent).toNat)

/-- The largest multiple of `10 ^ exponent` that does not exceed the magnitude,
and how the distance to it compares with half a step. -/
def gridFloor (x : Binary64) (exponent : Int) : Nat × Ordering :=
  let (numerator, denominator) := x.quotient
  let scaledNumerator := numerator * Nat.pow 10 (-exponent).toNat
  let scaledDenominator := denominator * Nat.pow 10 exponent.toNat
  (scaledNumerator / scaledDenominator,
    compare (2 * (scaledNumerator % scaledDenominator)) scaledDenominator)

/-- The nearer of the two grid points around the number. -/
def nearestOnGrid (x : Binary64) (tie : Tie) (exponent : Int) : Nat :=
  match x.gridFloor exponent with
  | (floor, .lt) => floor
  | (floor, .gt) => floor + 1
  | (floor, .eq) =>
    match tie with
    | .even => floor + floor % 2
    | .up => floor + 1

/-- The grid point around the number that rounds to it, the nearer one if both
do, or `none` if the grid is too coarse. -/
def onGrid? (x : Binary64) (tie : Tie) (exponent : Int) : Option Nat :=
  let floor := (x.gridFloor exponent).1
  match x.holds floor exponent, x.holds (floor + 1) exponent with
  | true, true => some (x.nearestOnGrid tie exponent)
  | true, false => some floor
  | false, true => some (floor + 1)
  | false, false => none

/-- The first grid with a hit, going from coarse to fine for the given number of
steps; the last grid is taken without a test. -/
def refine (x : Binary64) (tie : Tie) : Nat → Int → Decimal
  | 0, exponent => ⟨x.nearestOnGrid tie exponent, exponent⟩
  | steps + 1, exponent =>
    match x.onGrid? tie exponent with
    | some digits => ⟨digits, exponent⟩
    | none => refine x tie steps (exponent - 1)

/-- The exponent of the leading decimal digit of a positive number. -/
def leadingPlace (x : Binary64) : Int :=
  let (numerator, denominator) := x.quotient
  if denominator ≤ numerator then ((Nat.toDigits 10 (numerator / denominator)).length : Int) - 1
  else -((Nat.toDigits 10 ((denominator - 1) / numerator)).length : Int)

/-- The shortest decimal that rounds to the magnitude of the number. Seventeen
digits tell all numbers apart. -/
def shortest (x : Binary64) (tie : Tie) : Decimal :=
  if x.significand = 0 then ⟨0, 0⟩ else refine x tie 16 x.leadingPlace

end Binary64

end AccessPolicy.Number

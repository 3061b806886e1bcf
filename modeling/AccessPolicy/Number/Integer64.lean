/-! # Integers of 64 bits

The integers that fit a signed or an unsigned word of 64 bits are kept exactly;
integers beyond them are no integers of this type.
-/

namespace AccessPolicy.Number

/-- The integers from the least signed word to the greatest unsigned word. -/
abbrev FitsWord (value : Int) : Prop :=
  -Int.pow 2 63 ≤ value ∧ value < Int.pow 2 64

structure Integer64 where
  value : Int
  fits : FitsWord value
deriving DecidableEq

namespace Integer64

def ofInt? (value : Int) : Option Integer64 :=
  if fits : FitsWord value then some ⟨value, fits⟩ else none

def isSigned (n : Integer64) : Bool :=
  n.value < Int.pow 2 63

def chars (n : Integer64) : List Char :=
  let digits := Nat.toDigits 10 n.value.natAbs
  if n.value < 0 then '-' :: digits else digits

end Integer64

end AccessPolicy.Number

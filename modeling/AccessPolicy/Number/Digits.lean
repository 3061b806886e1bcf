/-! # Decimal digits

Number texts are read from their bytes. A run of ASCII digits stands for a
natural number; leading zeros do not change it.
-/

namespace AccessPolicy.Number

def isDigit (byte : UInt8) : Bool :=
  48 ≤ byte && byte ≤ 57

def ofDigits (digits : List UInt8) : Nat :=
  digits.foldl (fun value byte => 10 * value + (byte.toNat - 48)) 0

/-- The digits at the beginning of a text, and what follows them. -/
def leadingDigits (text : List UInt8) : List UInt8 × List UInt8 :=
  (text.takeWhile isDigit, text.dropWhile isDigit)

theorem append_leadingDigits (text : List UInt8) :
    (leadingDigits text).1 ++ (leadingDigits text).2 = text :=
  List.takeWhile_append_dropWhile

theorem length_leadingDigits (text : List UInt8) :
    (leadingDigits text).2.length ≤ text.length :=
  (List.dropWhile_sublist _).length_le

end AccessPolicy.Number

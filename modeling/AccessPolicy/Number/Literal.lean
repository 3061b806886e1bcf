import AccessPolicy.Number.Binary64
import AccessPolicy.Number.Digits
import AccessPolicy.Number.Integer64

/-! # Number literals

An integer literal is a run of digits with an optional sign. A floating-point
literal has an optional sign, digits on at least one side of an optional point,
and an optional exponent; or it names an infinity or a value that is no number.
-/

namespace AccessPolicy.Number

/-- What a floating-point literal stands for. -/
inductive Extended where
  | finite (value : Binary64)
  | infinite (negative : Bool)
  | notANumber
deriving DecidableEq

/-- A text without its sign, and whether that is a minus. -/
def splitSign : List UInt8 → Bool × List UInt8
  | 43 :: rest => (false, rest)
  | 45 :: rest => (true, rest)
  | text => (false, text)

def natural? (text : List UInt8) : Option Nat :=
  if text ≠ [] ∧ text.all isDigit then some (ofDigits text) else none

def integer? (text : List UInt8) : Option Int :=
  let (negative, digits) := splitSign text
  (natural? digits).map fun magnitude => if negative then -magnitude else magnitude

def integerLiteral? (text : List UInt8) : Option Integer64 :=
  (integer? text).bind Integer64.ofInt?

def lowerByte (byte : UInt8) : UInt8 :=
  if 65 ≤ byte ∧ byte ≤ 90 then byte + 32 else byte

/-- The digits after a decimal point, and what follows them. -/
def fractionDigits : List UInt8 → List UInt8 × List UInt8
  | 46 :: rest => leadingDigits rest
  | text => ([], text)

/-- The exponent that makes up a text, zero for an empty one. -/
def exponentLiteral? : List UInt8 → Option Int
  | [] => some 0
  | mark :: rest => if mark = 101 ∨ mark = 69 then integer? rest else none

/-- The sign, the digits and the exponent of a decimal literal. -/
def decimalLiteral? (text : List UInt8) : Option (Bool × Nat × Int) := do
  let (negative, magnitude) := splitSign text
  let (integer, afterInteger) := leadingDigits magnitude
  let (fraction, afterFraction) := fractionDigits afterInteger
  if integer = [] ∧ fraction = [] then none
  else
    let exponent ← exponentLiteral? afterFraction
    some (negative, ofDigits (integer ++ fraction), exponent - fraction.length)

/-- What a floating-point literal stands for. A magnitude beyond the largest
number is infinite. -/
def floatLiteral? (text : List UInt8) : Option Extended :=
  match decimalLiteral? text with
  | some (negative, digits, exponent) =>
    match Binary64.ofDecimal? negative digits exponent with
    | some value => some (.finite value)
    | none => some (.infinite negative)
  | none =>
    let (negative, word) := splitSign text
    let lower := word.map lowerByte
    if lower = [105, 110, 102] ∨ lower = [105, 110, 102, 105, 110, 105, 116, 121] then
      some (.infinite negative)
    else if lower = [110, 97, 110] then some .notANumber
    else none

end AccessPolicy.Number

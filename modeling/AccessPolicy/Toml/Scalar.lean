import AccessPolicy.Setting
import AccessPolicy.Text.Utf8

/-! # Scalars of a TOML text

A word that is not quoted is a boolean, an integer or a floating-point number.
Integers are decimal with an optional sign, or unsigned in base sixteen, eight or
two, and fit a signed word of 64 bits. A single underscore may stand between two
digits. Decimal integers, and the integral parts of floating-point numbers, have
no leading zeros.
-/

namespace AccessPolicy.Toml

open Number

/-- The digits of a text without the underscores between them, or `none` if an
underscore is misplaced or something else is no digit. -/
def ungrouped? (isDigit : UInt8 → Bool) : List UInt8 → Option (List UInt8)
  | [] => none
  | [last] => if isDigit last then some [last] else none
  | digit :: 95 :: rest =>
    if isDigit digit then (ungrouped? isDigit rest).map (digit :: ·) else none
  | digit :: rest => if isDigit digit then (ungrouped? isDigit rest).map (digit :: ·) else none

/-- Whether digits have no superfluous zero in front. -/
def isShort : List UInt8 → Bool
  | 48 :: _ :: _ => false
  | _ => true

def digitValue (byte : UInt8) : Nat :=
  if byte ≤ 57 then byte.toNat - 48
  else if byte ≤ 70 then byte.toNat - 55
  else byte.toNat - 87

def isDigitOf (base : Nat) (byte : UInt8) : Bool :=
  (isDigit byte || (65 ≤ byte && byte ≤ 70) || (97 ≤ byte && byte ≤ 102)) &&
    digitValue byte < base

def ofDigitsIn (base : Nat) (digits : List UInt8) : Nat :=
  digits.foldl (fun value byte => base * value + digitValue byte) 0

/-- An integer, if it fits a signed word. -/
def signed? (value : Int) : Option Setting :=
  if -Int.pow 2 63 ≤ value ∧ value < Int.pow 2 63 then some (.integer value) else none

def based? (base : Nat) (text : List UInt8) : Option Setting :=
  (ungrouped? (isDigitOf base) text).bind fun digits => signed? (ofDigitsIn base digits)

def magnitude? (text : List UInt8) : Option (List UInt8) :=
  (ungrouped? isDigit text).filter isShort

def integer? : List UInt8 → Option Setting
  | 48 :: 120 :: digits => based? 16 digits
  | 48 :: 111 :: digits => based? 8 digits
  | 48 :: 98 :: digits => based? 2 digits
  | word =>
    let (negative, digits) := splitSign word
    (magnitude? digits).bind fun digits =>
      signed? (if negative then -ofDigits digits else ofDigits digits)

/-- The exponent that makes up the end of a word, zero if there is none. -/
def exponent? : List UInt8 → Option Int
  | [] => some 0
  | mark :: rest =>
    if mark = 101 ∨ mark = 69 then
      let (negative, digits) := splitSign rest
      (ungrouped? isDigit digits).map fun digits =>
        if negative then -(ofDigits digits : Int) else ofDigits digits
    else none

/-- Whether a byte belongs to a run of digits and underscores. -/
def isGrouped (byte : UInt8) : Bool :=
  isDigit byte || byte == 95

/-- The digits of a fraction and what follows them; none without a point. -/
def fraction? : List UInt8 → Option (List UInt8 × List UInt8)
  | 46 :: rest =>
    (ungrouped? isDigit (rest.takeWhile isGrouped)).map fun digits =>
      (digits, rest.dropWhile isGrouped)
  | text => some ([], text)

/-- The floating-point number that a word writes, which has a fraction or an
exponent and may not exceed the largest one. -/
def float? (word : List UInt8) : Option Setting := do
  let (negative, magnitude) := splitSign word
  if magnitude = [105, 110, 102] then some (.float (.infinite negative))
  else if magnitude = [110, 97, 110] then some (.float .notANumber)
  else
    let integer ← magnitude? (magnitude.takeWhile isGrouped)
    let (fraction, afterFraction) ← fraction? (magnitude.dropWhile isGrouped)
    let exponent ← exponent? afterFraction
    if fraction = [] ∧ afterFraction = [] then none
    else
      match Binary64.ofDecimal? negative (ofDigits (integer ++ fraction))
          (exponent - fraction.length) with
      | some value => some (.float (.finite value))
      | none => if negative then some (.float (.infinite true)) else none

def scalar? (word : List Char) : Option Setting :=
  let bytes := Text.utf8 (String.ofList word)
  if word = ['t', 'r', 'u', 'e'] then some (.boolean true)
  else if word = ['f', 'a', 'l', 's', 'e'] then some (.boolean false)
  else
    match integer? bytes with
    | some value => some value
    | none => float? bytes

end AccessPolicy.Toml

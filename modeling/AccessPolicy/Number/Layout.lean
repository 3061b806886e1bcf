import AccessPolicy.Number.Shortest

/-! # Writing numbers

A number is written with the digits of its shortest decimal, positionally or
with an exponent. A layout says which numbers are written positionally, whether
an integral value keeps a decimal point, and how equally short decimals are told
apart.
-/

namespace AccessPolicy.Number

/-- The decisions of a number format. -/
structure Layout where
  /-- The least and the greatest place of the decimal point, counted from the
  first digit, that is written positionally; `none` if all are. -/
  positional : Option (Int × Int)
  /-- Whether a positional integer ends in `.0`. -/
  keepsPoint : Bool
  tie : Tie

namespace Layout

/-- Inside JSON text numbers from 0.00001 to below 10 ^ 16 are positional and keep
their point; all others have an exponent. -/
def json : Layout :=
  ⟨some (-4, 16), true, .even⟩

/-- A number that stands alone is positional, without a point when integral. -/
def bare : Layout :=
  ⟨none, false, .up⟩

end Layout

/-- The digits of a positive integer without those zeros at its end. -/
def significantDigits (n : Nat) : List Char :=
  ((Nat.toDigits 10 n).reverse.dropWhile (· == '0')).reverse

def positionalText (keepsPoint : Bool) (digits : List Char) (point : Int) : List Char :=
  if point ≤ 0 then '0' :: '.' :: (List.replicate (-point).toNat '0' ++ digits)
  else if point < digits.length then
    digits.take point.toNat ++ '.' :: digits.drop point.toNat
  else
    digits ++ List.replicate (point.toNat - digits.length) '0' ++
      (if keepsPoint then ['.', '0'] else [])

/-- Digits written with the point after the first one and an exponent. -/
def exponentText (digits : List Char) (point : Int) : List Char :=
  let power := point - 1
  let mantissa :=
    match digits with
    | first :: second :: rest => first :: '.' :: second :: rest
    | few => few
  mantissa ++ 'e' :: (if power < 0 then '-' else '+') :: Nat.toDigits 10 power.natAbs

def Decimal.chars (layout : Layout) (decimal : Decimal) : List Char :=
  if decimal.digits = 0 then positionalText layout.keepsPoint ['0'] 1
  else
    let point := decimal.exponent + (Nat.toDigits 10 decimal.digits).length
    let digits := significantDigits decimal.digits
    match layout.positional with
    | none => positionalText layout.keepsPoint digits point
    | some (least, greatest) =>
      if least ≤ point ∧ point ≤ greatest then positionalText layout.keepsPoint digits point
      else exponentText digits point

/-- The text of a number: its sign, if negative, and its shortest decimal. -/
def Binary64.chars (layout : Layout) (x : Binary64) : List Char :=
  let magnitude := (x.shortest layout.tie).chars layout
  if x.negative then '-' :: magnitude else magnitude

end AccessPolicy.Number

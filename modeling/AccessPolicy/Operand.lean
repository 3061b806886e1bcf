import AccessPolicy.Json.Printer
import AccessPolicy.Number.Literal
import AccessPolicy.Text.Quoted
import AccessPolicy.Text.Utf8

/-! # Operands

A comparison has two operands. Each is a literal or the name of an attribute to
look up: the left one among the credentials, the right one in the target. Values
of different types are equal when they have the same comparison text. An operand
without a value equals nothing.
-/

namespace AccessPolicy

/-- One side of a comparison. -/
inductive Operand where
  /-- A value written in the rule. -/
  | literal (value : Json)
  | attribute (name : String)

namespace Operand

/-- The number that a text writes: an integer where it fits 64 bits, otherwise a
finite binary64 number. -/
def numeral? (text : String) : Option Json.Numeral :=
  match Number.integerLiteral? (Text.utf8 text) with
  | some n => some (.integer n)
  | none =>
    match Number.floatLiteral? (Text.utf8 text) with
    | some (.finite x) => some (.float x)
    | _ => none

/-- The name between `{{.` and `}}`, which may not be empty. -/
def attributeName? (text : List Char) : Option (List Char) :=
  match ['\x7b', '\x7b', '.'].isPrefixOf? text with
  | none => none
  | some rest =>
    match ['\x7d', '\x7d'].isSuffixOf? rest with
    | none | some [] => none
    | some name => some name

/-- The operand that a text writes, or `none` if it writes none. -/
def ofText? (text : String) : Option Operand :=
  if text = "True" then some (.literal (.bool true))
  else if text = "False" then some (.literal (.bool false))
  else
    match numeral? text with
    | some n => some (.literal (.number n))
    | none =>
      match Text.unquote? text.toList with
      | some inner => some (.literal (.string (String.ofList inner)))
      | none => (attributeName? text.toList).map fun name => .attribute (String.ofList name)

def value? (attributes : Json) : Operand → Option Json
  | .literal value => some value
  | .attribute name =>
    match attributes.get? name with
    | none | some .null => none
    | some value => some value

def resolve? (text : String) (attributes : Json) : Option Json :=
  (ofText? text).bind (value? attributes)

end Operand

/-- The text by which values of different types are compared. -/
def Json.comparisonText : Json → List Char
  | .string text => text.toList
  | .number (.integer n) => n.chars
  | .number (.float x) => x.chars .bare
  | value => value.chars

namespace Operand

/-- Whether the left text, resolved among the credentials, equals the right text,
resolved in the target. -/
def agree (kind matcher : String) (target credentials : Json) : Bool :=
  match resolve? kind credentials, resolve? matcher target with
  | some left, some right => left.comparisonText == right.comparisonText
  | _, _ => false

end Operand

end AccessPolicy

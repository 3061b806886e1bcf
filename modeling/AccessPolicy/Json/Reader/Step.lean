import AccessPolicy.Json.Fault
import AccessPolicy.Text.Parsed

/-! # Reading steps

A step of the JSON reader takes at least one byte off its input and gives a value
and the bytes that are left, or a fault at a place of the input.
-/

namespace AccessPolicy.Json

/-- The outcome of reading a value from the beginning of an input. -/
abbrev Step (α : Type) (input : List UInt8) : Type :=
  Except Fault (Parsed α input)

/-- A fault at the next byte that would be read, or at the end. -/
def faultBefore {α : Type} (cause : Cause) (rest : List UInt8) : Except Fault α :=
  .error ⟨cause, rest.length⟩

/-- A fault whose place is just after the next byte, or at the end. -/
def faultAfter {α : Type} (cause : Cause) (rest : List UInt8) : Except Fault α :=
  .error ⟨cause, rest.length - 1⟩

/-- The bytes that may stand between the parts of a value. -/
def isBlankByte (byte : UInt8) : Bool :=
  byte == 32 || byte == 10 || byte == 9 || byte == 13

def skipBlanks (input : List UInt8) : List UInt8 :=
  input.dropWhile isBlankByte

theorem length_skipBlanks (input : List UInt8) : (skipBlanks input).length ≤ input.length :=
  (List.dropWhile_sublist _).length_le

end AccessPolicy.Json

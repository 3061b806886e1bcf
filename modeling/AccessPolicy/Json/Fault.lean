/-! # Faults of a JSON text

A text that is no JSON value is refused with the cause and the place of the first
fault. Lines count from one, and a column counts the bytes since the last line
break up to the place.
-/

namespace AccessPolicy.Json

/-- What is wrong with a text at the first place where it is no JSON value. -/
inductive Cause where
  | endInValue
  | endInString
  | endInList
  | endInObject
  | unknownWord
  | expectedValue
  | invalidNumber
  | numberOutOfRange
  | controlCharacter
  | invalidEscape
  | loneSurrogate
  | unpairedSurrogate
  /-- Bytes of a string that are no UTF-8, with how many there are from the first
  of them to the end of the string. -/
  | invalidCodePoint (excess : Nat)
  | tooDeep
  | expectedCommaInList
  | expectedCommaInObject
  | expectedColon
  | trailingComma
  | keyNotString
  | trailingCharacters
deriving DecidableEq

def Cause.message : Cause → String
  | .endInValue => "EOF while parsing a value"
  | .endInString => "EOF while parsing a string"
  | .endInList => "EOF while parsing a list"
  | .endInObject => "EOF while parsing an object"
  | .unknownWord => "expected ident"
  | .expectedValue => "expected value"
  | .invalidNumber => "invalid number"
  | .numberOutOfRange => "number out of range"
  | .controlCharacter =>
    "control character (\\u0000-\\u001F) found while parsing a string"
  | .invalidEscape => "invalid escape"
  | .loneSurrogate => "lone leading surrogate in hex escape"
  | .unpairedSurrogate => "unexpected end of hex escape"
  | .invalidCodePoint _ => "invalid unicode code point"
  | .tooDeep => "recursion limit exceeded"
  | .expectedCommaInList => "expected `,` or `]`"
  | .expectedCommaInObject => "expected `,` or `\x7d`"
  | .expectedColon => "expected `:`"
  | .trailingComma => "trailing comma"
  | .keyNotString => "key must be a string"
  | .trailingCharacters => "trailing characters"

/-- A cause and how many bytes follow the place of the fault. -/
structure Fault where
  cause : Cause
  unread : Nat

structure SyntaxError where
  cause : Cause
  line : Nat
  column : Nat

def SyntaxError.message (error : SyntaxError) : String :=
  error.cause.message ++ " at line " ++ toString error.line ++ " column " ++
    toString error.column

/-- The line and the column after some bytes of a text. -/
def position (consumed : List UInt8) : Nat × Nat :=
  (consumed.count 10 + 1, (consumed.reverse.takeWhile (· != 10)).length)

/-- The place of a fault in the text it occurred in. A string that is no UTF-8 is
reported as many columns before its end as it has bytes from the first bad one. -/
def Fault.locate (fault : Fault) (text : List UInt8) : SyntaxError :=
  let (line, column) := position (text.take (text.length - fault.unread))
  match fault.cause with
  | .invalidCodePoint excess => ⟨fault.cause, line, column - excess⟩
  | cause => ⟨cause, line, column⟩

end AccessPolicy.Json

import AccessPolicy.Json
import AccessPolicy.Number.Layout

/-! # JSON text

A value has a compact text without blanks and a text with one member a line,
indented by two spaces for each level. Only quotation marks, backslashes and
control characters are escaped.
-/

namespace AccessPolicy.Json

/-- The two lower-case hexadecimal digits of a control character. -/
def hexDigits (code : Nat) : List Char :=
  [Nat.digitChar (code / 16), Nat.digitChar (code % 16)]

/-- A character as it stands inside a JSON string. -/
def escapedChar (c : Char) : List Char :=
  if c = '"' then ['\\', '"']
  else if c = '\\' then ['\\', '\\']
  else if c = '\n' then ['\\', 'n']
  else if c = '\r' then ['\\', 'r']
  else if c = '\t' then ['\\', 't']
  else if c.toNat = 8 then ['\\', 'b']
  else if c.toNat = 12 then ['\\', 'f']
  else if c.toNat < 32 then '\\' :: 'u' :: '0' :: '0' :: hexDigits c.toNat
  else [c]

def stringChars (text : String) : List Char :=
  '"' :: (text.toList.flatMap escapedChar ++ ['"'])

def Numeral.chars : Numeral → List Char
  | .integer n => n.chars
  | .float x => x.chars .json

mutual

def chars : Json → List Char
  | .null => ['n', 'u', 'l', 'l']
  | .bool true => ['t', 'r', 'u', 'e']
  | .bool false => ['f', 'a', 'l', 's', 'e']
  | .number n => n.chars
  | .string text => stringChars text
  | .array [] => ['[', ']']
  | .array (first :: rest) => '[' :: (first.chars ++ (laterItems rest ++ [']']))
  | .object [] => ['\x7b', '\x7d']
  | .object ((key, value) :: rest) =>
    '\x7b' :: (stringChars key ++ ':' :: (value.chars ++ (laterMembers rest ++ ['\x7d'])))

def laterItems : List Json → List Char
  | [] => []
  | item :: rest => ',' :: (item.chars ++ laterItems rest)

def laterMembers : List (String × Json) → List Char
  | [] => []
  | (key, value) :: rest => ',' :: (stringChars key ++ ':' :: (value.chars ++ laterMembers rest))

end

def compact (value : Json) : String :=
  String.ofList value.chars

/-- The beginning of a line at a level of nesting. -/
def newLine (level : Nat) : List Char :=
  '\n' :: List.replicate (2 * level) ' '

mutual

/-- The text of a value with one item or member a line, at a level of nesting. -/
def indentedChars (level : Nat) : Json → List Char
  | .array (first :: rest) =>
    '[' :: (newLine (level + 1) ++ (first.indentedChars (level + 1) ++
      (laterItemLines (level + 1) rest ++ (newLine level ++ [']']))))
  | .object ((key, value) :: rest) =>
    '\x7b' :: (newLine (level + 1) ++ (stringChars key ++ ':' :: ' ' ::
      (value.indentedChars (level + 1) ++
        (laterMemberLines (level + 1) rest ++ (newLine level ++ ['\x7d'])))))
  | value => value.chars

def laterItemLines (level : Nat) : List Json → List Char
  | [] => []
  | item :: rest =>
    ',' :: (newLine level ++ (item.indentedChars level ++ laterItemLines level rest))

def laterMemberLines (level : Nat) : List (String × Json) → List Char
  | [] => []
  | (key, value) :: rest =>
    ',' :: (newLine level ++ (stringChars key ++ ':' :: ' ' ::
      (value.indentedChars level ++ laterMemberLines level rest)))

end

def indented (value : Json) : String :=
  String.ofList (value.indentedChars 0)

end AccessPolicy.Json

import AccessPolicy.Json.Reader.Step
import AccessPolicy.Text.Utf8

/-! # Reading strings

A string is read as bytes, its escapes replaced by the UTF-8 encodings of what
they stand for, and decoded once its closing quotation mark is found.
-/

namespace AccessPolicy.Json

def hexValue? (byte : UInt8) : Option Nat :=
  if 48 ≤ byte ∧ byte ≤ 57 then some (byte.toNat - 48)
  else if 97 ≤ byte ∧ byte ≤ 102 then some (byte.toNat - 87)
  else if 65 ≤ byte ∧ byte ≤ 70 then some (byte.toNat - 55)
  else none

/-- The code unit of four hexadecimal digits. -/
def readCodeUnit (input : List UInt8) : Step Nat input :=
  match input with
  | a :: b :: c :: d :: rest =>
    match hexValue? a, hexValue? b, hexValue? c, hexValue? d with
    | some a, some b, some c, some d =>
      .ok ⟨((a * 16 + b) * 16 + c) * 16 + d, rest, by simp; omega⟩
    | _, _, _, _ => faultBefore .invalidEscape rest
  | _ => faultBefore .endInString []

def readSurrogateMark (expected : UInt8) (input : List UInt8) : Step Unit input :=
  match input with
  | [] => faultBefore .endInString []
  | byte :: rest =>
    if byte = expected then .ok ⟨(), rest, by simp⟩ else faultBefore .unpairedSurrogate rest

/-- The character of an escape by code units. A high surrogate needs the escape
of a low one after it. -/
def readUnicodeEscape (input : List UInt8) : Step Char input := do
  let ⟨unit, rest, bound⟩ ← readCodeUnit input
  if 0xdc00 ≤ unit ∧ unit ≤ 0xdfff then faultBefore .loneSurrogate rest
  else if 0xd800 ≤ unit ∧ unit ≤ 0xdbff then
    let ⟨_, afterBackslash, backslashBound⟩ ← readSurrogateMark 92 rest
    let ⟨_, afterMark, markBound⟩ ← readSurrogateMark 117 afterBackslash
    let ⟨low, after, lowBound⟩ ← readCodeUnit afterMark
    if 0xdc00 ≤ low ∧ low ≤ 0xdfff then
      return ⟨Char.ofNat (0x10000 + (unit - 0xd800) * 1024 + (low - 0xdc00)), after, by omega⟩
    else faultBefore .loneSurrogate after
  else return ⟨Char.ofNat unit, rest, bound⟩

def simpleEscape? (byte : UInt8) : Option Char :=
  if byte = 34 then some '"'
  else if byte = 92 then some '\\'
  else if byte = 47 then some '/'
  else if byte = 98 then some '\x08'
  else if byte = 102 then some '\x0c'
  else if byte = 110 then some '\n'
  else if byte = 114 then some '\r'
  else if byte = 116 then some '\t'
  else none

/-- The character of an escape, read after its backslash. -/
def readEscape (input : List UInt8) : Step Char input :=
  match input with
  | [] => faultBefore .endInString []
  | byte :: rest =>
    if byte = 117 then do
      let ⟨c, after, bound⟩ ← readUnicodeEscape rest
      return ⟨c, after, Nat.lt_succ_of_lt bound⟩
    else
      match simpleEscape? byte with
      | some c => .ok ⟨c, rest, by simp⟩
      | none => faultBefore .invalidEscape rest

/-- The bytes of a string, latest first, read up to its closing quotation mark. -/
def readStringBytes (read input : List UInt8) : Step (List UInt8) input :=
  match input with
  | [] => faultBefore .endInString []
  | byte :: rest =>
    if byte = 34 then .ok ⟨read, rest, by simp⟩
    else if byte < 32 then faultBefore .controlCharacter rest
    else if byte = 92 then
      match readEscape rest with
      | .error fault => .error fault
      | .ok ⟨c, after, bound⟩ =>
        match readStringBytes ((String.utf8EncodeChar c).reverse ++ read) after with
        | .error fault => .error fault
        | .ok ⟨bytes, left, shorter⟩ =>
          .ok ⟨bytes, left, Nat.lt_trans shorter (Nat.lt_succ_of_lt bound)⟩
    else
      match readStringBytes (byte :: read) rest with
      | .error fault => .error fault
      | .ok ⟨bytes, left, shorter⟩ => .ok ⟨bytes, left, Nat.lt_succ_of_lt shorter⟩
termination_by input.length

def readString (input : List UInt8) : Step String input := do
  let ⟨reversed, rest, shorter⟩ ← readStringBytes [] input
  match Text.decodeUtf8 reversed.reverse with
  | (text, []) => return ⟨String.ofList text, rest, shorter⟩
  | (_, undecoded) => faultBefore (.invalidCodePoint undecoded.length) rest

end AccessPolicy.Json

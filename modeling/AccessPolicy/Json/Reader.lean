import AccessPolicy.Json.Reader.Numeral
import AccessPolicy.Json.Reader.Text
import AccessPolicy.Table

/-! # Reading JSON

A text is read to the end as one value. Arrays and objects may be nested to a
given number of levels. Of several members with one key the last counts. Every
fault is reported at the first place where the text is no JSON value.
-/

namespace AccessPolicy.Json

variable {α : Type}

/-- The bytes of a word such as `null`, after its first one. -/
def readWord (value : Json) (expected input : List UInt8) :
    Except Fault (Json × Remainder input) :=
  match expected, input with
  | [], other => .ok (value, ⟨other, Nat.le_refl _⟩)
  | _, [] => faultBefore .endInValue []
  | byte :: later, first :: rest =>
    if byte = first then do
      let (value, ⟨left, bound⟩) ← readWord value later rest
      return (value, ⟨left, Nat.le_succ_of_le bound⟩)
    else faultBefore .unknownWord rest

/-- What delimits the entries of an array or of an object, and how the lack of it
is reported. -/
structure Bracket where
  closing : UInt8
  atEnd : Cause
  expectedComma : Cause

def Bracket.list : Bracket :=
  ⟨93, .endInList, .expectedCommaInList⟩

def Bracket.object : Bracket :=
  ⟨125, .endInObject, .expectedCommaInObject⟩

/-- The comma in front of every entry but the first; what follows it may not be
the closing bracket. -/
def readComma (bracket : Bracket) (input : List UInt8) : Step Unit input :=
  match input with
  | [] => faultAfter bracket.atEnd []
  | byte :: rest =>
    if byte = 44 then
      match skipBlanks rest with
      | [] => faultAfter .endInValue []
      | next :: later =>
        if next = bracket.closing then faultAfter .trailingComma (next :: later)
        else .ok ⟨(), rest, length_lt_cons byte rest⟩
    else faultAfter bracket.expectedComma (byte :: rest)

/-- The entries of an array or of an object up to the closing bracket, read after
the opening bracket or after an entry. -/
def readEntries (readEntry : (input : List UInt8) → Step α input) (bracket : Bracket)
    (isFirst : Bool) (input : List UInt8) : Step (List α) input :=
  match blanks : skipBlanks input with
  | [] => faultAfter bracket.atEnd []
  | byte :: rest =>
    have bound : (byte :: rest).length ≤ input.length := blanks ▸ length_skipBlanks input
    if byte = bracket.closing then
      .ok ⟨[], rest, Nat.lt_of_lt_of_le (Nat.lt_succ_self _) bound⟩
    else
      let start : Except Fault (Remainder input) :=
        if isFirst then .ok ⟨byte :: rest, bound⟩
        else
          match readComma bracket (byte :: rest) with
          | .ok ⟨_, left, shorter⟩ =>
            .ok ⟨left, Nat.le_of_lt (Nat.lt_of_lt_of_le shorter bound)⟩
          | .error fault => .error fault
      match start with
      | .error fault => .error fault
      | .ok ⟨start, startBound⟩ =>
        match readEntry start with
        | .error fault => .error fault
        | .ok ⟨entry, left, entryBound⟩ =>
          match readEntries readEntry bracket false left with
          | .error fault => .error fault
          | .ok ⟨entries, last, shorter⟩ =>
            .ok ⟨entry :: entries, last,
              Nat.lt_trans shorter (Nat.lt_of_lt_of_le entryBound startBound)⟩
termination_by input.length
decreasing_by exact Nat.lt_of_lt_of_le entryBound startBound

def readMember (readValue : (input : List UInt8) → Step Json input) (input : List UInt8) :
    Step (String × Json) input :=
  match blanks : skipBlanks input with
  | [] => faultAfter .endInObject []
  | byte :: afterQuote =>
    have bound : (byte :: afterQuote).length ≤ input.length := blanks ▸ length_skipBlanks input
    if byte = 34 then do
      let ⟨key, afterKey, keyBound⟩ ← readString afterQuote
      match colon : skipBlanks afterKey with
      | [] => faultAfter .endInObject []
      | mark :: afterColon =>
        have colonBound : (mark :: afterColon).length ≤ afterKey.length :=
          colon ▸ length_skipBlanks afterKey
        if mark = 58 then
          let ⟨value, rest, shorter⟩ ← readValue afterColon
          return ⟨(key, value), rest, by simp at bound colonBound; omega⟩
        else faultAfter .expectedColon (mark :: afterColon)
    else faultAfter .keyNotString (byte :: afterQuote)

/-- The value at the beginning of an input, with at most the given number of
levels of nesting. -/
def readValue (levels : Nat) (input : List UInt8) : Step Json input :=
  match blanks : skipBlanks input with
  | [] => faultAfter .endInValue []
  | byte :: rest =>
    have bound : (byte :: rest).length ≤ input.length := blanks ▸ length_skipBlanks input
    let word (value : Json) (expected : List UInt8) : Step Json input := do
      let (value, ⟨left, shorter⟩) ← readWord value expected rest
      return ⟨value, left, Nat.lt_of_le_of_lt shorter bound⟩
    if byte = 110 then word .null [117, 108, 108]
    else if byte = 116 then word (.bool true) [114, 117, 101]
    else if byte = 102 then word (.bool false) [97, 108, 115, 101]
    else if byte = 34 then do
      let ⟨text, left, shorter⟩ ← readString rest
      return ⟨.string text, left, Nat.lt_trans shorter bound⟩
    else if byte = 91 then
      match levels with
      | 0 => faultAfter .tooDeep (byte :: rest)
      | levels + 1 => do
        let ⟨items, left, shorter⟩ ← readEntries (readValue levels) .list true rest
        return ⟨.array items, left, Nat.lt_trans shorter bound⟩
    else if byte = 123 then
      match levels with
      | 0 => faultAfter .tooDeep (byte :: rest)
      | levels + 1 => do
        let ⟨members, left, shorter⟩ ←
          readEntries (readMember (readValue levels)) .object true rest
        return ⟨.object (Table.orderedEntries members), left, Nat.lt_trans shorter bound⟩
    else if byte = 45 || Number.isDigit byte then do
      let ⟨value, left, shorter⟩ ← readNumeral (skipBlanks input)
      return ⟨.number value, left, Nat.lt_of_lt_of_le shorter (length_skipBlanks input)⟩
    else faultAfter .expectedValue (byte :: rest)

/-- The value that a text is, with at most the given number of levels of
nesting. -/
def readWithin (levels : Nat) (text : List UInt8) : Except SyntaxError Json :=
  match readValue levels text with
  | .error fault => .error (fault.locate text)
  | .ok ⟨value, rest, _⟩ =>
    match skipBlanks rest with
    | [] => .ok value
    | trailing => .error (Fault.locate ⟨.trailingCharacters, trailing.length - 1⟩ text)

/-- Policies, targets and credentials are nested to fewer than 128 levels. -/
def greatestNesting : Nat :=
  127

/-- The value that a text is. -/
def read (text : List UInt8) : Except SyntaxError Json :=
  readWithin greatestNesting text

end AccessPolicy.Json

import AccessPolicy.Toml.Scalar
import AccessPolicy.Toml.Table
import AccessPolicy.Toml.Text

/-! # Reading TOML

A text is a sequence of table headers and of keys with values, each on a line of
its own. Arrays may go over several lines; inline tables may not. Settings
written before the first header belong to the outermost table.

Three things that TOML has besides are not covered: texts between threefold
quotation marks, dates and times, and arrays of tables, whose headers stand in
double brackets. A text with one of them is refused like one that is no TOML.
-/

namespace AccessPolicy.Toml

def isBlank (c : Char) : Bool :=
  c == ' ' || c == '\t'

def skipBlanks (input : List Char) : Remainder input :=
  skipWhile isBlank input

/-- The input after blanks, line breaks and comments, or `none` at a bad one. The
flag says whether the input starts inside a comment. -/
def skipLines (inComment : Bool) : (input : List Char) → Option (Remainder input)
  | [] => some ⟨[], Nat.le_refl _⟩
  | '\n' :: rest =>
    (skipLines false rest).map fun ⟨left, bound⟩ => ⟨left, Nat.le_succ_of_le bound⟩
  | '\r' :: '\n' :: rest =>
    (skipLines false rest).map fun ⟨left, bound⟩ =>
      ⟨left, Nat.le_succ_of_le (Nat.le_succ_of_le bound)⟩
  | c :: rest =>
    if (inComment && isPlain c) || isBlank c then
      (skipLines inComment rest).map fun ⟨left, bound⟩ => ⟨left, Nat.le_succ_of_le bound⟩
    else if inComment || c == '\r' then none
    else if c = '#' then
      (skipLines true rest).map fun ⟨left, bound⟩ => ⟨left, Nat.le_succ_of_le bound⟩
    else some ⟨c :: rest, Nat.le_refl _⟩

/-- Whether an input continues with the end of a line or a comment. -/
def isAtLineEnd : List Char → Bool
  | [] => true
  | '\r' :: '\n' :: _ => true
  | c :: _ => c == '\n' || c == '#'

def isBare (c : Char) : Bool :=
  c.isAlphanum || c == '_' || c == '-'

def isScalarChar (c : Char) : Bool :=
  isBare c || c == '+' || c == '.'

/-- The run of characters of a class at the beginning of an input, which may not
be empty. -/
def readRun (inRun : Char → Bool) (input : List Char) : Option (Parsed (List Char) input) :=
  match input with
  | [] => none
  | c :: rest =>
    if inRun c then
      some ⟨c :: rest.takeWhile inRun, rest.dropWhile inRun,
        Nat.lt_succ_of_le (List.dropWhile_sublist _).length_le⟩
    else none

def readSimpleKey (input : List Char) : Option (Parsed String input) :=
  match input with
  | '"' :: rest =>
    (readBasic rest).map fun ⟨key, left, bound⟩ =>
      ⟨String.ofList key, left, length_lt_of_rest bound⟩
  | '\'' :: rest =>
    (readLiteral rest).map fun ⟨key, left, bound⟩ =>
      ⟨String.ofList key, left, length_lt_of_rest bound⟩
  | other =>
    (readRun isBare other).map fun ⟨key, left, bound⟩ => ⟨String.ofList key, left, bound⟩

/-- The parts of a key between its dots, with the blanks around them, however many
there are. -/
def readParts (input : List Char) : Option (Parsed (List String) input) :=
  let ⟨start, startBound⟩ := skipBlanks input
  match readSimpleKey start with
  | none => none
  | some ⟨first, afterFirst, firstBound⟩ =>
    match skipBlanks afterFirst with
    | ⟨[], _⟩ => some ⟨[first], [], Nat.lt_of_le_of_lt (Nat.zero_le _)
        (Nat.lt_of_lt_of_le firstBound startBound)⟩
    | ⟨mark :: rest, markBound⟩ =>
      have bound : (mark :: rest).length < input.length :=
        Nat.lt_of_le_of_lt markBound (Nat.lt_of_lt_of_le firstBound startBound)
      if mark = '.' then
        match readParts rest with
        | none => none
        | some ⟨later, left, laterBound⟩ =>
          some ⟨first :: later, left, Nat.lt_trans laterBound (Nat.lt_of_succ_lt bound)⟩
      else some ⟨[first], mark :: rest, bound⟩
termination_by input.length
decreasing_by exact Nat.lt_of_succ_lt bound

/-- Values are nested to fewer than eighty levels, and keys have fewer than eighty
parts. -/
def greatestNesting : Nat :=
  79

def readKey (input : List Char) : Option (Parsed (List String) input) :=
  (readParts input).filter (·.value.length ≤ greatestNesting)

def readPair (readValue : (input : List Char) → Option (Parsed Setting input))
    (input : List Char) : Option (Parsed (List String × Setting) input) := do
  let ⟨key, afterKey, keyBound⟩ ← readKey input
  match afterKey, keyBound with
  | [], _ => none
  | mark :: rest, keyBound =>
    if mark = '=' then
      let ⟨start, startBound⟩ := skipBlanks rest
      let ⟨value, left, valueBound⟩ ← readValue start
      some ⟨(key, value), left, by simp at keyBound; omega⟩
    else none

/-- The items of an array up to its closing bracket, read after the opening
bracket or after a comma. -/
def readItems (readValue : (input : List Char) → Option (Parsed Setting input))
    (input : List Char) : Option (Parsed (List Setting) input) :=
  match skipLines false input with
  | none => none
  | some ⟨[], _⟩ => none
  | some ⟨c :: rest, bound⟩ =>
    if c = ']' then some ⟨[], rest, Nat.lt_of_lt_of_le (Nat.lt_succ_self _) bound⟩
    else
      match readValue (c :: rest) with
      | none => none
      | some ⟨value, afterValue, valueBound⟩ =>
        match skipLines false afterValue with
        | none => none
        | some ⟨[], _⟩ => none
        | some ⟨mark :: afterMark, markBound⟩ =>
          have shorter : afterMark.length < input.length := by
            simp at bound markBound valueBound; omega
          if mark = ']' then some ⟨[value], afterMark, shorter⟩
          else if mark = ',' then
            match readItems readValue afterMark with
            | none => none
            | some ⟨items, left, itemsBound⟩ =>
              some ⟨value :: items, left, Nat.lt_trans itemsBound shorter⟩
          else none
termination_by input.length

/-- The entries of an inline table up to its closing brace, added to those read
before; read after the opening brace of a table that is not empty, or after a
comma. -/
def readInline (readValue : (input : List Char) → Option (Parsed Setting input))
    (entries : Entries) (input : List Char) : Option (Parsed Entries input) :=
  match readPair readValue input with
  | none => none
  | some ⟨(key, value), afterPair, pairBound⟩ =>
    match entries.define value key with
    | none => none
    | some entries =>
      match skipBlanks afterPair with
      | ⟨[], _⟩ => none
      | ⟨mark :: afterMark, markBound⟩ =>
        have shorter : afterMark.length < input.length := by simp at markBound; omega
        if mark = '\x7d' then some ⟨entries, afterMark, shorter⟩
        else if mark = ',' then
          match readInline readValue entries afterMark with
          | none => none
          | some ⟨entries, left, bound⟩ => some ⟨entries, left, Nat.lt_trans bound shorter⟩
        else none
termination_by input.length

/-- The value at the beginning of an input, with at most the given number of
levels of nesting. -/
def readValue (levels : Nat) (input : List Char) : Option (Parsed Setting input) :=
  match levels, input with
  | _, '"' :: rest =>
    (readBasic rest).map fun ⟨text, left, bound⟩ =>
      ⟨.text (String.ofList text), left, Nat.lt_succ_of_lt bound⟩
  | _, '\'' :: rest =>
    (readLiteral rest).map fun ⟨text, left, bound⟩ =>
      ⟨.text (String.ofList text), left, Nat.lt_succ_of_lt bound⟩
  | levels + 1, '[' :: rest =>
    (readItems (readValue levels) rest).map fun ⟨items, left, bound⟩ =>
      ⟨.list items, left, Nat.lt_succ_of_lt bound⟩
  | levels + 1, '\x7b' :: rest =>
    match skipBlanks rest with
    | ⟨'\x7d' :: left, bound⟩ =>
      some ⟨.table [], left, by simp at bound ⊢; omega⟩
    | _ =>
      (readInline (readValue levels) [] rest).map fun ⟨entries, left, bound⟩ =>
        ⟨.table (settings entries), left, Nat.lt_succ_of_lt bound⟩
  | _, other => do
    let ⟨word, left, bound⟩ ← readRun isScalarChar other
    let value ← scalar? word
    some ⟨value, left, bound⟩

/-- The key of a header, read after its opening bracket. -/
def readHeader (input : List Char) : Option (Parsed (List String) input) := do
  let ⟨key, afterKey, keyBound⟩ ← readKey input
  match afterKey, keyBound with
  | [], _ => none
  | mark :: left, keyBound =>
    if mark = ']' then some ⟨key, left, Nat.lt_of_succ_lt keyBound⟩ else none

/-- The entries after the rest of a text, which belongs to the table with the given
header until another one comes. -/
def readStatements (entries : Entries) (header : List String) (input : List Char) :
    Option Entries :=
  match skipLines false input with
  | none => none
  | some ⟨[], _⟩ => some entries
  | some ⟨c :: rest, startBound⟩ =>
    if c = '[' then
      match readHeader rest with
      | none => none
      | some ⟨key, afterHeader, headerBound⟩ =>
        let ⟨left, leftBound⟩ := skipBlanks afterHeader
        have : left.length < input.length := by simp at startBound; omega
        match entries.openTable key with
        | none => none
        | some entries => if isAtLineEnd left then readStatements entries key left else none
    else
      match readPair (readValue greatestNesting) (c :: rest) with
      | none => none
      | some ⟨(key, value), afterPair, pairBound⟩ =>
        let ⟨left, leftBound⟩ := skipBlanks afterPair
        have : left.length < input.length := by omega
        match entries.within (·.define value key) header with
        | none => none
        | some entries => if isAtLineEnd left then readStatements entries header left else none
termination_by input.length

/-- The settings that a text makes, or `none` if it is no TOML text, or one with
texts between threefold quotation marks, dates, times or arrays of tables. -/
def read (text : List Char) : Option Setting :=
  (readStatements [] [] text).map fun entries => .table (settings entries)

end AccessPolicy.Toml

import AccessPolicy.Text.Parsed

/-! # Quoted texts of a TOML text

A basic string stands between quotation marks and may contain escapes; a literal
string stands between apostrophes and is taken as it is. Neither contains a
control character other than the tab, so neither goes beyond its line.
-/

namespace AccessPolicy.Toml

/-- Whether a character may stand in a string or a comment as it is. -/
def isPlain (c : Char) : Bool :=
  c == '\t' || (32 ≤ c.toNat && c.toNat ≠ 127)

def hexValue? (c : Char) : Option Nat :=
  if '0' ≤ c ∧ c ≤ '9' then some (c.toNat - 48)
  else if 'a' ≤ c ∧ c ≤ 'f' then some (c.toNat - 87)
  else if 'A' ≤ c ∧ c ≤ 'F' then some (c.toNat - 55)
  else none

/-- The number of a given count of hexadecimal digits, and what follows them. -/
def readHex (value : Nat) : Nat → (input : List Char) → Option (Nat × Remainder input)
  | 0, input => some (value, ⟨input, Nat.le_refl _⟩)
  | _ + 1, [] => none
  | count + 1, c :: rest => do
    let digit ← hexValue? c
    let (value, ⟨left, bound⟩) ← readHex (value * 16 + digit) count rest
    some (value, ⟨left, Nat.le_succ_of_le bound⟩)

def readCodePoint (count : Nat) (input : List Char) : Option (Char × Remainder input) := do
  let (code, rest) ← readHex 0 count input
  if code.isValidChar then some (Char.ofNat code, rest) else none

def simpleEscape? (c : Char) : Option Char :=
  if c = 'b' then some '\x08'
  else if c = 't' then some '\t'
  else if c = 'n' then some '\n'
  else if c = 'f' then some '\x0c'
  else if c = 'r' then some '\r'
  else if c = '"' then some '"'
  else if c = '\\' then some '\\'
  else none

/-- The character of an escape, read after its backslash. -/
def readEscape (input : List Char) : Option (Parsed Char input) :=
  match input with
  | [] => none
  | c :: rest =>
    if c = 'u' ∨ c = 'U' then do
      let (value, ⟨left, bound⟩) ← readCodePoint (if c = 'u' then 4 else 8) rest
      some ⟨value, left, Nat.lt_succ_of_le bound⟩
    else (simpleEscape? c).map fun value => ⟨value, rest, by simp⟩

def readBasic (input : List Char) : Option (Parsed (List Char) input) :=
  match input with
  | [] => none
  | c :: rest =>
    if c = '"' then some ⟨[], rest, by simp⟩
    else if c = '\\' then
      match readEscape rest with
      | none => none
      | some ⟨value, after, bound⟩ =>
        match readBasic after with
        | none => none
        | some ⟨text, left, shorter⟩ =>
          some ⟨value :: text, left, Nat.lt_trans shorter (Nat.lt_succ_of_lt bound)⟩
    else if isPlain c then
      match readBasic rest with
      | none => none
      | some ⟨text, left, shorter⟩ => some ⟨c :: text, left, Nat.lt_succ_of_lt shorter⟩
    else none
termination_by input.length

def readLiteral : (input : List Char) → Option (Parsed (List Char) input)
  | [] => none
  | c :: rest =>
    if c = '\'' then some ⟨[], rest, by simp⟩
    else if isPlain c then
      match readLiteral rest with
      | none => none
      | some ⟨text, left, shorter⟩ => some ⟨c :: text, left, Nat.lt_succ_of_lt shorter⟩
    else none

end AccessPolicy.Toml

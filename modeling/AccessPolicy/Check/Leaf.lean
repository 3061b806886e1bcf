import AccessPolicy.Check

/-! # Leaves

A leaf of a check is written as a single word: `!`, `@`, `rule:` or `role:`
followed by a name, or two operands separated by the first colon of the word. A
word without a colon is no leaf, and denies.
-/

namespace AccessPolicy.Check

/-- The parts of a word before and after its first colon. -/
def splitAtColon? : List Char → Option (List Char × List Char)
  | [] => none
  | c :: rest =>
    if c = ':' then some ([], rest)
    else (splitAtColon? rest).map fun (kind, matcher) => (c :: kind, matcher)

/-- The leaf that a word stands for, or `none` for a word without a colon other
than `!` and `@`. -/
def ofWord? (word : List Char) : Option Check :=
  if word = ['!'] then some .deny
  else if word = ['@'] then some .allow
  else
    match "rule:".toList.isPrefixOf? word with
    | some name => some (.rule (String.ofList name))
    | none =>
      match "role:".toList.isPrefixOf? word with
      | some name => some (.role (String.ofList name))
      | none =>
        (splitAtColon? word).map fun (kind, matcher) =>
          .compare (String.ofList kind) (String.ofList matcher)

/-- The leaf that a word stands for; a word that is none denies. -/
def ofWord (word : String) : Check :=
  (ofWord? word.toList).getD .deny

end AccessPolicy.Check

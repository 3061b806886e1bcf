/-! # Quoted words

A word is quoted when it starts and ends with the same quotation mark, single or
double, and the two marks are distinct occurrences. Nothing is escaped inside.
-/

namespace AccessPolicy.Text

/-- The two marks that quote a word. -/
def isQuote (c : Char) : Bool :=
  c == '"' || c == '\''

/-- The text between a pair of matching quotation marks that wraps the whole
word, or `none` when no such pair does. -/
def unquote? : List Char → Option (List Char)
  | [] => none
  | first :: rest =>
    match rest.getLast? with
    | none => none
    | some last => if isQuote first && first == last then some rest.dropLast else none

/-- Wrapping a text in a quotation mark is undone by reading it. -/
theorem unquote?_wrapped {mark : Char} (quote : isQuote mark = true) (inner : List Char) :
    unquote? (mark :: (inner ++ [mark])) = some inner := by
  simp [unquote?, quote]

end AccessPolicy.Text

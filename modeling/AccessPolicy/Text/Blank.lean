/-! # Blanks and words

The characters that separate the words of a rule are those of the Unicode
property `White_Space`. A text is cut into its maximal blank-free runs, so the
amount and the kind of the blanks between two words never matter.
-/

namespace AccessPolicy.Text

/-- Membership in the Unicode property `White_Space`. -/
def isBlank (c : Char) : Bool :=
  let code := c.toNat
  (0x9 ≤ code && code ≤ 0xd) || code == 0x20 || code == 0x85 || code == 0xa0 || code == 0x1680 ||
    (0x2000 ≤ code && code ≤ 0x200a) || code == 0x2028 || code == 0x2029 || code == 0x202f ||
    code == 0x205f || code == 0x3000

/-- The word in progress joins the later words once a blank or the end of the
text closes it; an empty run is no word. -/
def closeWord (word : List Char) (later : List (List Char)) : List (List Char) :=
  if word.isEmpty then later else word :: later

/-- The word that the text starts with, empty when it starts with a blank, and
the words that follow it. -/
def leadingWord : List Char → List Char × List (List Char)
  | [] => ([], [])
  | c :: rest =>
    let (word, later) := leadingWord rest
    if isBlank c then ([], closeWord word later) else (c :: word, later)

/-- The maximal blank-free runs of a text, in order. -/
def words (text : List Char) : List (List Char) :=
  closeWord (leadingWord text).1 (leadingWord text).2

def isBlankText (text : List Char) : Bool :=
  text.all isBlank

@[simp] theorem words_nil : words [] = [] := rfl

/-- A blank in front of a text changes none of its words. -/
theorem words_cons_blank {c : Char} (rest : List Char) (blank : isBlank c = true) :
    words (c :: rest) = words rest := by
  simp [words, leadingWord, blank, closeWord]

end AccessPolicy.Text

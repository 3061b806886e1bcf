import AccessPolicy.Proofs.Text.Words
import AccessPolicy.Rule.Token

/-! # The layout of a rule text

Blanks separate the words of a text and count for nothing else, and a parenthesis at
the beginning or at the end of a text is a token of its own, wherever the words begin
and end. So the tokens of a text can be found part by part.
-/

namespace AccessPolicy.Rule.Token

/-! ## Parentheses in a chunk -/

theorem detachClosing_append_closeParen (word : List Char) :
    detachClosing (word ++ [')']) =
      ((detachClosing word).1, (detachClosing word).2 ++ [.closeParen]) := by
  induction word with
  | nil => rfl
  | cons c rest ih =>
      rw [List.cons_append, detachClosing, detachClosing, ih]
      rcases detachClosing rest with ⟨_ | ⟨first, inner⟩, closing⟩
      · by_cases closes : c = ')'
        · simp only [closes, ↓reduceIte, List.cons_append]
        · simp only [closes, ↓reduceIte]
      · rfl

theorem ofTail_append_closeParen (chunk : List Char) :
    ofTail (chunk ++ [')']) = ofTail chunk ++ [.closeParen] := by
  rw [ofTail, ofTail, detachClosing_append_closeParen]
  rcases detachClosing chunk with ⟨_ | ⟨first, inner⟩, closing⟩ <;> rfl

theorem ofChunk_append_closeParen (chunk : List Char) :
    ofChunk (chunk ++ [')']) = ofChunk chunk ++ [.closeParen] := by
  induction chunk with
  | nil => rfl
  | cons c rest ih =>
      rw [List.cons_append, ofChunk, ofChunk, ih]
      by_cases opens : c = '('
      · simp only [opens, ↓reduceIte, List.cons_append]
      · simp only [opens, ↓reduceIte]
        exact ofTail_append_closeParen (c :: rest)

/-- Nothing is detached from a word that ends in no closing parenthesis. -/
theorem detachClosing_of_getLast? {word : List Char} (ends : word.getLast? ≠ some ')') :
    detachClosing word = (word, []) := by
  induction word with
  | nil => rfl
  | cons c rest ih =>
      rw [detachClosing]
      cases rest with
      | nil =>
          have other : c ≠ ')' := fun same => ends (congrArg some same)
          simp only [detachClosing, other, ↓reduceIte]
      | cons second later =>
          rw [List.getLast?_cons_cons] at ends
          rw [ih ends]

/-- What is left of a chunk, and that the rest of it is what was detached. -/
theorem detachClosing_spec (chunk : List Char) : ∃ count : Nat,
    chunk = (detachClosing chunk).1 ++ List.replicate count ')' ∧
      (detachClosing chunk).2 = List.replicate count .closeParen ∧
      (detachClosing chunk).1.getLast? ≠ some ')' := by
  induction chunk with
  | nil => exact ⟨0, rfl, rfl, nofun⟩
  | cons c rest ih =>
      obtain ⟨count, whole, detached, ends⟩ := ih
      rw [detachClosing]
      generalize detachClosing rest = parts at whole detached ends
      obtain ⟨_ | ⟨first, inner⟩, closing⟩ := parts
      · rw [List.nil_append] at whole
        by_cases closes : c = ')'
        · refine ⟨count + 1, ?_, ?_, ?_⟩
          · simp only [closes, whole, ↓reduceIte, List.nil_append, List.replicate_succ]
          · simp only [closes, ↓reduceIte, List.replicate_succ]
            exact congrArg (closeParen :: ·) detached
          · simp only [closes, ↓reduceIte, ends, ne_eq, not_false_eq_true]
        · refine ⟨count, ?_, ?_, ?_⟩
          · simp only [closes, whole, ↓reduceIte, List.cons_append, List.nil_append]
          · simpa only [closes, ↓reduceIte] using detached
          · simpa only [closes, ↓reduceIte, List.getLast?_singleton, ne_eq, Option.some.injEq]
              using closes
      · refine ⟨count, congrArg (c :: ·) whole, detached, ?_⟩
        rw [List.getLast?_cons_cons]
        exact ends

/-! ## The tokens of a text, part by part -/

theorem ofText_of_blankFree {word : List Char} (free : Text.BlankFree word) :
    ofText word = ofChunk word := by
  rw [ofText, Text.words, Text.leadingWord_of_blankFree free]
  cases word with
  | nil => rfl
  | cons c rest => exact List.flatMap_singleton ofChunk (c :: rest)

/-- The tokens around a blank are those before it and those after it. -/
theorem ofText_append_blank (first : List Char) {c : Char} (blank : Text.isBlank c = true)
    (second : List Char) : ofText (first ++ c :: second) = ofText first ++ ofText second := by
  rw [ofText, Text.words_append_blank first blank, List.flatMap_append]
  rfl

/-- An opening parenthesis at the beginning of a text is a token of its own. -/
theorem ofText_cons_openParen (text : List Char) :
    ofText ('(' :: text) = .openParen :: ofText text := by
  have chunk : ∀ word, Text.BlankFree word →
      ofText ('(' :: word) = .openParen :: ofText word := by
    intro word free
    rw [ofText_of_blankFree free,
      ofText_of_blankFree (List.forall_mem_cons.mpr ⟨rfl, free⟩)]
    rfl
  rcases Text.blankFree_or_append text with free | ⟨word, c, rest, free, blank, rfl⟩
  · exact chunk text free
  · rw [← List.cons_append, ofText_append_blank _ blank, ofText_append_blank _ blank,
      chunk word free, List.cons_append]

/-- A closing parenthesis at the end of a text is a token of its own. -/
theorem ofText_append_closeParen (text : List Char) :
    ofText (text ++ [')']) = ofText text ++ [.closeParen] := by
  induction text using Text.wordInduction with
  | last word free =>
      have closed : Text.BlankFree (word ++ [')']) :=
        List.forall_mem_append.mpr ⟨free, List.forall_mem_singleton.mpr rfl⟩
      rw [ofText_of_blankFree free, ofText_of_blankFree closed, ofChunk_append_closeParen]
  | next word c rest free blank ih =>
      rw [List.append_assoc, List.cons_append, ofText_append_blank _ blank,
        ofText_append_blank _ blank, ih, List.append_assoc]

end AccessPolicy.Rule.Token

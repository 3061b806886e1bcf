import AccessPolicy.Text.Blank
import AccessPolicy.Text.Quoted

/-! # Texts without blanks

Blanks separate the words of a text and count for nothing else, so a text without
blanks is a word, and any other text has a word in front of its first blank.
-/

namespace AccessPolicy.Text

/-- No character of a text is a blank. -/
def BlankFree (text : List Char) : Prop :=
  ∀ c ∈ text, isBlank c = false

theorem blankFree_nil : BlankFree [] :=
  fun _ member => absurd member List.not_mem_nil

theorem closeWord_append (word : List Char) (first second : List (List Char)) :
    closeWord word (first ++ second) = closeWord word first ++ second := by
  unfold closeWord
  split <;> rfl

theorem leadingWord_append_blank (first : List Char) {c : Char} (blank : isBlank c = true)
    (second : List Char) :
    leadingWord (first ++ c :: second) =
      ((leadingWord first).1, (leadingWord first).2 ++ words second) := by
  induction first with
  | nil => simp [leadingWord, blank, words]
  | cons a rest ih =>
      rw [List.cons_append, leadingWord, leadingWord, ih]
      by_cases inside : isBlank a = true
      · simp only [inside, ↓reduceIte, closeWord_append]
      · simp only [inside, Bool.false_eq_true, ↓reduceIte]

/-- The words around a blank are those before it and those after it. -/
theorem words_append_blank (first : List Char) {c : Char} (blank : isBlank c = true)
    (second : List Char) : words (first ++ c :: second) = words first ++ words second := by
  rw [words, leadingWord_append_blank first blank, closeWord_append]
  rfl

theorem leadingWord_of_blankFree {word : List Char} (free : BlankFree word) :
    leadingWord word = (word, []) := by
  induction word with
  | nil => rfl
  | cons c rest ih =>
      obtain ⟨first, later⟩ := List.forall_mem_cons.mp free
      rw [leadingWord, ih later]
      simp only [first, Bool.false_eq_true, ↓reduceIte]

/-- A text is free of blanks, or has a first blank. -/
theorem blankFree_or_append (text : List Char) :
    BlankFree text ∨ ∃ word c rest,
      BlankFree word ∧ isBlank c = true ∧ text = word ++ c :: rest := by
  induction text with
  | nil => exact .inl blankFree_nil
  | cons a rest ih =>
      by_cases blank : isBlank a = true
      · exact .inr ⟨[], a, rest, fun _ member => absurd member List.not_mem_nil, blank, rfl⟩
      · have free : isBlank a = false := Bool.eq_false_iff.mpr blank
        rcases ih with none | ⟨word, c, later, inside, blank, rfl⟩
        · exact .inl (List.forall_mem_cons.mpr ⟨free, none⟩)
        · exact .inr ⟨a :: word, c, later, List.forall_mem_cons.mpr ⟨free, inside⟩, blank, rfl⟩

/-- A property holds of all texts if it holds of texts without blanks and passes from
the text after a blank to that with a word before it. -/
@[elab_as_elim]
theorem wordInduction {motive : List Char → Prop} (text : List Char)
    (last : ∀ word, BlankFree word → motive word)
    (next : ∀ word c rest, BlankFree word → isBlank c = true → motive rest →
      motive (word ++ c :: rest)) : motive text := by
  induction size : text.length using Nat.strongRecOn generalizing text with
  | ind size_ ih =>
      rcases blankFree_or_append text with free | ⟨word, c, rest, free, blank, rfl⟩
      · exact last text free
      · refine next word c rest free blank (ih rest.length ?_ rest rfl)
        rw [← size, List.length_append, List.length_cons]
        omega

/-- A text between two equal quotation marks. -/
def Wrapped (text : List Char) : Prop :=
  ∃ mark inner, isQuote mark = true ∧ text = mark :: (inner ++ [mark])

theorem wrapped_of_unquote? {text inner : List Char} (unquoted : unquote? text = some inner) :
    Wrapped text := by
  cases text with
  | nil => contradiction
  | cons first rest =>
      rw [unquote?] at unquoted
      cases ends : rest.getLast? with
      | none =>
          rw [ends] at unquoted
          contradiction
      | some last =>
          simp only [ends, Option.ite_none_right_eq_some, Bool.and_eq_true, beq_iff_eq] at unquoted
          obtain ⟨⟨quote, rfl⟩, _⟩ := unquoted
          obtain ⟨inside, rfl⟩ := List.getLast?_eq_some_iff.mp ends
          exact ⟨first, inside, quote, rfl⟩

theorem unquote?_eq_none {text : List Char} (unwrapped : ¬ Wrapped text) :
    unquote? text = none := by
  rw [Option.eq_none_iff_forall_ne_some]
  intro inner unquoted
  exact unwrapped (wrapped_of_unquote? unquoted)

theorem not_wrapped_of_unquote?_eq_none {text : List Char} (unquoted : unquote? text = none) :
    ¬ Wrapped text := by
  rintro ⟨mark, inner, quote, rfl⟩
  rw [unquote?_wrapped quote] at unquoted
  contradiction

end AccessPolicy.Text

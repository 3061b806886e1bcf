/-! # Splitting a text

A text is cut at every occurrence of a separator. The parts may be empty, and
there is always one part more than there are separators.
-/

namespace AccessPolicy.Text

/-- The part before the first separator, and the parts after it. -/
def splitFirst (separator : Char) : List Char → List Char × List (List Char)
  | [] => ([], [])
  | c :: rest =>
    let (part, later) := splitFirst separator rest
    if c = separator then ([], part :: later) else (c :: part, later)

def splitOn (separator : Char) (text : List Char) : List (List Char) :=
  (splitFirst separator text).1 :: (splitFirst separator text).2

/-- Joining the parts with the separator gives the text back. -/
theorem intercalate_splitOn (separator : Char) (text : List Char) :
    [separator].intercalate (splitOn separator text) = text := by
  induction text with
  | nil => rfl
  | cons c rest ih =>
    simp only [splitOn, splitFirst] at ih ⊢
    by_cases same : c = separator
    · subst same
      simp only [if_true]
      rw [List.intercalate_cons_cons, ih]
      rfl
    · simp only [same, if_false]
      cases later : (splitFirst separator rest).2 with
      | nil => simpa [later] using ih
      | cons next others => simpa [later, List.intercalate_cons_cons] using ih

theorem splitFirst_append {separator : Char} {part : List Char} (free : separator ∉ part)
    (rest : List Char) :
    splitFirst separator (part ++ separator :: rest) = (part, splitOn separator rest) := by
  induction part with
  | nil => simp [splitFirst, splitOn]
  | cons c part ih =>
    obtain ⟨different, free⟩ := List.ne_and_not_mem_of_not_mem_cons free
    simp only [List.cons_append, splitFirst, ih free, if_neg (Ne.symm different)]

theorem splitOn_of_notMem {separator : Char} {part : List Char} (free : separator ∉ part) :
    splitOn separator part = [part] := by
  induction part with
  | nil => rfl
  | cons c part ih =>
    obtain ⟨different, free⟩ := List.ne_and_not_mem_of_not_mem_cons free
    have whole := ih free
    simp only [splitOn, List.cons.injEq] at whole
    simp only [splitOn, splitFirst, if_neg (Ne.symm different), whole]

/-- Splitting parts that are joined with the separator, and do not have it, gives them back. -/
theorem splitOn_intercalate {separator : Char} {parts : List (List Char)} (nonempty : parts ≠ [])
    (free : ∀ part ∈ parts, separator ∉ part) :
    splitOn separator ([separator].intercalate parts) = parts := by
  induction parts with
  | nil => exact absurd rfl nonempty
  | cons part rest ih =>
    obtain ⟨first, others⟩ := List.forall_mem_cons.mp free
    cases rest with
    | nil => simpa using splitOn_of_notMem first
    | cons next rest =>
      rw [List.intercalate_cons_cons, List.append_assoc, List.singleton_append, splitOn,
        splitFirst_append first, ih (List.cons_ne_nil _ _) others]

end AccessPolicy.Text

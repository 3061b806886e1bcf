/-! # Reading from the beginning of an input

A reader takes something off the beginning of an input and gives what it stands
for and the rest. That the rest is shorter bounds every loop over the input.
-/

namespace AccessPolicy

variable {τ : Type}

/-- A value read from the beginning of an input, and the rest. -/
structure Parsed (α : Type) (input : List τ) where
  value : α
  rest : List τ
  shorter : rest.length < input.length

/-- The rest after the first item is shorter than the input. -/
theorem length_lt_cons (item : τ) (rest : List τ) : rest.length < (item :: rest).length :=
  Nat.lt_succ_self _

/-- What is shorter than the rest is shorter than the input. -/
theorem length_lt_of_rest {left rest : List τ} (shorter : left.length < rest.length) :
    left.length < rest.length + 1 :=
  Nat.lt_succ_of_lt shorter

/-- The rest of an input after a part that may be empty. -/
abbrev Remainder (input : List τ) : Type :=
  { rest : List τ // rest.length ≤ input.length }

/-- The input from its first item that is not to be skipped. -/
def skipWhile (skipped : τ → Bool) (input : List τ) : Remainder input :=
  ⟨input.dropWhile skipped, (List.dropWhile_sublist _).length_le⟩

end AccessPolicy

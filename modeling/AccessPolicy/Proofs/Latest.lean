import Mathlib.Data.List.Basic

/-! # The latest of several values

Where values are given one after another, and some items of a sequence give none, the
latest one counts.
-/

namespace AccessPolicy

variable {α β : Type}

/-- With one more item in front, what it gives counts if no later item gives anything. -/
theorem getLast?_filterMap_cons_or (given? : α → Option β) (item : α) (rest : List α)
    (earlier : Option β) :
    ((item :: rest).filterMap given?).getLast?.or earlier =
      (rest.filterMap given?).getLast?.or ((given? item).or earlier) := by
  rw [List.filterMap_cons]
  cases given? item with
  | none => rw [Option.none_or]
  | some value =>
      rw [List.getLast?_cons, Option.some_or]
      cases (rest.filterMap given?).getLast? <;> rfl

end AccessPolicy

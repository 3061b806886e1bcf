import AccessPolicy.Evaluation
import Mathlib.Data.List.Forall2

/-! # Checks that evaluate alike

Two checks are equivalent when every evaluation runs through them alike: the same
result, the same references in the same order and the same reports, whatever the
rules, the request and the way references are entered. A conjunction in front of a
conjunction, or the only branch of one, may be written without its node.
-/

namespace AccessPolicy

namespace Evaluation

variable (rules : Table Check) (request : Request) (enter : String → Check → Run)

/-- Branches in two parts are evaluated part by part, and the second part only if the
first allows. -/
theorem evaluateAll_append (first second : List Check) (progress : Progress) :
    evaluateAll rules request enter (first ++ second) progress =
      match evaluateAll rules request enter first progress with
      | (true, progress) => evaluateAll rules request enter second progress
      | (false, progress) => (false, progress) := by
  induction first generalizing progress with
  | nil => rfl
  | cons branch rest ih =>
      simp only [List.cons_append, evaluateAll]
      rcases evaluate rules request enter branch progress with ⟨allowed, later⟩
      cases allowed with
      | true => exact ih later
      | false => rfl

theorem evaluateAll_singleton (branch : Check) (progress : Progress) :
    evaluateAll rules request enter [branch] progress =
      evaluate rules request enter branch progress := by
  simp only [evaluateAll]
  rcases evaluate rules request enter branch progress with ⟨allowed, later⟩
  cases allowed <;> rfl

theorem evaluateAny_singleton (branch : Check) (progress : Progress) :
    evaluateAny rules request enter [branch] progress =
      evaluate rules request enter branch progress := by
  simp only [evaluateAny]
  rcases evaluate rules request enter branch progress with ⟨allowed, later⟩
  cases allowed <;> rfl

end Evaluation

namespace Check

open Evaluation

/-- Every evaluation runs through both checks alike. -/
def Equivalent (first second : Check) : Prop :=
  ∀ (rules : Table Check) (request : Request) (enter : String → Check → Run)
    (progress : Progress),
    evaluate rules request enter first progress = evaluate rules request enter second progress

namespace Equivalent

theorem refl (check : Check) : Equivalent check check :=
  fun _ _ _ _ => rfl

theorem symm {first second : Check} (same : Equivalent first second) :
    Equivalent second first :=
  fun rules request enter progress => (same rules request enter progress).symm

theorem trans {first second third : Check} (left : Equivalent first second)
    (right : Equivalent second third) : Equivalent first third :=
  fun rules request enter progress =>
    (left rules request enter progress).trans (right rules request enter progress)

theorem not {first second : Check} (same : Equivalent first second) :
    Equivalent (.not first) (.not second) := by
  intro rules request enter progress
  simp only [evaluate, same rules request enter progress]

theorem and {first second : List Check} (same : List.Forall₂ Equivalent first second) :
    Equivalent (.and first) (.and second) := by
  intro rules request enter progress
  simp only [evaluate]
  induction same generalizing progress with
  | nil => rfl
  | cons branch _ ih => simp only [evaluateAll, branch rules request enter progress, ih]

theorem or {first second : List Check} (same : List.Forall₂ Equivalent first second) :
    Equivalent (.or first) (.or second) := by
  intro rules request enter progress
  simp only [evaluate]
  induction same generalizing progress with
  | nil => rfl
  | cons branch _ ih => simp only [evaluateAny, branch rules request enter progress, ih]

theorem and_singleton (branch : Check) : Equivalent (.and [branch]) branch :=
  fun rules request enter progress => evaluateAll_singleton rules request enter branch progress

theorem or_singleton (branch : Check) : Equivalent (.or [branch]) branch :=
  fun rules request enter progress => evaluateAny_singleton rules request enter branch progress

/-- A conjunction in front of other branches may give them its own. -/
theorem and_append (branches rest : List Check) :
    Equivalent (.and (branches ++ rest)) (.and (.and branches :: rest)) := by
  intro rules request enter progress
  simp only [evaluate, evaluateAll_append]
  rfl

/-- Equivalent checks decide every request alike. -/
theorem decide_eq {first second : Check} (same : Equivalent first second)
    (rules : Table Check) (request : Request) :
    first.decide rules request = second.decide rules request := by
  simp only [decide, same rules request (enterFirst rules request) .start]

end Equivalent

end Check

end AccessPolicy

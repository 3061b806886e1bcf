import AccessPolicy.Proofs.Evaluation.Budget

/-! # Allowed conjunctions and disjunctions

A branch of a check can be asked for by itself, with a budget of its own. An allowed
conjunction has met all references that its branches meet, and an allowed disjunction
those of a branch that holds. So these branches are allowed by themselves as well. The
converse needs room: branches that are allowed one by one may exceed the budget together.
-/

namespace AccessPolicy.Check

open Evaluation

section Met

variable {request : Request} {truth : String → Bool} {met : String → List Reference}
  {branches : List Check}

/-- In a conjunction that holds, the references of every branch are met. -/
theorem length_metWith_le_metInAll (all : allHold request truth branches = true) {branch : Check}
    (member : branch ∈ branches) :
    (branch.metWith request truth met).length ≤ (metInAll request truth met branches).length := by
  induction branches with
  | nil => exact absurd member List.not_mem_nil
  | cons first rest ih =>
      obtain ⟨here, later⟩ := Bool.and_eq_true_iff.mp all
      rw [metInAll, if_pos here, List.length_append]
      rcases List.mem_cons.mp member with rfl | among
      · exact Nat.le_add_right _ _
      · exact Nat.le_trans (ih later among) (Nat.le_add_left _ _)

/-- In a disjunction that holds, the references of a branch that holds are met. -/
theorem exists_length_metWith_le_metInAny (any : anyHolds request truth branches = true) :
    ∃ branch ∈ branches, branch.holds request truth = true ∧
      (branch.metWith request truth met).length ≤
        (metInAny request truth met branches).length := by
  induction branches with
  | nil => contradiction
  | cons first rest ih =>
      rw [metInAny, List.length_append]
      by_cases here : first.holds request truth = true
      · exact ⟨first, List.mem_cons_self, here, Nat.le_add_right _ _⟩
      · rw [anyHolds, Bool.eq_false_iff.mpr here, Bool.false_or] at any
        obtain ⟨branch, among, holds, bound⟩ := ih any
        rw [if_neg here]
        exact ⟨branch, List.mem_cons_of_mem _ among, holds,
          Nat.le_trans bound (Nat.le_add_left _ _)⟩

end Met

variable {rules : Table Check} {request : Request}

theorem allowed_iff (check : Check) :
    (check.decide rules request).allowed = true ↔
      check.meaning rules request [] = true ∧
        (check.met rules request []).length ≤ greatestSteps := by
  rw [allowed_decide, Bool.and_eq_true, decide_eq_true_eq]

/-- Every branch of an allowed conjunction is allowed by itself. -/
theorem allowed_of_allowed_and {branches : List Check}
    (allowed : ((and branches).decide rules request).allowed = true) {branch : Check}
    (member : branch ∈ branches) : (branch.decide rules request).allowed = true := by
  obtain ⟨all, room⟩ := (allowed_iff _).mp allowed
  have holds : branch.meaning rules request [] = true := by
    have every : branches.all (holds request (truth rules request [])) = true :=
      (allHold_eq_all ..).symm.trans all
    exact List.all_eq_true.mp every branch member
  have bound : (branch.met rules request []).length ≤ ((and branches).met rules request []).length :=
    length_metWith_le_metInAll all member
  exact (allowed_iff _).mpr ⟨holds, Nat.le_trans bound room⟩

/-- Some branch of an allowed disjunction is allowed by itself. -/
theorem exists_allowed_of_allowed_or {branches : List Check}
    (allowed : ((or branches).decide rules request).allowed = true) :
    ∃ branch ∈ branches, (branch.decide rules request).allowed = true := by
  obtain ⟨any, room⟩ := (allowed_iff _).mp allowed
  obtain ⟨branch, member, holds, bound⟩ := exists_length_metWith_le_metInAny any
  exact ⟨branch, member, (allowed_iff _).mpr ⟨holds, Nat.le_trans bound room⟩⟩

end AccessPolicy.Check

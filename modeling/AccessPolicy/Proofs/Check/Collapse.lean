import AccessPolicy.Proofs.Check.WellFormed
import AccessPolicy.Proofs.Evaluation.Equivalence

/-! # Collapsing short conjunctions and disjunctions

A conjunction or disjunction of a single branch decides like its branch, and one without
branches decides like a leaf. Taking all of these nodes out of a check changes no
evaluation of it: the same references are followed in the same order. A well-formed check
has none of them.
-/

namespace AccessPolicy.Check

/-- The check of branches of which there may be none or one. -/
def collapse (empty : Check) (join : List Check → Check) : List Check → Check
  | [] => empty
  | [branch] => branch
  | branches => join branches

mutual

/-- The check without its conjunctions and disjunctions of fewer than two branches. -/
def collapsed : Check → Check
  | .not inner => .not inner.collapsed
  | .and branches => collapse .allow .and (collapsedBranches branches)
  | .or branches => collapse .deny .or (collapsedBranches branches)
  | leaf => leaf

def collapsedBranches : List Check → List Check
  | [] => []
  | branch :: rest => branch.collapsed :: collapsedBranches rest

end

theorem collapsedBranches_eq_map (branches : List Check) :
    collapsedBranches branches = branches.map collapsed := by
  induction branches with
  | nil => rfl
  | cons branch rest ih => rw [collapsedBranches, ih, List.map_cons]

theorem equivalent_collapse_and (branches : List Check) :
    Equivalent (.and branches) (collapse .allow .and branches) := by
  match branches with
  | [] => exact fun _ _ _ _ => rfl
  | [branch] => exact .and_singleton branch
  | _ :: _ :: _ => exact .refl _

theorem equivalent_collapse_or (branches : List Check) :
    Equivalent (.or branches) (collapse .deny .or branches) := by
  match branches with
  | [] => exact fun _ _ _ _ => rfl
  | [branch] => exact .or_singleton branch
  | _ :: _ :: _ => exact .refl _

/-- A check is evaluated like its collapsed form. -/
theorem equivalent_collapsed (check : Check) : Equivalent check check.collapsed := by
  have branchwise : ∀ branches : List Check,
      (∀ branch ∈ branches, Equivalent branch branch.collapsed) →
        List.Forall₂ Equivalent branches (collapsedBranches branches) := by
    intro branches every
    rw [collapsedBranches_eq_map, List.forall₂_map_right_iff, List.forall₂_same]
    exact every
  induction check using branchInduction with
  | not inner ih => exact ih.not
  | and branches ih =>
      exact (Equivalent.and (branchwise branches ih)).trans (equivalent_collapse_and _)
  | or branches ih =>
      exact (Equivalent.or (branchwise branches ih)).trans (equivalent_collapse_or _)
  | deny => exact .refl _
  | allow => exact .refl _
  | rule name => exact .refl _
  | role name => exact .refl _
  | compare kind matcher => exact .refl _

theorem collapse_of_several (empty : Check) (join : List Check → Check) {branches : List Check}
    (several : 2 ≤ branches.length) : collapse empty join branches = join branches := by
  match branches with
  | _ :: _ :: _ => rfl

/-- There is nothing to collapse in a well-formed check. -/
theorem WellFormed.collapsed_eq {check : Check} (formed : check.WellFormed) :
    check.collapsed = check := by
  have unchanged : ∀ branches : List Check, (∀ branch ∈ branches, branch.collapsed = branch) →
      collapsedBranches branches = branches := by
    intro branches every
    rw [collapsedBranches_eq_map, List.map_congr_left every, List.map_id']
  induction formed with
  | not _ ih => rw [collapsed, ih]
  | and several _ ih => rw [collapsed, unchanged _ ih, collapse_of_several _ _ several]
  | or several _ ih => rw [collapsed, unchanged _ ih, collapse_of_several _ _ several]
  | deny => rfl
  | allow => rfl
  | rule _ => rfl
  | role _ => rfl
  | compare _ _ _ _ => rfl

end AccessPolicy.Check

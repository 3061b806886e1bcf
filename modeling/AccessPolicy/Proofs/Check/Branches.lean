import AccessPolicy.Check.Leaf

/-! # Branches and leaves of checks

A check is built from leaves, one negated check, or any number of branches, and a
property of all checks is shown from that of the branches. What stands somewhere in a
check is a part of it, and the parts without branches are its leaves.
-/

namespace AccessPolicy.Check

section Induction

variable {motive : Check → Prop} (deny : motive .deny) (allow : motive .allow)
  (not : ∀ inner, motive inner → motive (.not inner))
  (and : ∀ branches, (∀ branch ∈ branches, motive branch) → motive (.and branches))
  (or : ∀ branches, (∀ branch ∈ branches, motive branch) → motive (.or branches))
  (rule : ∀ name, motive (.rule name)) (role : ∀ name, motive (.role name))
  (compare : ∀ kind matcher, motive (.compare kind matcher))

include deny allow not and or rule role compare

/-- A property holds of all checks if it passes from branches to the check made of
them. -/
@[elab_as_elim]
theorem branchInduction : ∀ check, motive check
  | .deny => deny
  | .allow => allow
  | .not inner => not inner (branchInduction inner)
  | .and branches => and branches fun branch _ => branchInduction branch
  | .or branches => or branches fun branch _ => branchInduction branch
  | .rule name => rule name
  | .role name => role name
  | .compare kind matcher => compare kind matcher
termination_by check => sizeOf check

end Induction

/-- A check is a part of another one, or the whole of it. -/
inductive OccursIn (part : Check) : Check → Prop where
  | whole : OccursIn part part
  | not {inner : Check} : OccursIn part inner → OccursIn part (.not inner)
  | and {branches : List Check} {branch : Check} :
      branch ∈ branches → OccursIn part branch → OccursIn part (.and branches)
  | or {branches : List Check} {branch : Check} :
      branch ∈ branches → OccursIn part branch → OccursIn part (.or branches)

/-- A check that is neither a negation nor made of branches. -/
def IsLeaf : Check → Prop
  | .not _ | .and _ | .or _ => False
  | _ => True

theorem isLeaf_of_ofWord? {word : List Char} {check : Check} (reads : ofWord? word = some check) :
    check.IsLeaf := by
  unfold ofWord? at reads
  split at reads
  · cases reads
    trivial
  · split at reads
    · cases reads
      trivial
    · split at reads
      · cases reads
        trivial
      · split at reads
        · cases reads
          trivial
        · obtain ⟨_, _, rfl⟩ := Option.map_eq_some_iff.mp reads
          trivial

/-- Every word stands for a leaf. -/
theorem isLeaf_ofWord (word : String) : (ofWord word).IsLeaf := by
  rw [ofWord]
  cases reads : ofWord? word.toList with
  | none => trivial
  | some check => exact isLeaf_of_ofWord? reads

end AccessPolicy.Check

import AccessPolicy.Proofs.Evaluation.Acyclic
import Mathlib.Data.Set.Card

/-! # What a check reaches

The references of a check lead to names, and those of their rules to further names.
Apart from its own tree a check uses the rules it reaches in this way, and no others.
-/

namespace AccessPolicy

namespace Evaluation

/-- References lead from a check to a name. -/
inductive Reaches (rules : Table Check) (check : Check) : String → Prop where
  | mention {name : String} : check.Mentions name → Reaches rules check name
  | follow {name other : String} :
      Reaches rules check name → RefersTo rules name other → Reaches rules check other

/-- A check has a part in its tree, or in a rule that it reaches. -/
inductive Uses (rules : Table Check) (check part : Check) : Prop where
  | tree : part.OccursIn check → Uses rules check part
  | body {name : String} {body : Check} :
      Reaches rules check name → rules.get? name = some body → part.OccursIn body →
        Uses rules check part

/-- The names of rules that a check reaches. -/
def reachedRules (rules : Table Check) (check : Check) : Set String :=
  {name | Reaches rules check name ∧ ∃ body, rules.get? name = some body}

variable {rules : Table Check} {check : Check}

theorem Reaches.through {name other : String} {body : Check} (reached : Reaches rules check name)
    (found : rules.get? name = some body) (mentioned : body.Mentions other) :
    Reaches rules check other :=
  reached.follow ⟨body, found, mentioned⟩

/-- A check reaches no more rules than there are. -/
theorem encard_reachedRules_le (rules : Table Check) (check : Check) :
    (reachedRules rules check).encard ≤ rules.size := by
  have among : reachedRules rules check ⊆ rules.keys.toFinset := by
    rintro name ⟨_, body, found⟩
    rw [Finset.mem_coe, List.mem_toFinset]
    exact List.mem_map.mpr ⟨_, Table.mem_entries_of_get? found, rfl⟩
  calc (reachedRules rules check).encard
      ≤ (rules.keys.toFinset : Set String).encard := Set.encard_le_encard among
    _ = rules.keys.toFinset.card := Set.encard_coe_eq_coe_finsetCard _
    _ ≤ rules.size := by
        have bound := List.toFinset_card_le rules.keys
        rw [Table.keys, List.length_map] at bound
        exact_mod_cast bound

end Evaluation

end AccessPolicy

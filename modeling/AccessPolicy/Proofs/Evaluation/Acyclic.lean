import AccessPolicy.Proofs.Evaluation.Meaning
import Mathlib.Data.Fintype.Basic
import Mathlib.Data.Set.Finite.Lemmas
import Mathlib.Order.WellFounded

/-! # Stores without cycles

A rule refers to the names that its body mentions. When no chain of such references
leads back to where it began, every name has exactly one truth value such that each
rule says what its body says: the references can be followed to their ends, without
any limit.
-/

namespace AccessPolicy

namespace Table

variable {α : Type} {table : Table α} {key : String}

theorem mem_entries_of_get? {value : α} (found : table.get? key = some value) :
    (key, value) ∈ table.entries := by
  obtain ⟨before, after, entries, _⟩ := List.lookup_eq_some_iff.mp found
  rw [entries]
  simp

theorem not_mem_keys_of_get? (absent : table.get? key = none) : key ∉ table.keys := by
  intro member
  obtain ⟨entry, present, rfl⟩ := List.mem_map.mp member
  have differs := List.lookup_eq_none_iff.mp absent entry present
  simp at differs

end Table

/-- A name stands somewhere in a check as a reference. -/
inductive Check.Mentions (name : String) : Check → Prop where
  | rule : Mentions name (.rule name)
  | not {inner : Check} : Mentions name inner → Mentions name (.not inner)
  | and {branches : List Check} {branch : Check} :
      branch ∈ branches → Mentions name branch → Mentions name (.and branches)
  | or {branches : List Check} {branch : Check} :
      branch ∈ branches → Mentions name branch → Mentions name (.or branches)

namespace Evaluation

variable {rules : Table Check} {request : Request}

/-- The rule of the first name mentions the second. -/
def RefersTo (rules : Table Check) (name other : String) : Prop :=
  ∃ body, rules.get? name = some body ∧ body.Mentions other

/-- No chain of references leads back to its beginning. -/
def Acyclic (rules : Table Check) : Prop :=
  ∀ name, ¬ Relation.TransGen (RefersTo rules) name name

/-- Every name is as true as the body of its rule, and untrue without a rule. -/
def Unlimited (rules : Table Check) (request : Request) (truth : String → Bool) : Prop :=
  ∀ name, truth name =
    match rules.get? name with
    | some body => body.holds request truth
    | none => false

/-- What a check says depends only on the names it mentions. -/
theorem holds_congr {check : Check} {first second : String → Bool}
    (same : ∀ name, check.Mentions name → first name = second name) :
    check.holds request first = check.holds request second := by
  induction check using Check.branchInduction with
  | deny => rfl
  | allow => rfl
  | not inner ih =>
      simp only [Check.holds, ih fun name mentioned => same name (.not mentioned)]
  | and branches ih =>
      rw [Check.holds, Check.holds, Check.allHold_eq_all, Check.allHold_eq_all, Bool.eq_iff_iff,
        List.all_eq_true, List.all_eq_true]
      refine forall₂_congr fun branch member => ?_
      rw [ih branch member fun name mentioned => same name (.and member mentioned)]
  | or branches ih =>
      rw [Check.holds, Check.holds, Check.anyHolds_eq_any, Check.anyHolds_eq_any, Bool.eq_iff_iff,
        List.any_eq_true, List.any_eq_true]
      refine exists_congr fun branch => and_congr_right fun member => ?_
      rw [ih branch member fun name mentioned => same name (.or member mentioned)]
  | rule name => exact same name .rule
  | role name => rfl
  | compare kind matcher => rfl

theorem RefersTo.mem_keys {name other : String} (refers : RefersTo rules name other) :
    name ∈ rules.keys := by
  obtain ⟨body, found, _⟩ := refers
  exact List.mem_map.mpr ⟨_, Table.mem_entries_of_get? found, rfl⟩

/-- Every chain of references of an acyclic store comes to an end. -/
theorem Acyclic.wellFounded (acyclic : Acyclic rules) : WellFounded (flip (RefersTo rules)) := by
  have below : WellFounded fun first second : { name // name ∈ rules.keys } =>
      Relation.TransGen (RefersTo rules) second first := by
    have : IsTrans { name // name ∈ rules.keys }
        fun first second => Relation.TransGen (RefersTo rules) second first :=
      ⟨fun _ _ _ near far => far.trans near⟩
    have : Std.Irrefl fun first second : { name // name ∈ rules.keys } =>
        Relation.TransGen (RefersTo rules) second first :=
      ⟨fun entry => acyclic entry⟩
    exact Finite.wellFounded_of_trans_of_irrefl _
  have undefined : ∀ name, name ∉ rules.keys → Acc (flip (RefersTo rules)) name :=
    fun name absent => ⟨_, fun other refers => absurd refers.mem_keys absent⟩
  have defined : ∀ entry : { name // name ∈ rules.keys },
      Acc (flip (RefersTo rules)) entry.val := by
    intro entry
    induction entry using below.induction with
    | _ entry ih =>
        constructor
        intro other refers
        by_cases member : other ∈ rules.keys
        · exact ih ⟨other, member⟩ (.single refers)
        · exact undefined other member
  constructor
  intro name
  by_cases member : name ∈ rules.keys
  · exact defined ⟨name, member⟩
  · exact undefined name member

open Classical in
/-- The truth of the names of an acyclic store, found by following every reference to
its end. -/
noncomputable def Acyclic.truth (acyclic : Acyclic rules) (request : Request) :
    String → Bool :=
  acyclic.wellFounded.fix fun name below =>
    match rules.get? name with
    | some body =>
      body.holds request fun other =>
        if refers : RefersTo rules name other then below other refers else false
    | none => false

theorem Acyclic.unlimited_truth (acyclic : Acyclic rules) (request : Request) :
    Unlimited rules request (acyclic.truth request) := by
  intro name
  rw [Acyclic.truth, WellFounded.fix_eq]
  cases found : rules.get? name with
  | none => rfl
  | some body =>
      refine holds_congr fun other mentioned => ?_
      exact dif_pos ⟨body, found, mentioned⟩

/-- An acyclic store can be evaluated without any limit, in one way only. -/
theorem Acyclic.existsUnique_unlimited (acyclic : Acyclic rules) (request : Request) :
    ∃! truth : String → Bool, Unlimited rules request truth := by
  refine ⟨acyclic.truth request, acyclic.unlimited_truth request, fun other unlimited => ?_⟩
  funext name
  induction name using acyclic.wellFounded.induction with
  | _ name ih =>
      rw [unlimited name, acyclic.unlimited_truth request name]
      cases found : rules.get? name with
      | none => rfl
      | some body =>
          exact holds_congr fun mention mentioned => ih mention ⟨body, found, mentioned⟩

end Evaluation

end AccessPolicy

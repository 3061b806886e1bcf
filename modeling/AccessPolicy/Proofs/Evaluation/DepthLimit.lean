import AccessPolicy.Proofs.Evaluation.Acyclic
import AccessPolicy.Proofs.Evaluation.Budget

/-! # The limit on chains of references

A reference that is cut off because its chain is too long is untrue. Under an even
number of negations this can only deny, under an odd number it can also allow. So a
check that is allowed would be allowed without any limit too, unless a reference under
a negation was cut off; and in an acyclic store limits only ever deny exactly when no
rule within the budget is decided otherwise than without limits. The budget itself
never allows anything.
-/

namespace AccessPolicy

namespace Evaluation

variable {rules : Table Check} {request : Request} {check : Check} {truth value : String → Bool}
  {met : String → List Reference} {chain : List String} {name : String} {negated : Bool}

/-- No reference under a negation is cut off for the length of its chain, where
`negated` tells whether there is one more negation above all. -/
def Uncut (negated : Bool) (references : List Reference) : Prop :=
  ∀ reference ∈ references, (negated ^^ reference.negated) = true →
    reference.chain.length < greatestDepth

theorem uncut_append {first second : List Reference} :
    Uncut negated (first ++ second) ↔ Uncut negated first ∧ Uncut negated second :=
  List.forall_mem_append

theorem uncut_map_flip {references : List Reference} :
    Uncut negated (references.map Reference.flip) ↔ Uncut (!negated) references := by
  simp [Uncut, Reference.flip]

/-! One branch after another, where the second counts if the first allows, or denies. What
the branches keep under a flag that may invert them, both together keep too. -/

private theorem xor_and_mono {first second firstValue secondValue : Bool}
    (left : (negated ^^ first) = true → (negated ^^ firstValue) = true)
    (right : first = true → (negated ^^ second) = true → (negated ^^ secondValue) = true)
    (both : (negated ^^ (first && second)) = true) :
    (negated ^^ (firstValue && secondValue)) = true := by
  revert left right both
  cases negated <;> cases first <;> cases second <;> cases firstValue <;> simp

private theorem xor_or_mono {first second firstValue secondValue : Bool}
    (left : (negated ^^ first) = true → (negated ^^ firstValue) = true)
    (right : first = false → (negated ^^ second) = true → (negated ^^ secondValue) = true)
    (either : (negated ^^ (first || second)) = true) :
    (negated ^^ (firstValue || secondValue)) = true := by
  revert left right either
  cases negated <;> cases first <;> cases second <;> cases firstValue <;> simp

/-- If no name under a negation gains truth by being cut off, and no other loses it, so
it is with a check. -/
theorem holds_of_uncut
    (names : ∀ name, check.Mentions name → ∀ negated, Uncut negated (met name) →
      (negated ^^ truth name) = true → (negated ^^ value name) = true)
    (uncut : Uncut negated (check.metWith request truth met))
    (holds : (negated ^^ check.holds request truth) = true) :
    (negated ^^ check.holds request value) = true := by
  induction check using Check.branchInduction generalizing negated with
  | deny => exact holds
  | allow => exact holds
  | not inner ih =>
      have inside := ih (fun name mentioned => names name (.not mentioned)) (uncut_map_flip.mp uncut)
      simp only [Check.holds, Bool.xor_not, Bool.not_xor] at holds inside ⊢
      exact inside holds
  | and branches ih =>
      have branchwise : ∀ branch ∈ branches, ∀ negated,
          Uncut negated (branch.metWith request truth met) →
            (negated ^^ branch.holds request truth) = true →
              (negated ^^ branch.holds request value) = true :=
        fun branch member negated => ih branch member fun name mentioned =>
          names name (.and member mentioned)
      clear ih names
      simp only [Check.holds, Check.metWith] at uncut holds ⊢
      induction branches with
      | nil => exact holds
      | cons branch rest others =>
          rw [Check.metInAll, uncut_append] at uncut
          refine xor_and_mono (branchwise branch (List.mem_cons_self ..) negated uncut.1) ?_ holds
          intro allows later
          rw [if_pos allows] at uncut
          exact others uncut.2 later fun branch member =>
            branchwise branch (List.mem_cons_of_mem _ member)
  | or branches ih =>
      have branchwise : ∀ branch ∈ branches, ∀ negated,
          Uncut negated (branch.metWith request truth met) →
            (negated ^^ branch.holds request truth) = true →
              (negated ^^ branch.holds request value) = true :=
        fun branch member negated => ih branch member fun name mentioned =>
          names name (.or member mentioned)
      clear ih names
      simp only [Check.holds, Check.metWith] at uncut holds ⊢
      induction branches with
      | nil => exact holds
      | cons branch rest others =>
          rw [Check.metInAny, uncut_append] at uncut
          refine xor_or_mono (branchwise branch (List.mem_cons_self ..) negated uncut.1) ?_ holds
          intro denies later
          rw [if_neg (Bool.eq_false_iff.mp denies)] at uncut
          exact others uncut.2 later fun branch member =>
            branchwise branch (List.mem_cons_of_mem _ member)
  | rule name => exact names name .rule negated uncut holds
  | role name => exact holds
  | compare kind matcher => exact holds

/-- Every rule of a chain leads to a name. -/
def Leads (rules : Table Check) (chain : List String) (name : String) : Prop :=
  ∀ earlier ∈ chain, Relation.TransGen (RefersTo rules) earlier name

theorem leads_nil : Leads rules [] name :=
  fun _ member => absurd member List.not_mem_nil

theorem Leads.snoc {other : String} (leads : Leads rules chain name)
    (refers : RefersTo rules name other) : Leads rules (chain ++ [name]) other := by
  intro earlier member
  rcases List.mem_append.mp member with before | last
  · exact (leads earlier before).tail refers
  · rw [List.mem_singleton.mp last]
    exact .single refers

/-- In an acyclic store, a name at the end of a chain that leads to it gains truth only
if a reference under a negation is cut off. -/
theorem value_of_uncut (acyclic : Acyclic rules) (unlimited : Unlimited rules request value)
    (leads : Leads rules chain name) (negated : Bool)
    (uncut : Uncut negated (Evaluation.met rules request chain name))
    (holds : (negated ^^ Evaluation.truth rules request chain name) = true) :
    (negated ^^ value name) = true := by
  generalize room : greatestDepth - chain.length = left
  induction left using Nat.strongRecOn generalizing chain name negated with
  | ind left ih =>
      cases found : rules.get? name with
      | none =>
          rw [truth_of_undefined request chain found] at holds
          rwa [unlimited name, found]
      | some body =>
          have extending : name ∉ chain := fun member => acyclic name (leads name member)
          rw [truth_of_defined request chain found] at holds
          rw [met_of_defined request chain found] at uncut
          obtain ⟨first, inside⟩ := List.forall_mem_cons.mp uncut
          by_cases short : chain.length < greatestDepth
          · rw [if_pos ⟨extending, short⟩] at holds inside
            rw [unlimited name, found]
            refine holds_of_uncut (fun other mentioned negated uncut holds => ?_) inside holds
            refine ih _ ?_ (leads.snoc ⟨body, found, mentioned⟩) negated uncut holds rfl
            rw [List.length_append, List.length_singleton]
            omega
          · -- The reference is cut off, so it stands under no negation.
            rw [if_neg fun room => short room.2, Bool.xor_false] at holds
            exact absurd (first (by rw [holds]; rfl)) short

/-- With the same truth of every name that is within the budget, a check that is within
it says the same. -/
theorem holds_eq_of_length_le {budget : Nat}
    (names : ∀ name, (met name).length ≤ budget → truth name = value name)
    (room : (check.metWith request truth met).length ≤ budget) :
    check.holds request truth = check.holds request value := by
  induction check using Check.branchInduction with
  | deny => rfl
  | allow => rfl
  | not inner ih =>
      rw [Check.metWith, List.length_map] at room
      rw [Check.holds, Check.holds, ih room]
  | and branches ih =>
      simp only [Check.holds, Check.metWith] at room ⊢
      induction branches with
      | nil => rfl
      | cons branch rest others =>
          rw [Check.metInAll, List.length_append] at room
          rw [Check.allHold, Check.allHold, ← ih branch (List.mem_cons_self ..) (by omega)]
          cases allows : branch.holds request truth with
          | false => rfl
          | true =>
              rw [if_pos allows] at room
              rw [others (fun branch member => ih branch (List.mem_cons_of_mem _ member)) (by omega)]
  | or branches ih =>
      simp only [Check.holds, Check.metWith] at room ⊢
      induction branches with
      | nil => rfl
      | cons branch rest others =>
          rw [Check.metInAny, List.length_append] at room
          rw [Check.anyHolds, Check.anyHolds, ← ih branch (List.mem_cons_self ..) (by omega)]
          cases allows : branch.holds request truth with
          | true => rfl
          | false =>
              rw [if_neg (by rw [allows]; decide)] at room
              rw [others (fun branch member => ih branch (List.mem_cons_of_mem _ member)) (by omega)]
  | rule name => exact names name room
  | role name => rfl
  | compare kind matcher => rfl

theorem meaning_of_allowed (allowed : (check.decide rules request).allowed = true) :
    check.meaning rules request [] = true ∧
      (check.met rules request []).length ≤ greatestSteps := by
  rw [Check.allowed_decide, Bool.and_eq_true] at allowed
  exact ⟨allowed.1, of_decide_eq_true allowed.2⟩

theorem allowed_eq_meaning (room : (check.met rules request []).length ≤ greatestSteps) :
    (check.decide rules request).allowed = check.meaning rules request [] := by
  rw [Check.allowed_decide, decide_eq_true room, Bool.and_true]

theorem holds_of_allowed_of_uncut (acyclic : Acyclic rules)
    (unlimited : Unlimited rules request value)
    (allowed : (check.decide rules request).allowed = true)
    (uncut : Uncut false (check.met rules request [])) :
    check.holds request value = true := by
  obtain ⟨stated, _⟩ := meaning_of_allowed allowed
  have names : ∀ name, check.Mentions name → ∀ negated,
      Uncut negated (Evaluation.met rules request [] name) →
        (negated ^^ Evaluation.truth rules request [] name) = true →
          (negated ^^ value name) = true :=
    fun name _ negated => value_of_uncut acyclic unlimited leads_nil negated
  have holds : (false ^^ check.meaning rules request []) = true := by
    rwa [Bool.false_xor]
  have kept := holds_of_uncut names uncut holds
  rwa [Bool.false_xor] at kept

theorem forall_holds_of_allowed_iff :
    (∀ check : Check, (check.decide rules request).allowed = true →
        check.holds request value = true) ↔
      ∀ name, ((Check.rule name).met rules request []).length ≤ greatestSteps →
        ((Check.rule name).decide rules request).allowed = value name := by
  constructor
  · intro sound name room
    rw [allowed_eq_meaning room]
    cases stated : (Check.rule name).meaning rules request [] with
    | true =>
        have allowed := (allowed_eq_meaning room).trans stated
        exact (sound (.rule name) allowed).symm
    | false =>
        -- The negation of the name is allowed, so the name is untrue without limits too.
        have within : ((Check.not (.rule name)).met rules request []).length ≤ greatestSteps := by
          rwa [Check.met, Check.metWith, List.length_map]
        have allowed : ((Check.not (.rule name)).decide rules request).allowed = true := by
          rw [allowed_eq_meaning within]
          exact congrArg (!·) stated
        have untrue := sound (.not (.rule name)) allowed
        rw [Check.holds, Check.holds, Bool.not_eq_true'] at untrue
        exact untrue.symm
  · intro agree check allowed
    obtain ⟨stated, room⟩ := meaning_of_allowed allowed
    rw [← stated]
    refine (holds_eq_of_length_le (fun name within => ?_) room).symm
    have named : ((Check.rule name).decide rules request).allowed =
        Evaluation.truth rules request [] name := allowed_eq_meaning within
    rw [← agree name within, named]

/-- **Limits in an acyclic store.** Evaluation without limits gives every name exactly
one truth value. What is allowed within the limits is allowed without them if no
reference met under an odd number of negations is cut off for the length of its chain.
That everything allowed is allowed without limits means exactly that every name whose
references are within the budget is decided as without limits. -/
theorem limits_only_deny (acyclic : Acyclic rules) (request : Request) :
    (∃! truth : String → Bool, Unlimited rules request truth) ∧
      ∀ truth : String → Bool, Unlimited rules request truth →
        (∀ check : Check, (check.decide rules request).allowed = true →
          (∀ reference ∈ check.met rules request [], reference.negated = true →
            reference.chain.length < greatestDepth) →
          check.holds request truth = true) ∧
        ((∀ check : Check, (check.decide rules request).allowed = true →
            check.holds request truth = true) ↔
          ∀ name, ((Check.rule name).met rules request []).length ≤ greatestSteps →
            ((Check.rule name).decide rules request).allowed = truth name) := by
  refine ⟨acyclic.existsUnique_unlimited request, fun truth unlimited => ⟨?_, ?_⟩⟩
  · intro check allowed uncut
    apply holds_of_allowed_of_uncut acyclic unlimited allowed
    intro reference member negated
    rw [Bool.false_xor] at negated
    exact uncut reference member negated
  · exact forall_holds_of_allowed_iff

/-! ## A chain that is too long -/

/-- Each name refers to the next, and the last allows. -/
def linkedEntries : List String → List (String × Check)
  | [] => []
  | [last] => [(last, .allow)]
  | name :: next :: rest => (name, .rule next) :: linkedEntries (next :: rest)

theorem map_linkedEntries (names : List String) : (linkedEntries names).map (·.1) = names := by
  fun_induction linkedEntries names with
  | case1 => rfl
  | case2 last => rfl
  | case3 name next rest ih => rw [List.map_cons, ih]

theorem mem_linkedEntries {names : List String} (ascending : names.Pairwise (· < ·))
    {name : String} {body : Check} (member : (name, body) ∈ linkedEntries names) :
    body = .allow ∨ ∃ next ∈ names, name < next ∧ body = .rule next := by
  fun_induction linkedEntries names with
  | case1 => contradiction
  | case2 last =>
      obtain ⟨rfl, rfl⟩ := Prod.mk.inj (List.mem_singleton.mp member)
      exact .inl rfl
  | case3 first next rest ih =>
      obtain ⟨above, later⟩ := List.pairwise_cons.mp ascending
      rcases List.mem_cons.mp member with here | below
      · obtain ⟨rfl, rfl⟩ := Prod.mk.inj here
        exact .inr ⟨next, by simp, above next (by simp), rfl⟩
      · rcases ih later below with allows | ⟨other, among, less, refers⟩
        · exact .inl allows
        · exact .inr ⟨other, List.mem_cons_of_mem _ among, less, refers⟩

/-- The rules of names in ascending order, each of which refers to the next. -/
def linkedRules (names : List String) (ascending : names.Pairwise (· < ·)) : Table Check where
  entries := linkedEntries names
  ascending := by
    rw [← map_linkedEntries names, List.pairwise_map] at ascending
    exact ascending

theorem acyclic_of_lt
    (ascending : ∀ name other, RefersTo rules name other → name < other) : Acyclic rules := by
  intro name cycle
  have climbs : ∀ other, Relation.TransGen (RefersTo rules) name other → name < other := by
    intro other path
    induction path with
    | single refers => exact ascending _ _ refers
    | tail _ refers ih => exact String.lt_trans ih (ascending _ _ refers)
  exact String.lt_irrefl name (climbs name cycle)

theorem acyclic_linkedRules (names : List String) (ascending : names.Pairwise (· < ·)) :
    Acyclic (linkedRules names ascending) := by
  apply acyclic_of_lt
  intro name other refers
  obtain ⟨body, found, mentioned⟩ := refers
  rcases mem_linkedEntries ascending (Table.mem_entries_of_get? found) with rfl | linked
  · cases mentioned
  · obtain ⟨next, _, less, rfl⟩ := linked
    cases mentioned
    exact less

theorem unlimited_linkedRules (names : List String) (ascending : names.Pairwise (· < ·))
    (request : Request) :
    Unlimited (linkedRules names ascending) request (fun name => names.contains name) := by
  intro name
  have keys : (linkedRules names ascending).keys = names := map_linkedEntries names
  cases found : (linkedRules names ascending).get? name with
  | none =>
      have absent := Table.not_mem_keys_of_get? found
      rw [keys] at absent
      simpa using absent
  | some body =>
      have entry := Table.mem_entries_of_get? found
      have member : name ∈ names := keys ▸ List.mem_map.mpr ⟨_, entry, rfl⟩
      rcases mem_linkedEntries ascending entry with rfl | linked
      · exact List.contains_iff_mem.mpr member
      · obtain ⟨next, among, _, rfl⟩ := linked
        simp only [Check.holds, List.contains_iff_mem.mpr member, List.contains_iff_mem.mpr among]

def longNames : List String :=
  ["r00", "r01", "r02", "r03", "r04", "r05", "r06", "r07", "r08", "r09", "r10",
    "r11", "r12", "r13", "r14", "r15", "r16", "r17", "r18", "r19", "r20", "r21",
    "r22", "r23", "r24", "r25", "r26", "r27", "r28", "r29", "r30", "r31", "r32"]

/-- A chain of more rules than may be followed. -/
def longRules : Table Check :=
  linkedRules longNames (by decide +kernel)

/-- Limits allow what they should not when a reference is cut off under a negation: the
first name of the chain is true, and still its negation is allowed. -/
theorem allowed_by_depth_limit :
    Acyclic longRules ∧
      Unlimited longRules ⟨.null, .null⟩ (fun name => longNames.contains name) ∧
      ((Check.not (.rule "r00")).decide longRules ⟨.null, .null⟩).allowed = true ∧
      (Check.not (.rule "r00")).holds ⟨.null, .null⟩ (fun name => longNames.contains name) =
        false :=
  ⟨acyclic_linkedRules _ _, unlimited_linkedRules _ _ _, by decide +kernel, by decide +kernel⟩

/-- A chain that is short enough may stand under a negation. -/
theorem limits_only_deny_longRules :
    Acyclic longRules ∧ ∀ truth, Unlimited longRules ⟨.null, .null⟩ truth →
      (Check.not (.and [.rule "r02", .deny])).holds ⟨.null, .null⟩ truth = true := by
  have acyclic : Acyclic longRules := acyclic_linkedRules _ _
  refine ⟨acyclic, fun truth unlimited => ?_⟩
  have sound := ((limits_only_deny acyclic ⟨.null, .null⟩).2 truth unlimited).1
  have allowed : ((Check.not (.and [.rule "r02", .deny])).decide longRules
      ⟨.null, .null⟩).allowed = true := by decide +kernel
  have short : ((Check.not (.and [.rule "r02", .deny])).met longRules ⟨.null, .null⟩ []).all
      (fun reference => reference.chain.length < greatestDepth) = true := by decide +kernel
  exact sound _ allowed fun reference member _ =>
    of_decide_eq_true (List.all_eq_true.mp short reference member)

end Evaluation

end AccessPolicy

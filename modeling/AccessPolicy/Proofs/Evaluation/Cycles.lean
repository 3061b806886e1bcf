import AccessPolicy.Proofs.Evaluation.Budget
import AccessPolicy.Proofs.Evaluation.Reach

/-! # Rules that refer to each other in cycles

Rules without negations have a least solution, also when their references run in
cycles: the smallest set of names that contains a name as soon as its rule is true with
the names of the set. A name of the least solution is true by its rule already when the
name itself is taken out, so a chain of references loses nothing by never visiting a
rule twice. Evaluation grants nothing beyond the least solution, and within its limits
everything that follows from it.
-/

namespace AccessPolicy

namespace Evaluation

variable {rules : Table Check} {request : Request} {check : Check} {scope : Set String}
  {excluded chain : List String} {name : String}

/-- A check without negations keeps its truth when leaves of it and names it mentions
become true. -/
theorem holds_of_leaves {first second : Request} {before after : String → Bool}
    (positive : ∀ inner, ¬ (Check.not inner).OccursIn check)
    (roles : ∀ role, (Check.role role).OccursIn check →
      first.hasRole role = true → second.hasRole role = true)
    (comparisons : ∀ kind matcher, (Check.compare kind matcher).OccursIn check →
      first.agree kind matcher = true → second.agree kind matcher = true)
    (names : ∀ name, check.Mentions name → before name = true → after name = true)
    (holds : check.holds first before = true) : check.holds second after = true := by
  induction check using Check.branchInduction with
  | deny => exact holds
  | allow => rfl
  | not inner => exact absurd .whole (positive inner)
  | and branches ih =>
      rw [Check.holds, Check.allHold_eq_all, List.all_eq_true] at holds ⊢
      intro branch member
      apply ih branch member
      · exact fun inner occurs => positive inner (.and member occurs)
      · exact fun role occurs => roles role (.and member occurs)
      · exact fun kind matcher occurs => comparisons kind matcher (.and member occurs)
      · exact fun name mentioned => names name (.and member mentioned)
      · exact holds branch member
  | or branches ih =>
      rw [Check.holds, Check.anyHolds_eq_any, List.any_eq_true] at holds ⊢
      obtain ⟨branch, member, granted⟩ := holds
      refine ⟨branch, member, ih branch member ?_ ?_ ?_ ?_ granted⟩
      · exact fun inner occurs => positive inner (.or member occurs)
      · exact fun role occurs => roles role (.or member occurs)
      · exact fun kind matcher occurs => comparisons kind matcher (.or member occurs)
      · exact fun name mentioned => names name (.or member mentioned)
  | rule name => exact names name .rule holds
  | role role => exact roles role .whole holds
  | compare kind matcher => exact comparisons kind matcher .whole holds

/-- A check without negations keeps its truth when names it mentions become true. -/
theorem holds_mono {first second : String → Bool}
    (positive : ∀ inner, ¬ (Check.not inner).OccursIn check)
    (names : ∀ name, check.Mentions name → first name = true → second name = true)
    (holds : check.holds request first = true) : check.holds request second = true :=
  holds_of_leaves positive (fun _ _ kept => kept) (fun _ _ _ kept => kept) names holds

/-- A set of names contains every name whose rule is true with the names of the set,
apart from excluded names. -/
def ClosedWithout (rules : Table Check) (request : Request) (excluded : List String)
    (truth : String → Bool) : Prop :=
  ∀ name body, name ∉ excluded → rules.get? name = some body →
    body.holds request truth = true → truth name = true

open Classical in
/-- The names that every closed set contains, closed apart from excluded names. -/
noncomputable def leastWithout (rules : Table Check) (request : Request)
    (excluded : List String) (name : String) : Bool :=
  decide (∀ truth, ClosedWithout rules request excluded truth → truth name = true)

/-- The names that every set of names contains to which the rules add nothing. -/
noncomputable def leastTruth (rules : Table Check) (request : Request) : String → Bool :=
  leastWithout rules request []

theorem leastWithout_eq_true_iff :
    leastWithout rules request excluded name = true ↔
      ∀ truth, ClosedWithout rules request excluded truth → truth name = true := by
  classical
  exact decide_eq_true_iff

theorem leastWithout_of_append {more : List String}
    (least : leastWithout rules request (excluded ++ more) name = true) :
    leastWithout rules request excluded name = true := by
  rw [leastWithout_eq_true_iff] at least ⊢
  intro truth closed
  apply least truth
  intro other body remains found holds
  exact closed other body (fun member => remains (List.mem_append_left _ member)) found holds

/-- The rules of some names have no negations and refer to such names only. -/
structure Positive (rules : Table Check) (scope : Set String) : Prop where
  negationFree : ∀ {name body}, name ∈ scope → rules.get? name = some body →
    ∀ inner, ¬ (Check.not inner).OccursIn body
  mentioned_mem : ∀ {name body other}, name ∈ scope → rules.get? name = some body →
    body.Mentions other → other ∈ scope

namespace Positive

variable (positive : Positive rules scope)

include positive

/-- To contain the least solution, a set has to be closed within the scope only. -/
theorem le_of_closed {truth : String → Bool}
    (closed : ∀ name body, name ∈ scope → name ∉ excluded → rules.get? name = some body →
      body.holds request truth = true → truth name = true)
    (member : name ∈ scope) (least : leastWithout rules request excluded name = true) :
    truth name = true := by
  classical
  -- Outside of the scope everything may be taken for true.
  let total : String → Bool := fun other => if other ∈ scope then truth other else true
  have total_eq : ∀ other ∈ scope, total other = truth other := fun _ inside => if_pos inside
  have closedTotal : ClosedWithout rules request excluded total := by
    intro other body remains found holds
    by_cases inside : other ∈ scope
    · have same : body.holds request total = body.holds request truth :=
        holds_congr fun mention mentioned =>
          total_eq mention (positive.mentioned_mem inside found mentioned)
      rw [total_eq other inside]
      exact closed other body inside remains found (same.symm.trans holds)
    · exact if_neg inside
  rw [← total_eq name member]
  exact leastWithout_eq_true_iff.mp least total closedTotal

/-- The least solution is closed within the scope. -/
theorem leastWithout_of_holds {body : Check} (member : name ∈ scope) (remains : name ∉ excluded)
    (found : rules.get? name = some body)
    (holds : body.holds request (leastWithout rules request excluded) = true) :
    leastWithout rules request excluded name = true := by
  rw [leastWithout_eq_true_iff]
  intro truth closed
  apply closed name body remains found
  apply holds_mono (positive.negationFree member found) _ holds
  exact fun other _ least => leastWithout_eq_true_iff.mp least truth closed

/-- A name of the least solution is true by its rule without being used itself. -/
theorem exists_holds_of_least (member : name ∈ scope)
    (least : leastWithout rules request excluded name = true) :
    name ∉ excluded ∧ ∃ body, rules.get? name = some body ∧
      body.holds request (leastWithout rules request (excluded ++ [name])) = true := by
  by_contra refuted
  -- Otherwise the solution without the name would be closed.
  let rest : String → Bool := fun other =>
    other != name && leastWithout rules request (excluded ++ [name]) other
  have present : rest name = true := by
    refine positive.le_of_closed (fun other body inside remains found holds => ?_) member least
    have weaker : body.holds request (leastWithout rules request (excluded ++ [name])) = true :=
      holds_mono (positive.negationFree inside found)
        (fun _ _ kept => (Bool.and_eq_true_iff.mp kept).2) holds
    have different : other ≠ name := by
      rintro rfl
      exact refuted ⟨remains, body, found, weaker⟩
    have outside : other ∉ excluded ++ [name] := by
      rw [List.mem_append, List.mem_singleton]
      exact not_or.mpr ⟨remains, different⟩
    exact Bool.and_eq_true_iff.mpr
      ⟨bne_iff_ne.mpr different, positive.leastWithout_of_holds inside outside found weaker⟩
  simp [rest] at present

/-- Within the scope, exactly the names with a true rule are in the least solution. -/
theorem leastTruth_eq_true_iff (member : name ∈ scope) :
    leastTruth rules request name = true ↔
      ∃ body, rules.get? name = some body ∧
        body.holds request (leastTruth rules request) = true := by
  constructor
  · intro least
    obtain ⟨_, body, found, holds⟩ := positive.exists_holds_of_least member least
    refine ⟨body, found, holds_mono (positive.negationFree member found) ?_ holds⟩
    exact fun other _ kept => leastWithout_of_append kept
  · rintro ⟨body, found, holds⟩
    exact positive.leastWithout_of_holds member List.not_mem_nil found holds

/-- What is true at the end of a chain is in the least solution. -/
theorem least_of_truth (member : name ∈ scope)
    (granted : truth rules request chain name = true) : leastTruth rules request name = true := by
  generalize room : greatestDepth - chain.length = left
  induction left using Nat.strongRecOn generalizing chain name with
  | ind left ih =>
      obtain ⟨body, found, _, short, inside⟩ :=
        (Check.meaning_rule_eq_true_iff rules request chain name).mp granted
      refine (positive.leastTruth_eq_true_iff member).mpr ⟨body, found, ?_⟩
      apply holds_mono (positive.negationFree member found) _ inside
      intro other mentioned deeper
      refine ih _ ?_ (positive.mentioned_mem member found mentioned) deeper rfl
      rw [List.length_append, List.length_singleton]
      omega

/-- What is in the least solution without the rules of a chain is true at its end, if the
scope has no more rules than a chain may have. -/
theorem truth_of_least
    (few : {name ∈ scope | ∃ body, rules.get? name = some body}.encard ≤ greatestDepth)
    (visited : ∀ earlier ∈ chain, earlier ∈ scope ∧ ∃ body, rules.get? earlier = some body)
    (distinct : chain.Nodup) (member : name ∈ scope)
    (least : leastWithout rules request chain name = true) :
    truth rules request chain name = true := by
  generalize room : greatestDepth - chain.length = left
  induction left using Nat.strongRecOn generalizing chain name with
  | ind left ih =>
      obtain ⟨acyclic, body, found, holds⟩ := positive.exists_holds_of_least member least
      have extended : ∀ earlier ∈ chain ++ [name],
          earlier ∈ scope ∧ ∃ body, rules.get? earlier = some body := by
        intro earlier among
        rcases List.mem_append.mp among with before | last
        · exact visited earlier before
        · rw [List.mem_singleton.mp last]
          exact ⟨member, body, found⟩
      have distinctNext : (chain ++ [name]).Nodup := by
        rw [← List.concat_eq_append]
        exact distinct.concat acyclic
      have short : chain.length + 1 ≤ greatestDepth := by
        have bound : ((chain ++ [name]).toFinset : Set String).encard ≤ greatestDepth :=
          (Set.encard_le_encard fun earlier among =>
            extended earlier (List.mem_toFinset.mp among)).trans few
        rw [Set.encard_coe_eq_coe_finsetCard, List.toFinset_card_of_nodup distinctNext,
          List.length_append, List.length_singleton] at bound
        exact_mod_cast bound
      refine (Check.meaning_rule_eq_true_iff rules request chain name).mpr
        ⟨body, found, acyclic, short, ?_⟩
      apply holds_mono (positive.negationFree member found) _ holds
      intro other mentioned kept
      refine ih _ ?_ extended distinctNext (positive.mentioned_mem member found mentioned) kept rfl
      rw [List.length_append, List.length_singleton]
      omega

end Positive

/-- What a check without negations reaches has none either. -/
theorem positive_reaches (free : ∀ inner, ¬ Uses rules check (.not inner)) :
    Positive rules {name | Reaches rules check name} where
  negationFree reached found inner occurs := free inner (.body reached found occurs)
  mentioned_mem reached found mentioned := reached.through found mentioned

/-- **Cycles of references are cut exactly.** Without negations in a check and in the
rules it reaches, these rules have a least solution. Everything that is allowed is true
by the least solution; everything that is true by it is allowed if no more rules are
reached than a chain may have and the references met are within the budget. -/
theorem cycles_cut_exactly (request : Request)
    (free : ∀ inner, ¬ Uses rules check (.not inner)) :
    ((∀ name, Reaches rules check name →
        (leastTruth rules request name = true ↔
          ∃ body, rules.get? name = some body ∧
            body.holds request (leastTruth rules request) = true)) ∧
      ∀ truth : String → Bool,
        (∀ name body, Reaches rules check name → rules.get? name = some body →
          body.holds request truth = true → truth name = true) →
        ∀ name, Reaches rules check name → leastTruth rules request name = true →
          truth name = true) ∧
    ((check.decide rules request).allowed = true →
      check.holds request (leastTruth rules request) = true) ∧
    ((reachedRules rules check).encard ≤ greatestDepth →
      (check.met rules request []).length ≤ greatestSteps →
      check.holds request (leastTruth rules request) = true →
      (check.decide rules request).allowed = true) := by
  have positive := positive_reaches free
  have negationFree : ∀ inner, ¬ (Check.not inner).OccursIn check :=
    fun inner occurs => free inner (.tree occurs)
  refine ⟨⟨fun name reached => ?_, fun truth closed name reached least => ?_⟩, ?_, ?_⟩
  · exact positive.leastTruth_eq_true_iff reached
  · exact positive.le_of_closed (fun other body inside _ => closed other body inside) reached least
  · intro allowed
    rw [Check.allowed_decide, Bool.and_eq_true] at allowed
    refine holds_mono negationFree (fun name mentioned granted => ?_) allowed.1
    exact positive.least_of_truth (.mention mentioned) granted
  · intro few room least
    rw [Check.allowed_decide, decide_eq_true room, Bool.and_true]
    refine holds_mono negationFree (fun name mentioned kept => ?_) least
    exact positive.truth_of_least few (fun _ member => absurd member List.not_mem_nil)
      List.nodup_nil (.mention mentioned) kept

/-! ## Two rules that refer to each other -/

/-- Each rule refers to the other, and the second also grants a role. -/
def mutualRules : Table Check :=
  ⟨[("a", .rule "b"), ("b", .or [.rule "a", .role "member"])], by decide⟩

/-- A request with some roles. -/
def requestOf (roles : List String) : Request :=
  ⟨.null, .object [("roles", .array (roles.map .string))]⟩

theorem mutualRules_negationFree (inner : Check) :
    ¬ Uses mutualRules (.rule "a") (.not inner) := by
  rintro (occurs | @⟨name, body, _, found, occurs⟩)
  · cases occurs
  · have member : (name, body) ∈ mutualRules.entries := Table.mem_entries_of_get? found
    simp only [mutualRules, List.mem_cons, Prod.mk.injEq, List.not_mem_nil, or_false] at member
    rcases member with ⟨_, rfl⟩ | ⟨_, rfl⟩
    · cases occurs
    · cases occurs with
      | or among occurs =>
          simp only [List.mem_cons, List.not_mem_nil, or_false] at among
          rcases among with rfl | rfl <;> cases occurs

/-- The first rule is true by the least solution for a member, and for nobody else. -/
theorem cycles_cut_exactly_mutualRules :
    (∀ inner, ¬ Uses mutualRules (.rule "a") (.not inner)) ∧
      leastTruth mutualRules (requestOf ["member"]) "a" = true ∧
      leastTruth mutualRules (requestOf ["guest"]) "a" = false := by
  refine ⟨mutualRules_negationFree, ?_, ?_⟩
  · have sound := (cycles_cut_exactly (requestOf ["member"]) mutualRules_negationFree).2.1
    exact sound (by decide +kernel)
  · have complete := (cycles_cut_exactly (requestOf ["guest"]) mutualRules_negationFree).2.2
    have few : (reachedRules mutualRules (.rule "a")).encard ≤ greatestDepth :=
      (encard_reachedRules_le mutualRules (.rule "a")).trans (by decide)
    have denied : ((Check.rule "a").decide mutualRules (requestOf ["guest"])).allowed ≠ true := by
      decide +kernel
    rw [← Bool.not_eq_true]
    exact fun least => denied (complete few (by decide +kernel) least)

end Evaluation

end AccessPolicy

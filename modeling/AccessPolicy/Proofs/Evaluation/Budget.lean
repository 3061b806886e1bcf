import AccessPolicy.Proofs.Evaluation.Meaning
import AccessPolicy.Store

/-! # Evaluation within a budget

An evaluation carries along how many references it has met, and whether they were too
many. Of both only the second shows in the decision. An evaluation that stays within
the budget gives the meaning of its check and has met as many references as a reader of
the check; one that goes beyond the budget stays exhausted, whatever is evaluated
after it. So the budget is exact, and no negation turns a denial for its sake around.
-/

namespace AccessPolicy

namespace Evaluation

/-- An evaluation may meet so many more references. -/
def Progress.Affords (progress : Progress) (count : Nat) : Prop :=
  progress.exhausted = false ∧ progress.steps + count ≤ greatestSteps

/-- An evaluation that is not exhausted has met no more references than it may. -/
def Progress.Valid (progress : Progress) : Prop :=
  progress.exhausted = false → progress.steps ≤ greatestSteps

/-- An outcome is the given value after so many more references if the budget affords
them, and exhausted if it does not. -/
structure Follows (start : Progress) (value : Bool) (count : Nat) (outcome : Bool × Progress) :
    Prop where
  within : start.Affords count →
    outcome.1 = value ∧ outcome.2.steps = start.steps + count ∧ outcome.2.exhausted = false
  beyond : ¬ start.Affords count → outcome.2.exhausted = true

namespace Follows

variable {start : Progress} {value : Bool} {count : Nat} {outcome : Bool × Progress}

theorem pure (valid : start.Valid) (value : Bool) : Follows start value 0 (value, start) where
  within affords := ⟨rfl, rfl, affords.1⟩
  beyond spent := by
    cases fresh : start.exhausted with
    | true => rfl
    | false => exact absurd ⟨fresh, valid fresh⟩ spent

theorem exhausted (spent : start.exhausted = true) (value result : Bool) (count : Nat) :
    Follows start value count (result, start) :=
  ⟨fun affords => absurd (affords.1.symm.trans spent) Bool.false_ne_true, fun _ => spent⟩

theorem report (follows : Follows start value count outcome) (event : Event) :
    Follows start value count (outcome.1, outcome.2.report event) :=
  ⟨follows.within, follows.beyond⟩

theorem valid (follows : Follows start value count outcome) : outcome.2.Valid := by
  intro fresh
  by_cases affords : start.Affords count
  · rw [(follows.within affords).2.1]
    exact affords.2
  · rw [follows.beyond affords] at fresh
    contradiction

/-- One evaluation after another, where the second may depend on the result of the
first. -/
theorem bind (first : Follows start value count outcome) (nextValue : Bool → Bool)
    (nextCount : Bool → Nat) (next : Bool → Run)
    (later : ∀ result progress, progress.Valid →
      Follows progress (nextValue result) (nextCount result) (next result progress)) :
    Follows start (nextValue value) (count + nextCount value) (next outcome.1 outcome.2) := by
  have second := later outcome.1 outcome.2 first.valid
  by_cases affords : start.Affords count
  · obtain ⟨result, steps, going⟩ := first.within affords
    rw [result] at second ⊢
    have remaining : outcome.2.Affords (nextCount value) ↔
        start.Affords (count + nextCount value) := by
      simp only [Progress.Affords, steps, going, affords.1, true_and, Nat.add_assoc]
    constructor
    · intro total
      obtain ⟨found, met, fresh⟩ := second.within (remaining.mpr total)
      exact ⟨found, by omega, fresh⟩
    · intro spent
      exact second.beyond fun left => spent (remaining.mp left)
  · -- What is exhausted after the first evaluation stays so in the second.
    have exhausted := first.beyond affords
    constructor
    · intro total
      exact absurd ⟨total.1, by have := total.2; omega⟩ affords
    · intro _
      apply second.beyond
      intro left
      exact Bool.false_ne_true (left.1.symm.trans exhausted)

/-- An evaluation that begins by meeting a reference. -/
theorem afterStep (follows : Follows start.step value count outcome) :
    Follows start value (count + 1) outcome := by
  have affords : start.step.Affords count ↔ start.Affords (count + 1) := by
    simp only [Progress.Affords, Progress.step, Nat.add_assoc, Nat.add_comm 1]
  constructor
  · intro total
    obtain ⟨found, met, fresh⟩ := follows.within (affords.mpr total)
    refine ⟨found, ?_, fresh⟩
    rw [met, Progress.step, Nat.add_assoc, Nat.add_comm 1]
  · intro spent
    exact follows.beyond fun left => spent (affords.mp left)

end Follows

section Entering

variable {rules : Table Check} {request : Request}

/-- If entering a rule follows what its name says, evaluating a check follows what the
check says. -/
theorem follows_evaluate {enter : String → Check → Run} {truth : String → Bool}
    {met : String → List Reference}
    (defined : ∀ name body, rules.get? name = some body → ∀ progress : Progress, progress.Valid →
      Follows progress (truth name) (met name).length (enter name body progress))
    (undefined : ∀ name, rules.get? name = none → truth name = false ∧ met name = [])
    (check : Check) :
    ∀ progress : Progress, progress.Valid →
      Follows progress (check.holds request truth) (check.metWith request truth met).length
        (evaluate rules request enter check progress) := by
  induction check using Check.branchInduction with
  | deny => exact fun progress valid => .pure valid false
  | allow => exact fun progress valid => .pure valid true
  | not inner ih =>
      intro progress valid
      have negated := (ih progress valid).bind (fun result => !result) (fun _ => 0)
        (fun result later => (!result, later)) fun result later valid => .pure valid _
      simpa only [Check.holds, Check.metWith, evaluate, List.length_map, Nat.add_zero] using
        negated
  | and branches ih =>
      simp only [Check.holds, Check.metWith, evaluate]
      induction branches with
      | nil => exact fun progress valid => .pure valid true
      | cons branch rest others =>
          intro progress valid
          have first := ih branch (List.mem_cons_self ..) progress valid
          have later := others fun branch member => ih branch (List.mem_cons_of_mem _ member)
          have joined := first.bind
            (fun result => result && Check.allHold request truth rest)
            (fun result => (if result then Check.metInAll request truth met rest else []).length)
            (fun result later =>
              match result with
              | true => evaluateAll rules request enter rest later
              | false => (false, later))
            (fun result progress valid =>
              match result with
              | true => later progress valid
              | false => .pure valid false)
          simp only [Check.allHold, Check.metInAll, evaluateAll, List.length_append]
          generalize evaluate rules request enter branch progress = outcome at joined ⊢
          rcases outcome with ⟨result, later⟩
          cases result <;> exact joined
  | or branches ih =>
      simp only [Check.holds, Check.metWith, evaluate]
      induction branches with
      | nil => exact fun progress valid => .pure valid false
      | cons branch rest others =>
          intro progress valid
          have first := ih branch (List.mem_cons_self ..) progress valid
          have later := others fun branch member => ih branch (List.mem_cons_of_mem _ member)
          have joined := first.bind
            (fun result => result || Check.anyHolds request truth rest)
            (fun result => (if result then [] else Check.metInAny request truth met rest).length)
            (fun result later =>
              match result with
              | true => (true, later)
              | false => evaluateAny rules request enter rest later)
            (fun result progress valid =>
              match result with
              | true => .pure valid true
              | false => later progress valid)
          simp only [Check.anyHolds, Check.metInAny, evaluateAny, List.length_append]
          generalize evaluate rules request enter branch progress = outcome at joined ⊢
          rcases outcome with ⟨result, later⟩
          cases result <;> exact joined
  | rule name =>
      intro progress valid
      cases found : rules.get? name with
      | some body =>
          simp only [Check.holds, Check.metWith, evaluate, found]
          exact defined name body found progress valid
      | none =>
          obtain ⟨untrue, unmet⟩ := undefined name found
          simp only [Check.holds, Check.metWith, evaluate, found, untrue, unmet]
          exact (Follows.pure valid false).report _
  | role name => exact fun progress valid => .pure valid _
  | compare kind matcher => exact fun progress valid => .pure valid _

/-! Each way out of entering a rule. -/

variable {room : Nat} {chain : List String} {name : String} {body : Check} {progress : Progress}

theorem enter_exhausted (spent : progress.exhausted = true) :
    enter rules request room chain name body progress = (false, progress) := by
  rw [enter.eq_def, if_pos spent]

theorem enter_overBudget (fresh : progress.exhausted = false)
    (spent : greatestSteps ≤ progress.steps) :
    enter rules request room chain name body progress =
      (false, (progress.step.report (.budgetExceeded name greatestSteps)).exhaust) := by
  rw [enter.eq_def, if_neg (by simp [fresh]), if_pos spent]

theorem enter_cyclic (fresh : progress.exhausted = false)
    (affords : progress.steps < greatestSteps) (cyclic : name ∈ chain) :
    enter rules request room chain name body progress =
      (false, progress.step.report (.cyclicReference name chain)) := by
  rw [enter.eq_def, if_neg (by simp [fresh]), if_neg (Nat.not_le.mpr affords),
    if_pos (List.contains_iff_mem.mpr cyclic)]

theorem enter_tooDeep (fresh : progress.exhausted = false)
    (affords : progress.steps < greatestSteps) (acyclic : name ∉ chain) :
    enter rules request 0 chain name body progress =
      (false, progress.step.report (.chainTooDeep name chain.length)) := by
  rw [enter.eq_def, if_neg (by simp [fresh]), if_neg (Nat.not_le.mpr affords),
    if_neg (by rwa [List.contains_iff_mem])]

theorem enter_body (fresh : progress.exhausted = false)
    (affords : progress.steps < greatestSteps) (acyclic : name ∉ chain) :
    enter rules request (room + 1) chain name body progress =
      evaluate rules request (enter rules request room (chain ++ [name])) body progress.step := by
  rw [enter.eq_def, if_neg (by simp [fresh]), if_neg (Nat.not_le.mpr affords),
    if_neg (by rwa [List.contains_iff_mem])]

/-- Entering a rule at the end of a chain follows what its name says there. -/
theorem follows_enter (full : chain.length + room = greatestDepth)
    (found : rules.get? name = some body) (valid : progress.Valid) :
    Follows progress (truth rules request chain name) (met rules request chain name).length
      (enter rules request room chain name body progress) := by
  induction room using Nat.strongRecOn generalizing chain name body progress with
  | ind room ih =>
      rw [truth_of_defined request chain found, met_of_defined request chain found,
        List.length_cons]
      cases fresh : progress.exhausted with
      | true =>
          rw [enter_exhausted fresh]
          exact .exhausted fresh ..
      | false =>
          by_cases affords : progress.steps < greatestSteps
          · have valid : progress.step.Valid := fun _ => affords
            apply Follows.afterStep
            by_cases cyclic : name ∈ chain
            · rw [enter_cyclic fresh affords cyclic, if_neg fun opened => opened.1 cyclic,
                if_neg fun opened => opened.1 cyclic]
              exact (Follows.pure valid false).report _
            · cases room with
              | zero =>
                  rw [enter_tooDeep fresh affords cyclic, if_neg (by omega), if_neg (by omega)]
                  exact (Follows.pure valid false).report _
              | succ room =>
                  have opened : name ∉ chain ∧ chain.length < greatestDepth :=
                    ⟨cyclic, by omega⟩
                  rw [enter_body fresh affords cyclic, if_pos opened, if_pos opened]
                  refine follows_evaluate (fun other inner found progress valid => ?_)
                    (fun other undefined => ?_) body _ valid
                  · apply ih room (Nat.lt_succ_self room) _ found valid
                    rw [List.length_append, List.length_singleton]
                    omega
                  · exact ⟨truth_of_undefined request _ undefined,
                      met_of_undefined request _ undefined⟩
          · rw [enter_overBudget fresh (Nat.not_lt.mp affords)]
            exact ⟨fun total => absurd total.2 (by omega), fun _ => rfl⟩

end Entering

end Evaluation

namespace Check

open Evaluation

/-- Deciding a check follows what the check says. -/
theorem follows_decide (check : Check) (rules : Table Check) (request : Request) :
    Follows .start (check.meaning rules request []) (check.met rules request []).length
      (evaluate rules request (enterFirst rules request) check .start) := by
  refine follows_evaluate (fun name body found progress valid => ?_)
    (fun name undefined => ?_) check .start fun _ => Nat.zero_le _
  · exact follows_enter rfl found valid
  · exact ⟨truth_of_undefined request _ undefined, met_of_undefined request _ undefined⟩

theorem affords_start {count : Nat} : Progress.start.Affords count ↔ count ≤ greatestSteps := by
  simp only [Progress.Affords, Progress.start, Nat.zero_add, true_and]

/-- A check allows if it says so and the references met in it are no more than the
budget. -/
theorem allowed_decide (check : Check) (rules : Table Check) (request : Request) :
    (check.decide rules request).allowed =
      (check.meaning rules request [] &&
        Decidable.decide ((check.met rules request []).length ≤ greatestSteps)) := by
  have follows := check.follows_decide rules request
  simp only [decide, Progress.decide]
  by_cases room : (check.met rules request []).length ≤ greatestSteps
  · obtain ⟨result, _, fresh⟩ := follows.within (affords_start.mpr room)
    simp only [result, fresh, room, Bool.not_false, decide_true]
  · have spent := follows.beyond fun total => room (affords_start.mp total)
    simp only [spent, room, Bool.not_true, Bool.and_false, decide_false]

theorem decideNamed_eq_decide {rules : Table Check} {name : String} {body : Check}
    (found : rules.get? name = some body) (request : Request) :
    body.decideNamed name rules request = (Check.rule name).decide rules request := by
  simp only [decideNamed, decide, evaluate, found]

end Check

theorem Request.hasRole_eq_true_iff (request : Request) (role : String) :
    request.hasRole role = true ↔
      ∃ roles, request.credentials.get? "roles" = some (.array roles) ∧ .string role ∈ roles := by
  have isText (item : Json) : isText role item = true ↔ item = .string role := by
    cases item <;> simp [Request.isText]
  unfold hasRole
  split
  · rename_i roles found
    simp only [List.any_eq_true, isText, exists_eq_right, found, Option.some.injEq,
      Json.array.injEq, exists_eq_left']
  · rename_i other
    constructor
    · intro impossible
      contradiction
    · rintro ⟨roles, found, _⟩
      exact absurd found (other roles)

open Evaluation in
theorem Check.meaning_rule_eq_true_iff (rules : Table Check) (request : Request)
    (chain : List String) (name : String) :
    (Check.rule name).meaning rules request chain = true ↔
      ∃ body, rules.get? name = some body ∧ name ∉ chain ∧ chain.length < greatestDepth ∧
        body.meaning rules request (chain ++ [name]) = true := by
  change truth rules request chain name = true ↔ _
  cases found : rules.get? name with
  | none => simp [truth_of_undefined request chain found]
  | some body =>
      rw [truth_of_defined request chain found]
      split
      · rename_i extending
        simp [extending.1, extending.2]
      · rename_i refused
        simp only [Bool.false_eq_true, Option.some.injEq, exists_eq_left', false_iff]
        rintro ⟨acyclic, short, _⟩
        exact refused ⟨acyclic, short⟩

/-- The rule of a name decides for it, else the default rule, each like a reference to
it. -/
theorem Store.decide_allowed (store : Store) (name : String) (request : Request) :
    (store.decide name request).allowed =
      if store.contains name then ((Check.rule name).decide store.rules request).allowed
      else if store.defaultRule ≠ "" ∧ store.contains store.defaultRule then
        ((Check.rule store.defaultRule).decide store.rules request).allowed
      else false := by
  unfold Store.decide Store.contains
  cases found : store.get? name with
  | some body =>
      simp only [Option.isSome_some, ↓reduceIte, Check.decideNamed_eq_decide found request]
  | none =>
      by_cases unset : store.defaultRule = ""
      · simp [unset]
      · cases default : store.get? store.defaultRule with
        | none => simp [unset]
        | some body => simp [unset, Check.decideNamed_eq_decide default request]

open Evaluation in
/-- **The evaluator refines the meaning of checks.** A check decides a request as it says
when the references met in it are within the budget, and denies when they are not. A
role in it asks for a listed role, and a reference for a rule that extends the chain. The
decision on a name is that of a reference to it, or to the default rule if it is not
defined and that one is. -/
theorem decide_refines_meaning :
    (∀ (check : Check) (rules : Table Check) (request : Request),
      (check.decide rules request).allowed =
        if (check.met rules request []).length ≤ greatestSteps then
          check.meaning rules request []
        else false) ∧
    (∀ (rules : Table Check) (request : Request) (chain : List String) (name : String),
      ((Check.rule name).meaning rules request chain = true ↔
        ∃ body, rules.get? name = some body ∧ name ∉ chain ∧ chain.length < greatestDepth ∧
          body.meaning rules request (chain ++ [name]) = true) ∧
      ((Check.role name).meaning rules request chain = true ↔
        ∃ roles, request.credentials.get? "roles" = some (.array roles) ∧
          .string name ∈ roles)) ∧
    ∀ (store : Store) (name : String) (request : Request),
      (store.decide name request).allowed =
        if store.contains name then ((Check.rule name).decide store.rules request).allowed
        else if store.defaultRule ≠ "" ∧ store.contains store.defaultRule then
          ((Check.rule store.defaultRule).decide store.rules request).allowed
        else false := by
  refine ⟨fun check rules request => ?_, fun rules request chain name => ⟨?_, ?_⟩,
    Store.decide_allowed⟩
  · rw [Check.allowed_decide]
    split
    · rename_i room
      simp [room]
    · rename_i spent
      simp [spent]
  · exact Check.meaning_rule_eq_true_iff rules request chain name
  · exact request.hasRole_eq_true_iff name

end AccessPolicy

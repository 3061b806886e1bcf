import AccessPolicy.Proofs.Evaluation.Points
import Mathlib.Data.List.Chain

/-! # The work of an evaluation

At every point of an evaluation the chain is one of different defined rules and no longer
than allowed, the references are counted up to the first one too many, and that one is
reported once. The evaluations under way are nested, each with less room for further rules
than the one around it, or with as much room and a smaller check. So every evaluation comes
to an end, and it evaluates no more rule bodies than it may follow references.
-/

namespace AccessPolicy

def Event.isOverBudget : Event → Bool
  | .budgetExceeded _ _ => true
  | _ => false

namespace Check

mutual

/-- The number of nodes of a check. -/
def size : Check → Nat
  | .deny | .allow | .rule _ | .role _ | .compare _ _ => 1
  | .not inner => inner.size + 1
  | .and branches | .or branches => sizes branches + 1

def sizes : List Check → Nat
  | [] => 0
  | branch :: rest => branch.size + sizes rest

end

theorem size_le_sizes {branch : Check} {branches : List Check} (member : branch ∈ branches) :
    branch.size ≤ sizes branches := by
  induction member with
  | head => simp only [sizes, Nat.le_add_right]
  | tail _ _ ih => exact Nat.le_add_left_of_le ih

end Check

namespace Evaluation

/-- The check whose evaluation waits. -/
def Waiting.check : Waiting → Check
  | .negation inner => .not inner
  | .conjunction met later => .and (met ++ later)
  | .disjunction met later => .or (met ++ later)
  | .reference name => .rule name

def Waiting.name? : Waiting → Option String
  | .reference name => some name
  | _ => none

/-- The rules whose bodies are under evaluation, the last one first. -/
def openNames (waiting : List Waiting) : List String :=
  waiting.filterMap Waiting.name?

/-- The room that a chain has for further rules, and the size of a check. -/
def measure (chain : List String) (check : Check) : Nat × Nat :=
  (greatestDepth - chain.length, check.size)

/-- The measures of the evaluations that wait, the innermost first. -/
def measures : List Waiting → List (Nat × Nat)
  | [] => []
  | waiting :: outer => measure (openNames outer).reverse waiting.check :: measures outer

/-- The counts of an evaluation are within the bounds, and going beyond the budget was
reported once if it happened and not at all otherwise. -/
structure Progress.Sound (progress : Progress) : Prop where
  steps : progress.steps ≤ greatestSteps + 1
  within : progress.exhausted = false → progress.steps ≤ greatestSteps
  reported : progress.events.countP Event.isOverBudget = if progress.exhausted then 1 else 0

/-- References are only counted up, and an exhausted evaluation stays so. -/
structure Progress.Before (earlier later : Progress) : Prop where
  steps : earlier.steps ≤ later.steps
  exhausted : earlier.exhausted = true → later.exhausted = true

namespace Progress.Before

theorem refl (progress : Progress) : progress.Before progress :=
  ⟨Nat.le_refl _, id⟩

theorem trans {first second third : Progress} (earlier : first.Before second)
    (later : second.Before third) : first.Before third :=
  ⟨earlier.steps.trans later.steps, later.exhausted ∘ earlier.exhausted⟩

end Progress.Before

namespace Progress.Sound

variable {progress : Progress}

theorem start : Progress.start.Sound :=
  ⟨Nat.zero_le _, fun _ => Nat.zero_le _, rfl⟩

theorem report (sound : progress.Sound) {event : Event} (other : event.isOverBudget = false) :
    (progress.report event).Sound where
  steps := sound.steps
  within := sound.within
  reported := by
    rw [Progress.report, List.countP_cons_of_neg (by simp [other])]
    exact sound.reported

theorem step (sound : progress.Sound) (affords : progress.steps < greatestSteps) :
    progress.step.Sound :=
  ⟨Nat.le_succ_of_le affords, fun _ => affords, sound.reported⟩

theorem overBudget (sound : progress.Sound) (fresh : progress.exhausted = false) (name : String) :
    (progress.step.report (.budgetExceeded name greatestSteps)).exhaust.Sound where
  steps := Nat.succ_le_succ (sound.within fresh)
  within impossible := by contradiction
  reported := by
    have unreported := sound.reported
    rw [fresh] at unreported
    exact (List.countP_cons_of_pos rfl).trans (congrArg (· + 1) unreported)

end Progress.Sound

namespace Point

/-- The measures of the evaluations under way, the innermost first. -/
def measures (point : Point) : List (Nat × Nat) :=
  match point.task with
  | .evaluate check => measure point.chain check :: Evaluation.measures point.waiting
  | .enter name _ => measure point.chain (.rule name) :: Evaluation.measures point.waiting
  | .give _ => Evaluation.measures point.waiting

/-- The body of a rule is evaluated after this point. -/
def opensBody (rules : Table Check) (request : Request) (point : Point) : Bool :=
  match point.task, (point.next rules request).task with
  | .enter _ _, .evaluate _ => true
  | _, _ => false

/-- How many of so many points from a first one on are followed by the body of a rule. -/
def bodiesOpened (rules : Table Check) (request : Request) (first : Point) (count : Nat) : Nat :=
  (List.range count).countP fun earlier =>
    (first.after rules request earlier).opensBody rules request

/-- What holds at every point of an evaluation. -/
structure Sound (rules : Table Check) (point : Point) : Prop where
  nodup : point.chain.Nodup
  defined : ∀ name ∈ point.chain, (rules.get? name).isSome
  short : point.chain.length ≤ greatestDepth
  progress : point.progress.Sound
  /-- Each evaluation under way is less than the one around it, lexicographically. -/
  descending : point.measures.IsChain (Prod.Lex (· < ·) (· < ·))
  /-- The chain is that of the rules whose bodies are under evaluation. -/
  opened : point.chain = (openNames point.waiting).reverse
  found : ∀ name body, point.task = .enter name body → rules.get? name = some body

namespace Sound

variable {rules : Table Check} {request : Request} {waiting : List Waiting}
  {chain : List String} {progress later : Progress}

/-- A result may be given at a point at which a check is to be evaluated or a rule to be
entered. -/
theorem giving {task : Task} (sound : Sound rules ⟨task, waiting, chain, progress⟩)
    (counts : later.Sound) (result : Bool) :
    Sound rules (afterwards waiting chain (result, later)) where
  nodup := sound.nodup
  defined := sound.defined
  short := sound.short
  progress := counts
  descending := by
    have descending := sound.descending
    cases task with
    | evaluate check => exact descending.tail
    | enter name body => exact descending.tail
    | give result => exact descending
  opened := sound.opened
  found _ _ impossible := Task.noConfusion impossible

/-- A smaller check may be evaluated while the check waits that was the innermost one under
evaluation. -/
theorem evaluating {point : Point} (sound : Sound rules point) {frame : Waiting} {inner : Check}
    (plain : frame.name? = none) (smaller : inner.size < frame.check.size)
    (names : openNames waiting = openNames point.waiting)
    (around : Evaluation.measures (frame :: waiting) = point.measures) :
    Sound rules ⟨.evaluate inner, frame :: waiting, point.chain, point.progress⟩ where
  nodup := sound.nodup
  defined := sound.defined
  short := sound.short
  progress := sound.progress
  descending := by
    have descending := sound.descending
    rw [← around, Evaluation.measures] at descending
    refine List.isChain_cons_cons.mpr ⟨?_, descending⟩
    rw [sound.opened, ← names]
    exact .right _ smaller
  opened := by
    rw [sound.opened, ← names]
    simp only [openNames, List.filterMap_cons, plain]
  found _ _ impossible := Task.noConfusion impossible

theorem evaluateNext {check : Check}
    (sound : Sound rules ⟨.evaluate check, waiting, chain, progress⟩) :
    Sound rules (next rules request ⟨.evaluate check, waiting, chain, progress⟩) := by
  have names : (openNames waiting).reverse = chain := sound.opened.symm
  cases check with
  | not inner =>
      refine sound.evaluating rfl (Nat.lt_succ_self _) rfl ?_
      simp only [Evaluation.measures, measures, names, Waiting.check]
  | and branches =>
      cases branches with
      | nil => exact sound.giving sound.progress true
      | cons first later =>
          refine sound.evaluating rfl ?_ rfl ?_
          · exact Nat.lt_succ_of_le (Check.size_le_sizes (List.mem_cons_self ..))
          · simp only [Evaluation.measures, measures, names, Waiting.check, List.singleton_append]
  | or branches =>
      cases branches with
      | nil => exact sound.giving sound.progress false
      | cons first later =>
          refine sound.evaluating rfl ?_ rfl ?_
          · exact Nat.lt_succ_of_le (Check.size_le_sizes (List.mem_cons_self ..))
          · simp only [Evaluation.measures, measures, names, Waiting.check, List.singleton_append]
  | rule name =>
      cases found : rules.get? name with
      | none =>
          simp only [next, Point.evaluateNext, found]
          exact sound.giving (sound.progress.report rfl) false
      | some body =>
          simp only [next, Point.evaluateNext, found]
          refine { sound with found := fun other inner same => ?_ }
          cases same
          exact found
  | deny => exact sound.giving sound.progress false
  | allow => exact sound.giving sound.progress true
  | role name => exact sound.giving sound.progress _
  | compare kind matcher => exact sound.giving sound.progress _

/-- The body of a rule may be evaluated at the end of a longer chain. -/
theorem opening {name : String} {body : Check}
    (sound : Sound rules ⟨.enter name body, waiting, chain, progress⟩)
    (affords : progress.steps < greatestSteps) (acyclic : name ∉ chain)
    (short : chain.length < greatestDepth) :
    Sound rules
      ⟨.evaluate body, .reference name :: waiting, chain ++ [name], progress.step⟩ where
  nodup := List.nodup_append.mpr ⟨sound.nodup, List.pairwise_singleton _ name, by
    rintro other member last single rfl
    rw [List.mem_singleton.mp single] at member
    exact acyclic member⟩
  defined := by
    intro other member
    rcases List.mem_append.mp member with earlier | last
    · exact sound.defined other earlier
    · rw [List.mem_singleton.mp last, sound.found name body rfl]
      rfl
  short := by
    rw [List.length_append]
    exact short
  progress := sound.progress.step affords
  descending := by
    have around : measure (openNames waiting).reverse (.rule name) =
        measure chain (.rule name) := by rw [← show chain = _ from sound.opened]
    rw [measures, Evaluation.measures, Waiting.check, around]
    refine List.isChain_cons_cons.mpr ⟨.left _ _ ?_, sound.descending⟩
    simp only [List.length_append, List.length_singleton]
    omega
  opened := by
    rw [show chain = _ from sound.opened]
    exact (List.reverse_cons ..).symm
  found _ _ impossible := Task.noConfusion impossible

theorem enterNext {name : String} {body : Check}
    (sound : Sound rules ⟨.enter name body, waiting, chain, progress⟩) :
    Sound rules (next rules request ⟨.enter name body, waiting, chain, progress⟩) := by
  have way : EnterStep name body waiting chain progress
      (next rules request ⟨.enter name body, waiting, chain, progress⟩) := enterStep_next ..
  generalize next rules request _ = entered at way ⊢
  cases way with
  | exhausted spent => exact sound.giving sound.progress false
  | overBudget fresh spent => exact sound.giving (sound.progress.overBudget fresh name) false
  | cyclic fresh affords cyclic =>
      exact sound.giving ((sound.progress.step affords).report rfl) false
  | tooDeep fresh affords acyclic deep =>
      exact sound.giving ((sound.progress.step affords).report rfl) false
  | body fresh affords acyclic short => exact sound.opening affords acyclic short

/-- What waits for a result may go on without it. -/
theorem leaving {frame : Waiting} {result : Bool} (plain : frame.name? = none)
    (sound : Sound rules ⟨.give result, frame :: waiting, chain, progress⟩) (given : Bool) :
    Sound rules ⟨.give given, waiting, chain, progress⟩ where
  nodup := sound.nodup
  defined := sound.defined
  short := sound.short
  progress := sound.progress
  descending := sound.descending.tail
  opened := by
    have opened := sound.opened
    simpa only [openNames, List.filterMap_cons, plain] using opened
  found _ _ impossible := Task.noConfusion impossible

/-- The body of the last rule of the chain has a result. -/
theorem closing {name : String} {result : Bool}
    (sound : Sound rules ⟨.give result, .reference name :: waiting, chain, progress⟩) :
    Sound rules ⟨.give result, waiting, chain.dropLast, progress⟩ where
  nodup := sound.nodup.sublist (List.dropLast_sublist chain)
  defined other member := sound.defined other (List.dropLast_subset chain member)
  short := by
    have short := sound.short
    rw [List.length_dropLast]
    exact Nat.le_trans (Nat.sub_le ..) short
  progress := sound.progress
  descending := sound.descending.tail
  opened := by
    have opened := sound.opened
    simp only [openNames, List.filterMap_cons, Waiting.name?, List.reverse_cons] at opened
    rw [opened, List.dropLast_concat]
    rfl
  found _ _ impossible := Task.noConfusion impossible

theorem giveNext {result : Bool}
    (sound : Sound rules ⟨.give result, waiting, chain, progress⟩) :
    Sound rules (next rules request ⟨.give result, waiting, chain, progress⟩) := by
  cases waiting with
  | nil => exact sound
  | cons frame waiting =>
      cases frame with
      | negation inner => exact sound.leaving rfl _
      | conjunction met later =>
          cases result with
          | false => exact sound.leaving rfl false
          | true =>
              cases later with
              | nil => exact sound.leaving rfl true
              | cons branch later =>
                  refine sound.evaluating rfl ?_ rfl ?_
                  · exact Nat.lt_succ_of_le (Check.size_le_sizes (by simp))
                  · simp only [Evaluation.measures, measures, Waiting.check, List.append_assoc,
                      List.singleton_append]
      | disjunction met later =>
          cases result with
          | true => exact sound.leaving rfl true
          | false =>
              cases later with
              | nil => exact sound.leaving rfl false
              | cons branch later =>
                  refine sound.evaluating rfl ?_ rfl ?_
                  · exact Nat.lt_succ_of_le (Check.size_le_sizes (by simp))
                  · simp only [Evaluation.measures, measures, Waiting.check, List.append_assoc,
                      List.singleton_append]
      | reference name => exact sound.closing

/-- What holds at a point holds at the next one. -/
theorem next {point : Point} (sound : Sound rules point) :
    Sound rules (point.next rules request) := by
  obtain ⟨task, waiting, chain, progress⟩ := point
  cases task with
  | evaluate check => exact sound.evaluateNext
  | enter name body => exact sound.enterNext
  | give result => exact sound.giveNext

/-- What holds at a first point holds at every later one. -/
theorem after {first : Point} (sound : Sound rules first) (count : Nat) :
    Sound rules (first.after rules request count) := by
  induction count with
  | zero => exact sound
  | succ count ih =>
      rw [Point.after_succ]
      exact ih.next

theorem of_after {first point : Point} (sound : Sound rules first) {count : Nat}
    (here : first.after rules request count = point) : Sound rules point := by
  rw [← here]
  exact sound.after count

end Sound

/-! How the counts go on. -/

section Counts

variable {rules : Table Check} {request : Request}

theorem before_next (point : Point) :
    point.progress.Before (point.next rules request).progress := by
  obtain ⟨task, waiting, chain, progress⟩ := point
  cases task with
  | evaluate check =>
      cases check with
      | and branches => cases branches <;> exact .refl progress
      | or branches => cases branches <;> exact .refl progress
      | rule name =>
          simp only [next, evaluateNext]
          split
          · exact .refl progress
          · exact ⟨Nat.le_refl _, id⟩
      | _ => exact .refl progress
  | enter name body =>
      have way : EnterStep name body waiting chain progress
          (next rules request ⟨.enter name body, waiting, chain, progress⟩) := enterStep_next ..
      generalize next rules request _ = entered at way ⊢
      cases way with
      | exhausted => exact .refl progress
      | overBudget => exact ⟨Nat.le_succ _, fun _ => rfl⟩
      | _ => exact ⟨Nat.le_succ _, id⟩
  | give result =>
      simp only [next, giveNext]
      split
      · exact .refl progress
      · exact .refl progress
      · split <;> exact .refl progress
      · split <;> exact .refl progress
      · exact .refl progress

/-- The body of a rule is evaluated only within the budget, and is counted. -/
theorem steps_of_opensBody {point : Point} (opens : point.opensBody rules request = true) :
    point.progress.exhausted = false ∧ point.progress.steps < greatestSteps ∧
      (point.next rules request).progress.steps = point.progress.steps + 1 := by
  obtain ⟨task, waiting, chain, progress⟩ := point
  cases task with
  | evaluate check => simp [opensBody] at opens
  | give result => simp [opensBody] at opens
  | enter name body =>
      have way : EnterStep name body waiting chain progress
          (next rules request ⟨.enter name body, waiting, chain, progress⟩) := enterStep_next ..
      unfold opensBody at opens
      generalize next rules request _ = entered at way opens ⊢
      cases way with
      | body fresh affords => exact ⟨fresh, affords, rfl⟩
      | _ => contradiction

theorem before_after (first : Point) {earlier later : Nat} (less : earlier ≤ later) :
    (first.after rules request earlier).progress.Before
      (first.after rules request later).progress := by
  induction less with
  | refl => exact .refl _
  | step _ ih =>
      rw [after_succ]
      exact ih.trans (before_next _)

theorem bodiesOpened_succ (first : Point) (count : Nat) :
    first.bodiesOpened rules request (count + 1) =
      first.bodiesOpened rules request count +
        if (first.after rules request count).opensBody rules request then 1 else 0 := by
  rw [bodiesOpened, List.range_succ, List.countP_append, List.countP_singleton]
  rfl

/-- Every body that is evaluated is counted, and the count is within the budget before it. -/
theorem bodiesOpened_le (first : Point) (count : Nat) :
    first.bodiesOpened rules request count ≤ (first.after rules request count).progress.steps ∧
      first.bodiesOpened rules request count ≤ greatestSteps := by
  induction count with
  | zero => exact ⟨Nat.zero_le _, Nat.zero_le _⟩
  | succ count ih =>
      have going : (first.after rules request count).progress.steps ≤
          ((first.after rules request count).next rules request).progress.steps :=
        (before_next _).steps
      rw [bodiesOpened_succ, after_succ]
      split
      · rename_i opens
        obtain ⟨_, affords, counted⟩ := steps_of_opensBody opens
        omega
      · omega

end Counts

/-- The last point is its own next one. -/
theorem after_last (rules : Table Check) (request : Request) (result : Bool)
    (chain : List String) (progress : Progress) (count : Nat) :
    (afterwards [] chain (result, progress)).after rules request count =
      afterwards [] chain (result, progress) :=
  Function.iterate_fixed rfl count

/-- What holds of all points that come after a first one, and of the decision that they
come to. -/
structure Bounded (rules : Table Check) (request : Request) (first : Point)
    (decision : Decision) : Prop where
  sound : ∀ count, (first.after rules request count).Sound rules
  /-- The evaluation of a check comes to its result, with the chain that it began with. -/
  evaluates : ∀ count check waiting chain progress,
    first.after rules request count = ⟨.evaluate check, waiting, chain, progress⟩ →
    ∃ further,
      first.after rules request (count + further) =
        afterwards waiting chain
          (evaluate rules request (enter rules request (greatestDepth - chain.length) chain) check
            progress) ∧
      ∀ between < further, (first.after rules request (count + between)).Within waiting
  /-- Entering a rule comes to its result, with the chain that it began with. -/
  returns : ∀ count name body waiting chain progress,
    first.after rules request count = ⟨.enter name body, waiting, chain, progress⟩ →
    ∃ further,
      first.after rules request (count + further) =
        afterwards waiting chain
          (enter rules request (greatestDepth - chain.length) chain name body progress) ∧
      ∀ between < further, (first.after rules request (count + between)).Within waiting
  steps : ∀ earlier later, earlier ≤ later →
    (first.after rules request earlier).progress.steps ≤
      (first.after rules request later).progress.steps
  /-- An exhausted evaluation stays so and evaluates no further body. -/
  exhausted : ∀ earlier later, earlier ≤ later →
    (first.after rules request earlier).progress.exhausted = true →
    (first.after rules request later).progress.exhausted = true ∧
      (first.after rules request later).opensBody rules request = false
  bodies : ∀ count, first.bodiesOpened rules request count ≤ greatestSteps
  /-- The evaluation comes to a last point, at which nothing is under way. -/
  terminates : ∃ count result progress,
    (∀ later ≥ count, first.after rules request later = ⟨.give result, [], [], progress⟩) ∧
      decision.allowed = (progress.decide result).allowed ∧
      (progress.decide result).events <:+ decision.events
  reported : decision.events.countP Event.isOverBudget ≤ 1

theorem Sound.bounded {rules : Table Check} {request : Request} {first : Point}
    {outcome : Bool × Progress} (sound : Sound rules first)
    (proceeds : Proceeds rules request [] first (afterwards [] [] outcome)) :
    Bounded rules request first (outcome.2.decide outcome.1) := by
  obtain ⟨count, reached, _⟩ := proceeds.exists_after
  have last (later : Nat) (less : count ≤ later) :
      first.after rules request later = afterwards [] [] outcome := by
    obtain ⟨further, rfl⟩ := Nat.exists_eq_add_of_le less
    rw [after_add, reached]
    exact after_last ..
  constructor
  case sound => exact sound.after
  case evaluates =>
    intro count check waiting chain progress here
    have full : chain.length + (greatestDepth - chain.length) = greatestDepth :=
      Nat.add_sub_cancel' (sound.of_after here).short
    exact (proceeds_evaluate (proceeds_enter full) check waiting progress).exists_after_add here
  case returns =>
    intro count name body waiting chain progress here
    have full : chain.length + (greatestDepth - chain.length) = greatestDepth :=
      Nat.add_sub_cancel' (sound.of_after here).short
    exact (proceeds_enter full name body waiting progress).exists_after_add here
  case steps => exact fun earlier later less => (before_after first less).steps
  case exhausted =>
    intro earlier later less spent
    have spent := (before_after first less).exhausted spent
    refine ⟨spent, Bool.eq_false_iff.mpr fun opens => ?_⟩
    rw [(steps_of_opensBody opens).1] at spent
    contradiction
  case bodies => exact fun count => (bodiesOpened_le first count).2
  case terminates =>
    exact ⟨count, outcome.1, outcome.2, last, rfl, List.suffix_refl _⟩
  case reported =>
    have counts : outcome.2.Sound := (sound.of_after reached).progress
    rw [Progress.decide, List.countP_reverse, counts.reported]
    split <;> decide

/-- Something else may be reported before an evaluation. -/
theorem Bounded.report {rules : Table Check} {request : Request} {first : Point}
    {decision : Decision} (bounded : Bounded rules request first decision) {event : Event}
    (other : event.isOverBudget = false) :
    Bounded rules request first { decision with events := event :: decision.events } := by
  refine { bounded with terminates := ?_, reported := ?_ }
  · obtain ⟨count, result, progress, last, allowed, events⟩ := bounded.terminates
    exact ⟨count, result, progress, last, allowed, events.trans (List.suffix_cons ..)⟩
  · rw [List.countP_cons_of_neg (by simp [other])]
    exact bounded.reported

theorem sound_evaluate (rules : Table Check) (check : Check) :
    Sound rules ⟨.evaluate check, [], [], .start⟩ where
  nodup := .nil
  defined := by simp
  short := Nat.zero_le _
  progress := .start
  descending := .singleton _
  opened := rfl
  found _ _ impossible := Task.noConfusion impossible

theorem sound_enter {rules : Table Check} {name : String} {body : Check}
    (found : rules.get? name = some body) : Sound rules ⟨.enter name body, [], [], .start⟩ where
  nodup := .nil
  defined := by simp
  short := Nat.zero_le _
  progress := .start
  descending := .singleton _
  opened := rfl
  found other inner same := by
    cases same
    exact found

end Point

open Point

theorem bounded_decide (check : Check) (rules : Table Check) (request : Request) :
    Bounded rules request ⟨.evaluate check, [], [], .start⟩ (check.decide rules request) :=
  (sound_evaluate rules check).bounded
    (proceeds_evaluate (proceeds_enter (Nat.zero_add _)) check [] .start)

theorem bounded_decideNamed {rules : Table Check} {name : String} {body : Check}
    (found : rules.get? name = some body) (request : Request) :
    Bounded rules request ⟨.enter name body, [], [], .start⟩
      (body.decideNamed name rules request) := by
  have entering : Proceeds rules request [] ⟨.enter name body, [], [], .start⟩
      (afterwards [] [] (enterFirst rules request name body .start)) :=
    proceeds_enter (Nat.zero_add _) name body [] .start
  exact (sound_enter found).bounded entering

end Evaluation

open Evaluation

namespace Store

/-- The rule that decides for a name, with its own name: that of the name, else the default
rule. -/
def decider? (store : Store) (name : String) : Option (String × Check) :=
  match store.get? name with
  | some body => some (name, body)
  | none =>
    if store.defaultRule = "" then none
    else (store.get? store.defaultRule).map (store.defaultRule, ·)

/-- **Every evaluation keeps to its bounds.** This holds of the evaluation of a check and of
that of the rule that decides for a name; without such a rule there is none. -/
theorem evaluation_bounded (store : Store) (request : Request) :
    (∀ check : Check,
      Point.Bounded store.rules request ⟨.evaluate check, [], [], .start⟩
        (check.decide store.rules request)) ∧
    ∀ name,
      match store.decider? name with
      | some (decider, body) =>
        Point.Bounded store.rules request ⟨.enter decider body, [], [], .start⟩
          (store.decide name request)
      | none => store.decide name request = ⟨false, [.noDefault name]⟩ := by
  refine ⟨fun check => bounded_decide check store.rules request, fun name => ?_⟩
  unfold decider? decide
  cases found : store.get? name with
  | some body => exact bounded_decideNamed found request
  | none =>
      by_cases unset : store.defaultRule = ""
      · simp only [unset, ↓reduceIte]
      · cases default : store.get? store.defaultRule with
        | none => simp only [unset, ↓reduceIte, Option.map_none]
        | some body =>
            simp only [unset, ↓reduceIte, Option.map_some]
            exact (bounded_decideNamed default request).report rfl

end Store

end AccessPolicy

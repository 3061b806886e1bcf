import AccessPolicy.Proofs.Evaluation.Budget
import Mathlib.Logic.Function.Iterate
import Mathlib.Tactic.SplitIfs

/-! # The points of an evaluation

An evaluation can be followed from point to point. A point has a task, the evaluations that
wait for it, one chain of the rules under evaluation that grows and shrinks, and the
progress so far. From the point at which a check is to be evaluated, or a rule to be
entered, one comes to the point at which the result is given, and there is nothing else to
wait for than before, the chain is as it was, and result and progress are those of the
evaluation.
-/

namespace AccessPolicy.Evaluation

/-- What is to be done at a point. -/
inductive Task where
  | evaluate (check : Check)
  | enter (name : String) (body : Check)
  | give (result : Bool)

/-- An evaluation that waits for another one: that of a negated check, of the last of the
branches met so far, with the later ones left, or of the body of the last rule of the
chain. -/
inductive Waiting where
  | negation (inner : Check)
  | conjunction (met later : List Check)
  | disjunction (met later : List Check)
  | reference (name : String)

structure Point where
  task : Task
  /-- The evaluations that wait, the last one first. -/
  waiting : List Waiting
  chain : List String
  progress : Progress

namespace Point

def give (point : Point) (result : Bool) : Point :=
  { point with task := .give result }

/-- The point after one at which a check is to be evaluated. -/
def evaluateNext (rules : Table Check) (request : Request) (point : Point) : Check → Point
  | .deny => point.give false
  | .allow => point.give true
  | .not inner =>
    { point with task := .evaluate inner, waiting := .negation inner :: point.waiting }
  | .and [] => point.give true
  | .and (first :: later) =>
    { point with
      task := .evaluate first
      waiting := .conjunction [first] later :: point.waiting }
  | .or [] => point.give false
  | .or (first :: later) =>
    { point with
      task := .evaluate first
      waiting := .disjunction [first] later :: point.waiting }
  | .rule name =>
    match rules.get? name with
    | some body => { point with task := .enter name body }
    | none =>
      { point.give false with progress := point.progress.report (.undefinedReference name) }
  | .role name => point.give (request.hasRole name)
  | .compare kind matcher => point.give (request.agree kind matcher)

/-- The point after one at which a rule is to be entered. -/
def enterNext (point : Point) (name : String) (body : Check) : Point :=
  if point.progress.exhausted then point.give false
  else if greatestSteps ≤ point.progress.steps then
    { point.give false with
      progress := (point.progress.step.report (.budgetExceeded name greatestSteps)).exhaust }
  else if point.chain.contains name then
    { point.give false with
      progress := point.progress.step.report (.cyclicReference name point.chain) }
  else if greatestDepth ≤ point.chain.length then
    { point.give false with
      progress := point.progress.step.report (.chainTooDeep name point.chain.length) }
  else
    { task := .evaluate body
      waiting := .reference name :: point.waiting
      chain := point.chain ++ [name]
      progress := point.progress.step }

/-- The point after one at which a result is given to what waits for it. -/
def giveNext (point : Point) (result : Bool) : Point :=
  match point.waiting with
  | [] => point
  | .negation _ :: rest => { point with task := .give !result, waiting := rest }
  | .conjunction met later :: rest =>
    match result, later with
    | true, next :: later =>
      { point with
        task := .evaluate next
        waiting := .conjunction (met ++ [next]) later :: rest }
    | _, _ => { point with waiting := rest }
  | .disjunction met later :: rest =>
    match result, later with
    | false, next :: later =>
      { point with
        task := .evaluate next
        waiting := .disjunction (met ++ [next]) later :: rest }
    | _, _ => { point with waiting := rest }
  | .reference _ :: rest => { point with waiting := rest, chain := point.chain.dropLast }

/-- The point after a point; the last point is its own. -/
def next (rules : Table Check) (request : Request) (point : Point) : Point :=
  match point.task with
  | .evaluate check => point.evaluateNext rules request check
  | .enter name body => point.enterNext name body
  | .give result => point.giveNext result

/-- The point that comes so many points after one. -/
def after (rules : Table Check) (request : Request) (point : Point) (count : Nat) : Point :=
  (next rules request)^[count] point

theorem after_succ (rules : Table Check) (request : Request) (point : Point) (count : Nat) :
    point.after rules request (count + 1) = (point.after rules request count).next rules request :=
  Function.iterate_succ_apply' ..

theorem after_add (rules : Table Check) (request : Request) (point : Point)
    (count further : Nat) :
    point.after rules request (count + further) =
      (point.after rules request count).after rules request further := by
  rw [Nat.add_comm]
  exact Function.iterate_add_apply ..

/-- A point before the result is given to the first of the given evaluations that wait. -/
def Within (waiting : List Waiting) (point : Point) : Prop :=
  waiting <:+ point.waiting ∧ (point.waiting = waiting → ∀ result, point.task ≠ .give result)

end Point

section Proceeding

variable {rules : Table Check} {request : Request}

/-- One comes from a point to another one, and gives no result to the given evaluations that
wait before. -/
inductive Proceeds (rules : Table Check) (request : Request) (waiting : List Waiting) :
    Point → Point → Prop where
  | refl (point : Point) : Proceeds rules request waiting point point
  | step {point last : Point} : point.Within waiting →
      Proceeds rules request waiting (point.next rules request) last →
      Proceeds rules request waiting point last

namespace Proceeds

variable {waiting : List Waiting} {first middle last : Point}

theorem trans (start : Proceeds rules request waiting first middle)
    (rest : Proceeds rules request waiting middle last) :
    Proceeds rules request waiting first last := by
  induction start with
  | refl => exact rest
  | step within _ ih => exact .step within (ih rest)

theorem of_cons {frame : Waiting}
    (proceeds : Proceeds rules request (frame :: waiting) first last) :
    Proceeds rules request waiting first last := by
  induction proceeds with
  | refl => exact .refl _
  | step within _ ih =>
      refine .step ⟨(List.suffix_cons ..).trans within.1, fun same => ?_⟩ ih
      have longer := within.1.length_le
      rw [same, List.length_cons] at longer
      omega

/-- Proceeding from one point to another takes a number of steps. -/
theorem exists_after (proceeds : Proceeds rules request waiting first last) :
    ∃ count, first.after rules request count = last ∧
      ∀ earlier < count, (first.after rules request earlier).Within waiting := by
  induction proceeds with
  | refl => exact ⟨0, rfl, fun _ impossible => absurd impossible (Nat.not_lt_zero _)⟩
  | step within _ ih =>
      obtain ⟨count, reached, before⟩ := ih
      refine ⟨count + 1, reached, fun earlier less => ?_⟩
      cases earlier with
      | zero => exact within
      | succ earlier => exact before earlier (Nat.lt_of_succ_lt_succ less)

/-- So does leading on from a later point. -/
theorem exists_after_add {count : Nat} (here : first.after rules request count = middle)
    (proceeds : Proceeds rules request waiting middle last) :
    ∃ further, first.after rules request (count + further) = last ∧
      ∀ between < further, (first.after rules request (count + between)).Within waiting := by
  obtain ⟨further, reached, before⟩ := proceeds.exists_after
  simp only [Point.after_add, here]
  exact ⟨further, reached, before⟩

end Proceeds

namespace Point

variable {waiting : List Waiting} {chain : List String} {progress : Progress}

theorem within_evaluate (check : Check) :
    Within waiting ⟨.evaluate check, waiting, chain, progress⟩ :=
  ⟨List.suffix_refl _, fun _ _ => Task.noConfusion⟩

theorem within_enter (name : String) (body : Check) :
    Within waiting ⟨.enter name body, waiting, chain, progress⟩ :=
  ⟨List.suffix_refl _, fun _ _ => Task.noConfusion⟩

theorem within_cons (frame : Waiting) (task : Task) :
    Within waiting ⟨task, frame :: waiting, chain, progress⟩ := by
  refine ⟨List.suffix_cons .., fun same => ?_⟩
  have longer := congrArg List.length same
  rw [List.length_cons] at longer
  omega

end Point

/-- The point at which an outcome is given. -/
def Point.afterwards (waiting : List Waiting) (chain : List String) (outcome : Bool × Progress) :
    Point :=
  ⟨.give outcome.1, waiting, chain, outcome.2⟩

section Evaluating

open Point

variable {enter : String → Check → Run} {chain : List String}

/-- What is left of a conjunction when the result of a branch is given. -/
theorem proceeds_conjunction {met later : List Check}
    (each : ∀ branch ∈ later, ∀ waiting progress,
      Proceeds rules request waiting ⟨.evaluate branch, waiting, chain, progress⟩
        (afterwards waiting chain (evaluate rules request enter branch progress)))
    (waiting : List Waiting) (outcome : Bool × Progress) :
    Proceeds rules request waiting (afterwards (.conjunction met later :: waiting) chain outcome)
      (afterwards waiting chain
        (match outcome with
        | (true, progress) => evaluateAll rules request enter later progress
        | (false, progress) => (false, progress))) := by
  obtain ⟨result, progress⟩ := outcome
  induction later generalizing met result progress with
  | nil =>
      refine .step (within_cons _ _) ?_
      cases result <;> exact .refl _
  | cons branch later ih =>
      refine .step (within_cons _ _) ?_
      cases result with
      | false => exact .refl _
      | true =>
          obtain ⟨first, others⟩ := List.forall_mem_cons.mp each
          refine (first (.conjunction (met ++ [branch]) later :: waiting) progress).of_cons.trans ?_
          exact ih others ..

/-- What is left of a disjunction when the result of a branch is given. -/
theorem proceeds_disjunction {met later : List Check}
    (each : ∀ branch ∈ later, ∀ waiting progress,
      Proceeds rules request waiting ⟨.evaluate branch, waiting, chain, progress⟩
        (afterwards waiting chain (evaluate rules request enter branch progress)))
    (waiting : List Waiting) (outcome : Bool × Progress) :
    Proceeds rules request waiting (afterwards (.disjunction met later :: waiting) chain outcome)
      (afterwards waiting chain
        (match outcome with
        | (true, progress) => (true, progress)
        | (false, progress) => evaluateAny rules request enter later progress)) := by
  obtain ⟨result, progress⟩ := outcome
  induction later generalizing met result progress with
  | nil =>
      refine .step (within_cons _ _) ?_
      cases result <;> exact .refl _
  | cons branch later ih =>
      refine .step (within_cons _ _) ?_
      cases result with
      | true => exact .refl _
      | false =>
          obtain ⟨first, others⟩ := List.forall_mem_cons.mp each
          refine (first (.disjunction (met ++ [branch]) later :: waiting) progress).of_cons.trans ?_
          exact ih others ..

/-- If one comes from entering a rule to its outcome, one comes from evaluating a check to
its outcome. -/
theorem proceeds_evaluate
    (entering : ∀ name body waiting progress,
      Proceeds rules request waiting ⟨.enter name body, waiting, chain, progress⟩
        (afterwards waiting chain (enter name body progress)))
    (check : Check) :
    ∀ waiting progress, Proceeds rules request waiting ⟨.evaluate check, waiting, chain, progress⟩
      (afterwards waiting chain (evaluate rules request enter check progress)) := by
  induction check using Check.branchInduction with
  | deny => exact fun waiting progress => .step (within_evaluate _) (.refl _)
  | allow => exact fun waiting progress => .step (within_evaluate _) (.refl _)
  | not inner ih =>
      intro waiting progress
      refine .step (within_evaluate _) ((ih (.negation inner :: waiting) progress).of_cons.trans ?_)
      exact .step (within_cons _ _) (.refl _)
  | and branches ih =>
      intro waiting progress
      refine .step (within_evaluate _) ?_
      cases branches with
      | nil => exact .refl _
      | cons first later =>
          obtain ⟨proceeds, others⟩ := List.forall_mem_cons.mp ih
          refine (proceeds (.conjunction [first] later :: waiting) progress).of_cons.trans ?_
          exact proceeds_conjunction others ..
  | or branches ih =>
      intro waiting progress
      refine .step (within_evaluate _) ?_
      cases branches with
      | nil => exact .refl _
      | cons first later =>
          obtain ⟨proceeds, others⟩ := List.forall_mem_cons.mp ih
          refine (proceeds (.disjunction [first] later :: waiting) progress).of_cons.trans ?_
          exact proceeds_disjunction others ..
  | rule name =>
      intro waiting progress
      refine .step (within_evaluate _) ?_
      simp only [next, evaluateNext, evaluate]
      cases rules.get? name with
      | none => exact .refl _
      | some body => exact entering name body waiting progress
  | role name => exact fun waiting progress => .step (within_evaluate _) (.refl _)
  | compare kind matcher => exact fun waiting progress => .step (within_evaluate _) (.refl _)

end Evaluating

/-- The ways on from the point at which a rule is to be entered. -/
inductive EnterStep (name : String) (body : Check) (waiting : List Waiting)
    (chain : List String) (progress : Progress) : Point → Prop where
  | exhausted (spent : progress.exhausted = true) :
      EnterStep name body waiting chain progress (.afterwards waiting chain (false, progress))
  | overBudget (fresh : progress.exhausted = false) (spent : greatestSteps ≤ progress.steps) :
      EnterStep name body waiting chain progress (.afterwards waiting chain
        (false, (progress.step.report (.budgetExceeded name greatestSteps)).exhaust))
  | cyclic (fresh : progress.exhausted = false) (affords : progress.steps < greatestSteps)
      (cyclic : name ∈ chain) :
      EnterStep name body waiting chain progress (.afterwards waiting chain
        (false, progress.step.report (.cyclicReference name chain)))
  | tooDeep (fresh : progress.exhausted = false) (affords : progress.steps < greatestSteps)
      (acyclic : name ∉ chain) (deep : greatestDepth ≤ chain.length) :
      EnterStep name body waiting chain progress (.afterwards waiting chain
        (false, progress.step.report (.chainTooDeep name chain.length)))
  | body (fresh : progress.exhausted = false) (affords : progress.steps < greatestSteps)
      (acyclic : name ∉ chain) (short : chain.length < greatestDepth) :
      EnterStep name body waiting chain progress
        ⟨.evaluate body, .reference name :: waiting, chain ++ [name], progress.step⟩

theorem enterStep_next (name : String) (body : Check) (waiting : List Waiting)
    (chain : List String) (progress : Progress) :
    EnterStep name body waiting chain progress
      (Point.next rules request ⟨.enter name body, waiting, chain, progress⟩) := by
  simp only [Point.next, Point.enterNext, List.contains_iff_mem]
  split_ifs with spent beyond cyclic deep
  · exact .exhausted spent
  · exact .overBudget (Bool.eq_false_iff.mpr spent) beyond
  · exact .cyclic (Bool.eq_false_iff.mpr spent) (Nat.not_le.mp beyond) cyclic
  · exact .tooDeep (Bool.eq_false_iff.mpr spent) (Nat.not_le.mp beyond) cyclic deep
  · exact .body (Bool.eq_false_iff.mpr spent) (Nat.not_le.mp beyond) cyclic (Nat.not_le.mp deep)

/-- From the point at which a rule is to be entered one comes to its outcome, with the same
chain. -/
theorem proceeds_enter {room : Nat} {chain : List String}
    (full : chain.length + room = greatestDepth) (name : String) (body : Check)
    (waiting : List Waiting) (progress : Progress) :
    Proceeds rules request waiting ⟨.enter name body, waiting, chain, progress⟩
      (Point.afterwards waiting chain (enter rules request room chain name body progress)) := by
  induction room using Nat.strongRecOn generalizing chain name body waiting progress with
  | ind room ih =>
      refine .step (Point.within_enter name body) ?_
      have way : EnterStep name body waiting chain progress
          (Point.next rules request ⟨.enter name body, waiting, chain, progress⟩) :=
        enterStep_next ..
      generalize Point.next rules request _ = entered at way ⊢
      cases way with
      | exhausted spent =>
          rw [enter_exhausted spent]
          exact .refl _
      | overBudget fresh spent =>
          rw [enter_overBudget fresh spent]
          exact .refl _
      | cyclic fresh affords cyclic =>
          rw [enter_cyclic fresh affords cyclic]
          exact .refl _
      | tooDeep fresh affords acyclic deep =>
          obtain rfl : room = 0 := by omega
          rw [enter_tooDeep fresh affords acyclic]
          exact .refl _
      | body fresh affords acyclic short =>
          obtain ⟨room, rfl⟩ : ∃ less, room = less + 1 := Nat.exists_eq_succ_of_ne_zero (by omega)
          rw [enter_body fresh affords acyclic]
          have full : (chain ++ [name]).length + room = greatestDepth := by
            rw [List.length_append, List.length_singleton]
            omega
          have inner : Proceeds rules request (.reference name :: waiting)
              ⟨.evaluate body, .reference name :: waiting, chain ++ [name], progress.step⟩ _ :=
            proceeds_evaluate (ih room (Nat.lt_succ_self room) full) body _ _
          refine inner.of_cons.trans (.step (Point.within_cons _ _) ?_)
          simp only [Point.next, Point.afterwards, Point.giveNext, List.dropLast_concat]
          exact .refl _

end Proceeding

end AccessPolicy.Evaluation

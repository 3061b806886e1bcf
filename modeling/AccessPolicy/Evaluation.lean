import AccessPolicy.Check
import AccessPolicy.Event
import AccessPolicy.Request
import AccessPolicy.Table

/-! # Evaluation

A check is evaluated from left to right and no further than needed. A reference
leads to the body of another rule. It is refused if that rule is under evaluation
already or if the chain of references is too long. The number of references that
one evaluation follows is limited as well, and going beyond that denies the
request whatever else the check says.
-/

namespace AccessPolicy

/-- The outcome of an evaluation and what was reported on the way. -/
structure Decision where
  allowed : Bool
  events : List Event

namespace Evaluation

/-- The greatest number of rules in a chain of references. -/
def greatestDepth : Nat := 32

/-- The greatest number of references that one evaluation follows. -/
def greatestSteps : Nat := 10000

/-- How far an evaluation has come. -/
structure Progress where
  steps : Nat
  /-- Whether there were more of them than allowed. -/
  exhausted : Bool
  events : List Event

namespace Progress

def start : Progress :=
  ⟨0, false, []⟩

def report (progress : Progress) (event : Event) : Progress :=
  { progress with events := event :: progress.events }

def step (progress : Progress) : Progress :=
  { progress with steps := progress.steps + 1 }

def exhaust (progress : Progress) : Progress :=
  { progress with exhausted := true }

/-- The decision that a result amounts to. An exhausted evaluation denies. -/
def decide (progress : Progress) (allowed : Bool) : Decision :=
  ⟨allowed && !progress.exhausted, progress.events.reverse⟩

end Progress

/-- A computation that reports and counts references. -/
abbrev Run : Type :=
  Progress → Bool × Progress

mutual

/-- Evaluates a check, entering the body of a rule by the given means. -/
def evaluate (rules : Table Check) (request : Request) (enter : String → Check → Run) :
    Check → Run
  | .deny, progress => (false, progress)
  | .allow, progress => (true, progress)
  | .not inner, progress =>
    let (result, progress) := evaluate rules request enter inner progress
    (!result, progress)
  | .and branches, progress => evaluateAll rules request enter branches progress
  | .or branches, progress => evaluateAny rules request enter branches progress
  | .rule name, progress =>
    match rules.get? name with
    | some body => enter name body progress
    | none => (false, progress.report (.undefinedReference name))
  | .role name, progress => (request.hasRole name, progress)
  | .compare kind matcher, progress => (request.agree kind matcher, progress)

/-- Evaluates branches up to the first that denies. -/
def evaluateAll (rules : Table Check) (request : Request) (enter : String → Check → Run) :
    List Check → Run
  | [], progress => (true, progress)
  | branch :: rest, progress =>
    match evaluate rules request enter branch progress with
    | (true, progress) => evaluateAll rules request enter rest progress
    | (false, progress) => (false, progress)

/-- Evaluates branches up to the first that allows. -/
def evaluateAny (rules : Table Check) (request : Request) (enter : String → Check → Run) :
    List Check → Run
  | [], progress => (false, progress)
  | branch :: rest, progress =>
    match evaluate rules request enter branch progress with
    | (true, progress) => (true, progress)
    | (false, progress) => evaluateAny rules request enter rest progress

end

/-- Evaluates the body of a rule at the end of a chain that has room for some more
rules. -/
def enter (rules : Table Check) (request : Request) (room : Nat) (chain : List String)
    (name : String) (body : Check) (progress : Progress) : Bool × Progress :=
  if progress.exhausted then (false, progress)
  else if greatestSteps ≤ progress.steps then
    (false, (progress.step.report (.budgetExceeded name greatestSteps)).exhaust)
  else if chain.contains name then
    (false, progress.step.report (.cyclicReference name chain))
  else
    match room with
    | 0 => (false, progress.step.report (.chainTooDeep name chain.length))
    | room + 1 =>
      evaluate rules request (enter rules request room (chain ++ [name])) body progress.step

def enterFirst (rules : Table Check) (request : Request) : String → Check → Run :=
  enter rules request greatestDepth []

end Evaluation

namespace Check

open Evaluation

def decide (check : Check) (rules : Table Check) (request : Request) : Decision :=
  let (allowed, progress) := evaluate rules request (enterFirst rules request) check .start
  progress.decide allowed

/-- The decision of a named rule with the given body, which is the first of its
chain. -/
def decideNamed (body : Check) (name : String) (rules : Table Check) (request : Request) :
    Decision :=
  let (allowed, progress) := enterFirst rules request name body .start
  progress.decide allowed

end Check

end AccessPolicy

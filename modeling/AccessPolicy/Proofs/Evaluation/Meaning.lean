import AccessPolicy.Evaluation
import AccessPolicy.Proofs.Check.Branches

/-! # The meaning of a check

What a check says is a truth value, once it is known which names are true. A chain of
references gives each name a truth value: that of its rule at the end of the chain,
unless the rule is part of the chain already or the chain is as long as it may be.
Beside the truth value stand the references to defined rules that a reader meets who
goes through the check from left to right and no further than needed. Neither has a
state: nothing is counted and nothing is exhausted.
-/

namespace AccessPolicy

/-- A reference to a defined rule that is met in a check. -/
structure Reference where
  /-- The rules whose bodies lead to the reference. -/
  chain : List String
  name : String
  /-- Whether the number of negations above the reference is odd. -/
  negated : Bool

def Reference.flip (reference : Reference) : Reference :=
  { reference with negated := !reference.negated }

namespace Check

section Holds

variable (request : Request) (truth : String → Bool)

mutual

/-- Whether a check allows, given the truth of every name. -/
def holds : Check → Bool
  | .deny => false
  | .allow => true
  | .not inner => !inner.holds
  | .and branches => allHold branches
  | .or branches => anyHolds branches
  | .rule name => truth name
  | .role name => request.hasRole name
  | .compare kind matcher => request.agree kind matcher

def allHold : List Check → Bool
  | [] => true
  | branch :: rest => branch.holds && allHold rest

def anyHolds : List Check → Bool
  | [] => false
  | branch :: rest => branch.holds || anyHolds rest

end

theorem allHold_eq_all (branches : List Check) :
    allHold request truth branches = branches.all (holds request truth) := by
  induction branches with
  | nil => rfl
  | cons branch rest ih => rw [allHold, ih, List.all_cons]

theorem anyHolds_eq_any (branches : List Check) :
    anyHolds request truth branches = branches.any (holds request truth) := by
  induction branches with
  | nil => rfl
  | cons branch rest ih => rw [anyHolds, ih, List.any_cons]

variable (met : String → List Reference)

mutual

/-- The references met in a check, given those met from every name on. -/
def metWith : Check → List Reference
  | .not inner => inner.metWith.map Reference.flip
  | .and branches => metInAll branches
  | .or branches => metInAny branches
  | .rule name => met name
  | _ => []

/-- The references met up to the first branch that denies. -/
def metInAll : List Check → List Reference
  | [] => []
  | branch :: rest => branch.metWith ++ if branch.holds request truth then metInAll rest else []

/-- The references met up to the first branch that allows. -/
def metInAny : List Check → List Reference
  | [] => []
  | branch :: rest => branch.metWith ++ if branch.holds request truth then [] else metInAny rest

end

end Holds

end Check

namespace Evaluation

/-- Whether a name is true at the end of a chain of references. -/
def truth (rules : Table Check) (request : Request) (chain : List String) (name : String) :
    Bool :=
  match rules.get? name with
  | none => false
  | some body =>
    if name ∉ chain ∧ chain.length < greatestDepth then
      body.holds request (truth rules request (chain ++ [name]))
    else false
termination_by greatestDepth - chain.length
decreasing_by
  rename_i room
  have := room.2
  rw [List.length_append, List.length_singleton]
  omega

/-- The references met from a name on, at the end of a chain of references. -/
def met (rules : Table Check) (request : Request) (chain : List String) (name : String) :
    List Reference :=
  match rules.get? name with
  | none => []
  | some body =>
    ⟨chain, name, false⟩ ::
      if name ∉ chain ∧ chain.length < greatestDepth then
        body.metWith request (truth rules request (chain ++ [name]))
          (met rules request (chain ++ [name]))
      else []
termination_by greatestDepth - chain.length
decreasing_by
  rename_i room
  have := room.2
  rw [List.length_append, List.length_singleton]
  omega

end Evaluation

namespace Check

/-- What a check says at the end of a chain of references. -/
def meaning (check : Check) (rules : Table Check) (request : Request) (chain : List String) :
    Bool :=
  check.holds request (Evaluation.truth rules request chain)

/-- The references met in a check at the end of a chain of references. -/
def met (check : Check) (rules : Table Check) (request : Request) (chain : List String) :
    List Reference :=
  check.metWith request (Evaluation.truth rules request chain)
    (Evaluation.met rules request chain)

end Check

namespace Evaluation

variable {rules : Table Check} {name : String} (request : Request) (chain : List String)

theorem truth_of_undefined (undefined : rules.get? name = none) :
    truth rules request chain name = false := by
  rw [truth, undefined]

theorem met_of_undefined (undefined : rules.get? name = none) :
    met rules request chain name = [] := by
  rw [met, undefined]

theorem truth_of_defined {body : Check} (found : rules.get? name = some body) :
    truth rules request chain name =
      if name ∉ chain ∧ chain.length < greatestDepth then
        body.meaning rules request (chain ++ [name])
      else false := by
  rw [truth, found]
  rfl

theorem met_of_defined {body : Check} (found : rules.get? name = some body) :
    met rules request chain name =
      ⟨chain, name, false⟩ ::
        if name ∉ chain ∧ chain.length < greatestDepth then
          body.met rules request (chain ++ [name])
        else [] := by
  rw [met, found]
  rfl

end Evaluation

end AccessPolicy

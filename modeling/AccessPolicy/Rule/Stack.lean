import AccessPolicy.Rule.Token

/-! # The stack of a rule in progress

A rule is read from left to right on a stack of operands and pending tokens. As
soon as the top of the stack has the form of a complete expression it is
replaced by that expression. An `or` is completed before a following `and` is
seen, so a later `and` reaches back into the last alternative.
-/

namespace AccessPolicy.Rule

/-- How an operand on the stack was formed, which decides what may extend it. -/
inductive Shape where
  /-- A leaf, a negation, or an expression in parentheses. -/
  | atom
  /-- A conjunction that later `and`s extend. -/
  | conjunction
  /-- A disjunction that later operators extend. -/
  | disjunction
deriving DecidableEq

inductive Item where
  /-- A parenthesis, an operator or a quoted word that waits for its operands. -/
  | pending (token : Token)
  | operand (shape : Shape) (check : Check)

namespace Item

/-- A leaf is complete as it is; every other token waits. -/
def ofToken : Token → Item
  | .leaf word => .operand .atom (Check.ofWord word)
  | token => .pending token

end Item

/-- The entries of a rule in progress, the latest first. -/
abbrev Stack : Type := List Item

namespace Stack

/-- Replaces the complete expression at the top of the stack, if there is one,
by a single operand. -/
def reduce? : Stack → Option Stack
  | .pending .closeParen :: .operand _ inner :: .pending .openParen :: below =>
    some (.operand .atom inner :: below)
  | .operand .atom inner :: .pending (.keyword .not _) :: below =>
    some (.operand .atom (.not inner) :: below)
  | .operand .atom last :: .pending (.keyword .and _) :: .operand .atom first :: below =>
    some (.operand .conjunction (.and [first, last]) :: below)
  | .operand .atom last :: .pending (.keyword .and _) :: .operand .conjunction first :: below =>
    some (.operand .conjunction (first.andWith last) :: below)
  | .operand .atom last :: .pending (.keyword .and _) :: .operand .disjunction first :: below =>
    some (.operand .disjunction (.or (Check.bindLast first.alternatives last)) :: below)
  | .operand .atom last :: .pending (.keyword .or _) :: .operand .disjunction first :: below =>
    some (.operand .disjunction (.or (first.alternatives ++ [last])) :: below)
  | .operand .atom last :: .pending (.keyword .or _) :: .operand _ first :: below =>
    some (.operand .disjunction (.or [first, last]) :: below)
  | _ => none

/-- Every replacement leaves fewer entries. -/
theorem length_of_reduce? {stack reduced : Stack} (step : stack.reduce? = some reduced) :
    reduced.length < stack.length := by
  unfold reduce? at step
  split at step <;> simp at step <;> subst step <;> simp

/-- Replaces complete expressions at the top until none is left. -/
def settle (stack : Stack) : Stack :=
  match _step : stack.reduce? with
  | some reduced => settle reduced
  | none => stack
termination_by stack.length
decreasing_by exact length_of_reduce? _step

/-- Puts the next token on the stack and completes what it completes. -/
def shift (stack : Stack) (token : Token) : Stack :=
  settle (.ofToken token :: stack)

def ofTokens (tokens : List Token) : Stack :=
  tokens.foldl shift []

/-- The check of a stack that holds one complete expression and nothing else. -/
def check? : Stack → Option Check
  | [.operand _ check] => some check
  | _ => none

end Stack

end AccessPolicy.Rule

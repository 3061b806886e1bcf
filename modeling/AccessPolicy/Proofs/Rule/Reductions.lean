import AccessPolicy.Rule.Stack
import Mathlib.Data.List.Induction

/-! # Reading with two stacks

A rule can also be read on two stacks side by side, one of symbols and one of values.
Which reduction applies is decided by the symbols alone, from a list of forms that are
tried in order, and the values are taken as they come. Where a value is not what its
symbol promises, a reduction goes on with a fallback, and the stacks keep account of it.
-/

namespace AccessPolicy.Rule

/-- What the choice of a reduction sees of an entry. -/
inductive Symbol where
  | openParen
  | closeParen
  | keyword (operator : Keyword)
  | quoted
  | operand (shape : Shape)
deriving DecidableEq

def Symbol.ofToken : Token → Symbol
  | .openParen => .openParen
  | .closeParen => .closeParen
  | .keyword operator _ => .keyword operator
  | .quoted _ => .quoted
  | .leaf _ => .operand .atom

inductive Value where
  | text (text : String)
  | check (check : Check)

/-- The check that a token carries, or else its text. -/
def Value.ofToken (token : Token) : Value :=
  match token.check? with
  | some carried => .check carried
  | none => .text token.text

/-- The ways to replace a complete expression at the top. -/
inductive Reduction where
  /-- An expression in parentheses. -/
  | unwrap
  | negate
  | makeAnd
  | extendAnd
  /-- An `and` after a disjunction, which binds to the last alternative. -/
  | mixOrAnd
  | makeOr
  | extendOr

namespace Reduction

/-- The symbols that each reduction replaces, as they were read, in the order in which
they are tried. -/
def forms : List (List Symbol × Reduction) :=
  [([.openParen, .operand .atom, .closeParen], .unwrap),
    ([.openParen, .operand .conjunction, .closeParen], .unwrap),
    ([.openParen, .operand .disjunction, .closeParen], .unwrap),
    ([.keyword .not, .operand .atom], .negate),
    ([.operand .atom, .keyword .and, .operand .atom], .makeAnd),
    ([.operand .conjunction, .keyword .and, .operand .atom], .extendAnd),
    ([.operand .disjunction, .keyword .and, .operand .atom], .mixOrAnd),
    ([.operand .atom, .keyword .or, .operand .atom], .makeOr),
    ([.operand .conjunction, .keyword .or, .operand .atom], .makeOr),
    ([.operand .disjunction, .keyword .or, .operand .atom], .extendOr)]

/-- The number of entries that a reduction replaces. -/
def width : Reduction → Nat
  | .negate => 2
  | _ => 3

theorem two_le_width (reduction : Reduction) : 2 ≤ reduction.width := by
  cases reduction <;> decide

/-- How the operand stands that a reduction leaves. -/
def shape : Reduction → Shape
  | .unwrap | .negate => .atom
  | .makeAnd | .extendAnd => .conjunction
  | .mixOrAnd | .makeOr | .extendOr => .disjunction

end Reduction

/-- What a reduction does about a value that is not what its symbol promises. -/
inductive Fallback where
  /-- A check that denies stands in for a value that is no check. -/
  | substitutedCheck
  /-- A check that is no disjunction counts as the only alternative. -/
  | soleAlternative
  /-- A check that is to be bound to the last of no alternatives stands alone. -/
  | unboundCheck

/-- The stacks of a rule in progress, each with the latest entry first, and the fallbacks
that were taken so far. -/
structure TwinStack where
  symbols : List Symbol := []
  values : List Value := []
  fallbacks : List Fallback := []

namespace TwinStack

def push (stack : TwinStack) (symbol : Symbol) (value : Value) : TwinStack :=
  { stack with symbols := symbol :: stack.symbols, values := value :: stack.values }

def discard (stack : TwinStack) : TwinStack :=
  { stack with symbols := stack.symbols.tail, values := stack.values.tail }

def fallBack (stack : TwinStack) (fallbacks : List Fallback) : TwinStack :=
  { stack with fallbacks := stack.fallbacks ++ fallbacks }

/-- Takes the check at the top. -/
def popCheck (stack : TwinStack) : Check × TwinStack :=
  match stack.values with
  | .check check :: _ => (check, stack.discard)
  | _ => (.deny, stack.discard.fallBack [.substitutedCheck])

/-- Replaces two operands and the operator between them by what they are joined to. -/
def join (stack : TwinStack) (shape : Shape) (joined : Check → Check → Check × List Fallback) :
    TwinStack :=
  let (last, stack) := stack.popCheck
  let (first, stack) := stack.discard.popCheck
  let (check, fallbacks) := joined first last
  (stack.fallBack fallbacks).push (.operand shape) (.check check)

/-- The alternatives that a check has when it stands for a disjunction. -/
def alternatives : Check → List Check × List Fallback
  | .or branches => (branches, [])
  | other => ([other], [.soleAlternative])

/-- The disjunction in which a check is bound by `and` to the last alternative. -/
def bindLast (first last : Check) : Check × List Fallback :=
  let (branches, fallbacks) := alternatives first
  match branches.getLast? with
  | some branch => (.or (branches.dropLast ++ [branch.andWith last]), fallbacks)
  | none => (.or (branches ++ [last]), fallbacks ++ [.unboundCheck])

def addAlternative (first last : Check) : Check × List Fallback :=
  let (branches, fallbacks) := alternatives first
  (.or (branches ++ [last]), fallbacks)

def apply (stack : TwinStack) : Reduction → TwinStack
  | .unwrap =>
    let (inner, stack) := stack.discard.popCheck
    stack.discard.push (.operand .atom) (.check inner)
  | .negate =>
    let (inner, stack) := stack.popCheck
    stack.discard.push (.operand .atom) (.check (.not inner))
  | .makeAnd => stack.join .conjunction fun first last => (.and [first, last], [])
  | .extendAnd => stack.join .conjunction fun first last => (first.andWith last, [])
  | .mixOrAnd => stack.join .disjunction bindLast
  | .makeOr => stack.join .disjunction fun first last => (.or [first, last], [])
  | .extendOr => stack.join .disjunction addAlternative

/-- The first reduction whose form the symbols at the top have. -/
def next? (stack : TwinStack) : Option Reduction :=
  (Reduction.forms.find? fun form => form.1.reverse.isPrefixOf stack.symbols).map Prod.snd

end TwinStack

/-! ## What a reduction replaces -/

/-- The symbols at the top are those that a reduction replaces. -/
inductive Reduction.Applies : Reduction → List Symbol → Prop where
  | unwrap (shape : Shape) (below : List Symbol) :
      Applies .unwrap (.closeParen :: .operand shape :: .openParen :: below)
  | negate (below : List Symbol) : Applies .negate (.operand .atom :: .keyword .not :: below)
  | makeAnd (below : List Symbol) :
      Applies .makeAnd (.operand .atom :: .keyword .and :: .operand .atom :: below)
  | extendAnd (below : List Symbol) :
      Applies .extendAnd (.operand .atom :: .keyword .and :: .operand .conjunction :: below)
  | mixOrAnd (below : List Symbol) :
      Applies .mixOrAnd (.operand .atom :: .keyword .and :: .operand .disjunction :: below)
  | makeOr (shape : Shape) (other : shape ≠ .disjunction) (below : List Symbol) :
      Applies .makeOr (.operand .atom :: .keyword .or :: .operand shape :: below)
  | extendOr (below : List Symbol) :
      Applies .extendOr (.operand .atom :: .keyword .or :: .operand .disjunction :: below)

theorem Reduction.Applies.width_le {reduction : Reduction} {symbols : List Symbol}
    (applies : reduction.Applies symbols) : reduction.width ≤ symbols.length := by
  cases applies <;> simp [width]

namespace TwinStack

/-- The list of forms is exact: at most one reduction has the symbols at the top, and it is
the one that is found. -/
theorem next?_eq_some_iff {stack : TwinStack} {reduction : Reduction} :
    stack.next? = some reduction ↔ reduction.Applies stack.symbols := by
  constructor
  · -- What is found is one of the listed forms, and these symbols are at the top.
    intro next
    obtain ⟨⟨form, _⟩, found, rfl⟩ := Option.map_eq_some_iff.mp next
    have stands := List.find?_some found
    obtain ⟨below, same⟩ := List.isPrefixOf_iff_prefix.mp stands
    have member := List.mem_of_find?_eq_some found
    rw [← same]
    simp only [Reduction.forms, List.mem_cons, List.not_mem_nil, or_false, Prod.mk.injEq] at member
    rcases member with ⟨rfl, rfl⟩ | ⟨rfl, rfl⟩ | ⟨rfl, rfl⟩ | ⟨rfl, rfl⟩ | ⟨rfl, rfl⟩ |
      ⟨rfl, rfl⟩ | ⟨rfl, rfl⟩ | ⟨rfl, rfl⟩ | ⟨rfl, rfl⟩ | ⟨rfl, rfl⟩
    · exact .unwrap _ below
    · exact .unwrap _ below
    · exact .unwrap _ below
    · exact .negate below
    · exact .makeAnd below
    · exact .extendAnd below
    · exact .mixOrAnd below
    · exact .makeOr _ (by decide) below
    · exact .makeOr _ (by decide) below
    · exact .extendOr below
  · obtain ⟨symbols, values, fallbacks⟩ := stack
    rintro (⟨shape, below⟩ | below | below | below | below | ⟨shape, other, below⟩ | below)
    · cases shape <;> rfl
    · rfl
    · rfl
    · rfl
    · rfl
    · cases shape with
      | disjunction => exact absurd rfl other
      | _ => rfl
    · rfl

@[simp] theorem symbols_popCheck (stack : TwinStack) :
    stack.popCheck.2.symbols = stack.symbols.tail := by
  unfold popCheck
  split <;> rfl

@[simp] theorem symbols_join (stack : TwinStack) (shape : Shape)
    (joined : Check → Check → Check × List Fallback) :
    (stack.join shape joined).symbols = .operand shape :: stack.symbols.drop 3 := by
  simp only [join, push, fallBack, discard, symbols_popCheck, ← List.drop_one, List.drop_drop]

/-- Whatever the values are, a reduction leaves one operand on the symbols below. -/
theorem symbols_apply (stack : TwinStack) (reduction : Reduction) :
    (stack.apply reduction).symbols =
      .operand reduction.shape :: stack.symbols.drop reduction.width := by
  cases reduction <;>
    simp only [apply, push, discard, symbols_join, symbols_popCheck, ← List.drop_one,
      List.drop_drop, Reduction.shape, Reduction.width]

/-- Every reduction shortens the stack. -/
theorem length_apply_lt {stack : TwinStack} {reduction : Reduction}
    (next : stack.next? = some reduction) :
    (stack.apply reduction).symbols.length < stack.symbols.length := by
  have replaced := (next?_eq_some_iff.mp next).width_le
  have several := reduction.two_le_width
  rw [symbols_apply, List.length_cons, List.length_drop]
  omega

/-! ## Reading -/

/-- Applies reductions until none applies. -/
def settle (stack : TwinStack) : TwinStack :=
  match _step : stack.next? with
  | some reduction => settle (stack.apply reduction)
  | none => stack
termination_by stack.symbols.length
decreasing_by exact length_apply_lt _step

def enter (stack : TwinStack) (token : Token) : TwinStack :=
  stack.push (.ofToken token) (.ofToken token)

def shift (stack : TwinStack) (token : Token) : TwinStack :=
  (stack.enter token).settle

def ofTokens (tokens : List Token) : TwinStack :=
  tokens.foldl shift {}

/-- The check of a stack with a single symbol, if that is an operand with a check for a
value. -/
def finish (stack : TwinStack) : Option Check :=
  match stack.symbols with
  | [.operand _] =>
    match stack.values with
    | .check check :: _ => some check
    | _ => none
  | _ => none

theorem settle_of_next? {stack : TwinStack} {reduction : Reduction}
    (next : stack.next? = some reduction) : stack.settle = (stack.apply reduction).settle := by
  rw [settle]
  split
  · rename_i other found
    rw [next] at found
    exact congrArg (fun reduction => (stack.apply reduction).settle) (Option.some.inj found).symm
  · rename_i none
    rw [next] at none
    contradiction

theorem settle_of_next?_eq_none {stack : TwinStack} (done : stack.next? = none) :
    stack.settle = stack := by
  rw [settle]
  split
  · rename_i other found
    rw [done] at found
    contradiction
  · rfl

theorem ofTokens_append (front : List Token) (token : Token) :
    ofTokens (front ++ [token]) = (ofTokens front).shift token :=
  List.foldl_append

/-- The stacks that reading comes through: from an empty one, the stack after every token
that is entered when no reduction applies, and the stack after every single reduction. -/
inductive Reaches : List Token → List Reduction → TwinStack → Prop where
  | start : Reaches [] [] {}
  | enter {read : List Token} {applied : List Reduction} {stack : TwinStack} (token : Token) :
      Reaches read applied stack → stack.next? = none →
      Reaches (read ++ [token]) applied (stack.enter token)
  | apply {read : List Token} {applied : List Reduction} {stack : TwinStack}
      {reduction : Reduction} :
      Reaches read applied stack → stack.next? = some reduction →
      Reaches read (applied ++ [reduction]) (stack.apply reduction)

namespace Reaches

variable {read : List Token} {applied : List Reduction} {stack : TwinStack}

/-- What is left to do at a stack that is reached is to settle it. -/
theorem settle_eq (reached : Reaches read applied stack) : stack.settle = ofTokens read := by
  induction reached with
  | start => exact settle_of_next?_eq_none rfl
  | @enter read applied stack token reached done ih =>
      rw [settle_of_next?_eq_none done] at ih
      rw [ofTokens_append, ← ih, shift]
  | apply reached next ih => rw [← settle_of_next? next, ih]

/-- Reading comes on to the settled stack. -/
theorem settle (reached : Reaches read applied stack) :
    ∃ further, Reaches read (applied ++ further) stack.settle := by
  induction stack using TwinStack.settle.induct generalizing applied with
  | case1 stack reduction next ih =>
      obtain ⟨further, settled⟩ := ih (reached.apply next)
      rw [settle_of_next? next]
      exact ⟨reduction :: further, by rwa [List.append_assoc] at settled⟩
  | case2 stack done =>
      rw [settle_of_next?_eq_none done]
      exact ⟨[], by rwa [List.append_nil]⟩

end Reaches

theorem next?_settle (stack : TwinStack) : stack.settle.next? = none := by
  induction stack using settle.induct with
  | case1 stack reduction next ih => rwa [settle_of_next? next]
  | case2 stack done => rwa [settle_of_next?_eq_none done]

theorem next?_ofTokens (tokens : List Token) : (ofTokens tokens).next? = none := by
  cases tokens using List.reverseRecOn with
  | nil => rfl
  | append_singleton front token => exact ofTokens_append front token ▸ next?_settle _

/-- Reading comes to the stack of the tokens that were read. -/
theorem reaches_ofTokens (tokens : List Token) :
    ∃ applied, Reaches tokens applied (ofTokens tokens) := by
  induction tokens using List.reverseRecOn with
  | nil => exact ⟨[], .start⟩
  | append_singleton front token ih =>
      obtain ⟨applied, reached⟩ := ih
      obtain ⟨further, settled⟩ := (reached.enter token (next?_ofTokens front)).settle
      exact ⟨applied ++ further, ofTokens_append front token ▸ settled⟩

/-- Every token brings one symbol, and every reduction takes away at least one. -/
theorem Reaches.length_le {read : List Token} {applied : List Reduction} {stack : TwinStack}
    (reached : Reaches read applied stack) :
    applied.length + stack.symbols.length ≤ read.length := by
  induction reached with
  | start => exact Nat.le_refl 0
  | enter token _ _ ih =>
      rw [List.length_append, List.length_singleton, TwinStack.enter, push, List.length_cons]
      omega
  | apply _ next ih =>
      have shorter := length_apply_lt next
      rw [List.length_append, List.length_singleton]
      omega

theorem Reaches.symbols_ne_nil {read : List Token} {applied : List Reduction} {stack : TwinStack}
    (reached : Reaches read applied stack) (present : read ≠ []) : stack.symbols ≠ [] := by
  cases reached with
  | start => contradiction
  | enter => exact List.cons_ne_nil _ _
  | apply => exact symbols_apply .. ▸ List.cons_ne_nil _ _

end TwinStack

end AccessPolicy.Rule

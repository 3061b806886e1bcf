import AccessPolicy.Proofs.Rule.Reductions
import AccessPolicy.Proofs.Rule.Writing

/-! # The alignment of the two stacks

While a rule is read on two stacks, every symbol has a value of its own beside it, which
is what the symbol promises, so no reduction ever takes a fallback. The stacks are thus
those of the entries that `Stack` has one by one, and both come to the same check. There
are fewer reductions than tokens, because each leaves a shorter stack behind and the last
of them leaves a symbol. When no reduction applies, no complete expression is left: neither
one that ends the stack, nor a negated check anywhere on it.
-/

namespace AccessPolicy.Rule

/-- The value that a symbol promises: a check for an operand, which has several branches
where it is a conjunction or a disjunction, and a text for every other symbol. -/
inductive Symbol.Holds : Symbol → Value → Prop where
  | atom (check : Check) : Holds (.operand .atom) (.check check)
  | conjunction {branches : List Check} (several : 2 ≤ branches.length) :
      Holds (.operand .conjunction) (.check (.and branches))
  | disjunction {branches : List Check} (several : 2 ≤ branches.length) :
      Holds (.operand .disjunction) (.check (.or branches))
  | pending {symbol : Symbol} (waits : ∀ shape, symbol ≠ .operand shape) (text : String) :
      Holds symbol (.text text)

namespace Symbol

theorem holds_ofToken (token : Token) : Holds (.ofToken token) (.ofToken token) := by
  cases token with
  | leaf word => exact .atom (Check.ofWord word)
  | _ => exact .pending (fun _ => Symbol.noConfusion) _

namespace Holds

variable {symbol : Symbol} {value : Value}

theorem exists_text (holds : symbol.Holds value) (waits : ∀ shape, symbol ≠ .operand shape) :
    ∃ text, value = .text text := by
  cases holds with
  | pending _ text => exact ⟨text, rfl⟩
  | _ => exact absurd rfl (waits _)

theorem exists_check {shape : Shape} (holds : Holds (.operand shape) value) :
    ∃ check, value = .check check := by
  cases holds with
  | pending waits => exact absurd rfl (waits shape)
  | _ => exact ⟨_, rfl⟩

end Holds

end Symbol

namespace TwinStack

/-- Every symbol has the value beside it that it promises, and no fallback was taken. -/
structure Aligned (stack : TwinStack) : Prop where
  holds : List.Forall₂ Symbol.Holds stack.symbols stack.values
  fallbacks : stack.fallbacks = []

/-! ## What a reduction makes of aligned stacks -/

/-- What each reduction makes of its entries, with these symbols and values below them. -/
inductive Replaces (symbols : List Symbol) (values : List Value) :
    Reduction → TwinStack → TwinStack → Prop where
  | unwrap (shape : Shape) (closing opening : String) (inner : Check) :
      Replaces symbols values .unwrap
        ⟨.closeParen :: .operand shape :: .openParen :: symbols,
          .text closing :: .check inner :: .text opening :: values, []⟩
        ⟨.operand .atom :: symbols, .check inner :: values, []⟩
  | negate (inner : Check) (spelling : String) :
      Replaces symbols values .negate
        ⟨.operand .atom :: .keyword .not :: symbols,
          .check inner :: .text spelling :: values, []⟩
        ⟨.operand .atom :: symbols, .check (.not inner) :: values, []⟩
  | makeAnd (last first : Check) (spelling : String) :
      Replaces symbols values .makeAnd
        ⟨.operand .atom :: .keyword .and :: .operand .atom :: symbols,
          .check last :: .text spelling :: .check first :: values, []⟩
        ⟨.operand .conjunction :: symbols, .check (.and [first, last]) :: values, []⟩
  | extendAnd (last : Check) (branches : List Check) (several : 2 ≤ branches.length)
      (spelling : String) :
      Replaces symbols values .extendAnd
        ⟨.operand .atom :: .keyword .and :: .operand .conjunction :: symbols,
          .check last :: .text spelling :: .check (.and branches) :: values, []⟩
        ⟨.operand .conjunction :: symbols, .check (.and (branches ++ [last])) :: values, []⟩
  | mixOrAnd (last branch : Check) (front : List Check) (several : 2 ≤ (front ++ [branch]).length)
      (spelling : String) :
      Replaces symbols values .mixOrAnd
        ⟨.operand .atom :: .keyword .and :: .operand .disjunction :: symbols,
          .check last :: .text spelling :: .check (.or (front ++ [branch])) :: values, []⟩
        ⟨.operand .disjunction :: symbols,
          .check (.or (front ++ [branch.andWith last])) :: values, []⟩
  | makeOr (shape : Shape) (other : shape ≠ .disjunction) (last first : Check)
      (spelling : String) :
      Replaces symbols values .makeOr
        ⟨.operand .atom :: .keyword .or :: .operand shape :: symbols,
          .check last :: .text spelling :: .check first :: values, []⟩
        ⟨.operand .disjunction :: symbols, .check (.or [first, last]) :: values, []⟩
  | extendOr (last : Check) (branches : List Check) (several : 2 ≤ branches.length)
      (spelling : String) :
      Replaces symbols values .extendOr
        ⟨.operand .atom :: .keyword .or :: .operand .disjunction :: symbols,
          .check last :: .text spelling :: .check (.or branches) :: values, []⟩
        ⟨.operand .disjunction :: symbols, .check (.or (branches ++ [last])) :: values, []⟩

theorem bindLast_or (front : List Check) (branch last : Check) :
    bindLast (.or (front ++ [branch])) last = (.or (front ++ [branch.andWith last]), []) := by
  simp only [bindLast, alternatives, List.getLast?_concat, List.dropLast_concat]

/-- Two operands with an operator between them have a check, a text and a check beside them. -/
theorem exists_operands {last first : Shape} {operator : Keyword} {symbols : List Symbol}
    {values : List Value}
    (holds : List.Forall₂ Symbol.Holds
      (.operand last :: .keyword operator :: .operand first :: symbols) values) :
    ∃ right spelling left below,
      values = .check right :: .text spelling :: .check left :: below ∧
        Symbol.Holds (.operand first) (.check left) ∧ List.Forall₂ Symbol.Holds symbols below := by
  obtain _ | ⟨last, _ | ⟨operator, _ | ⟨first, below⟩⟩⟩ := holds
  obtain ⟨right, rfl⟩ := last.exists_check
  obtain ⟨spelling, rfl⟩ := operator.exists_text nofun
  obtain ⟨left, rfl⟩ := first.exists_check
  exact ⟨right, spelling, left, _, rfl, first, below⟩

/-- On aligned stacks a reduction finds the values that it expects. -/
theorem Aligned.exists_replaces {stack : TwinStack} {reduction : Reduction}
    (aligned : stack.Aligned) (next : stack.next? = some reduction) :
    ∃ symbols values, List.Forall₂ Symbol.Holds symbols values ∧
      Replaces symbols values reduction stack (stack.apply reduction) := by
  obtain ⟨top, beside, fallbacks⟩ := stack
  obtain ⟨holds, none⟩ := aligned
  dsimp only at holds none
  subst none
  cases next?_eq_some_iff.mp next with
  | unwrap shape symbols =>
      obtain _ | ⟨closing, _ | ⟨operand, _ | ⟨opening, below⟩⟩⟩ := holds
      obtain ⟨_, rfl⟩ := closing.exists_text nofun
      obtain ⟨inner, rfl⟩ := operand.exists_check
      obtain ⟨_, rfl⟩ := opening.exists_text nofun
      exact ⟨symbols, _, below, .unwrap ..⟩
  | negate symbols =>
      obtain _ | ⟨operand, _ | ⟨operator, below⟩⟩ := holds
      obtain ⟨inner, rfl⟩ := operand.exists_check
      obtain ⟨spelling, rfl⟩ := operator.exists_text nofun
      exact ⟨symbols, _, below, .negate ..⟩
  | makeAnd symbols =>
      obtain ⟨last, spelling, first, values, rfl, -, below⟩ := exists_operands holds
      exact ⟨symbols, values, below, .makeAnd ..⟩
  | extendAnd symbols =>
      obtain ⟨last, spelling, first, values, rfl, front, below⟩ := exists_operands holds
      cases front with
      | conjunction several => exact ⟨symbols, values, below, .extendAnd last _ several spelling⟩
  | mixOrAnd symbols =>
      obtain ⟨last, spelling, first, values, rfl, front, below⟩ := exists_operands holds
      cases front with
      | @disjunction branches several =>
          -- A disjunction has a last alternative, so the check is bound to that.
          obtain rfl | ⟨front, branch, rfl⟩ := List.eq_nil_or_concat' branches
          · contradiction
          · simp only [apply, join, popCheck, discard, List.tail_cons, bindLast_or]
            exact ⟨symbols, values, below, .mixOrAnd last branch front several spelling⟩
  | makeOr shape other symbols =>
      obtain ⟨last, spelling, first, values, rfl, -, below⟩ := exists_operands holds
      exact ⟨symbols, values, below, .makeOr shape other last first spelling⟩
  | extendOr symbols =>
      obtain ⟨last, spelling, first, values, rfl, front, below⟩ := exists_operands holds
      cases front with
      | disjunction several => exact ⟨symbols, values, below, .extendOr last _ several spelling⟩

/-! ## The stacks stay aligned -/

theorem Aligned.enter {stack : TwinStack} (aligned : stack.Aligned) (token : Token) :
    (stack.enter token).Aligned where
  holds := .cons (Symbol.holds_ofToken token) aligned.holds
  fallbacks := aligned.fallbacks

theorem Aligned.apply {stack : TwinStack} {reduction : Reduction} (aligned : stack.Aligned)
    (next : stack.next? = some reduction) : (stack.apply reduction).Aligned := by
  obtain ⟨symbols, values, below, replaces⟩ := aligned.exists_replaces next
  generalize stack.apply reduction = reduced at replaces ⊢
  have longer {branches : List Check} (several : 2 ≤ branches.length) (last : Check) :
      2 ≤ (branches ++ [last]).length := by
    rw [List.length_append]
    exact Nat.le_add_right_of_le several
  -- Every case is the operand that the reduction leaves, on the entries below.
  cases replaces with
  | unwrap => exact ⟨.cons (.atom _) below, rfl⟩
  | negate => exact ⟨.cons (.atom _) below, rfl⟩
  | makeAnd => exact ⟨.cons (.conjunction (Nat.le_refl 2)) below, rfl⟩
  | extendAnd last branches several => exact ⟨.cons (.conjunction (longer several last)) below, rfl⟩
  | mixOrAnd last branch front several =>
      rw [List.length_append] at several
      exact ⟨.cons (.disjunction (by rwa [List.length_append])) below, rfl⟩
  | makeOr => exact ⟨.cons (.disjunction (Nat.le_refl 2)) below, rfl⟩
  | extendOr last branches several => exact ⟨.cons (.disjunction (longer several last)) below, rfl⟩

theorem Reaches.aligned {read : List Token} {applied : List Reduction} {stack : TwinStack}
    (reached : Reaches read applied stack) : stack.Aligned := by
  induction reached with
  | start => exact ⟨.nil, rfl⟩
  | enter token _ _ ih => exact ih.enter token
  | apply _ next ih => exact ih.apply next

/-- An operand that is the only entry is what the stacks are finished with. -/
theorem Aligned.exists_finish {stack : TwinStack} (aligned : stack.Aligned) {shape : Shape}
    (single : stack.symbols = [.operand shape]) : ∃ check, stack.finish = some check := by
  obtain ⟨symbols, values, fallbacks⟩ := stack
  obtain ⟨holds, -⟩ := aligned
  dsimp only at holds single
  subst single
  obtain _ | ⟨operand, _⟩ := holds
  obtain ⟨check, rfl⟩ := operand.exists_check
  exact ⟨check, rfl⟩

/-! ## Where no reduction applies -/

theorem not_applies {stack : TwinStack} (done : stack.next? = none) (reduction : Reduction) :
    ¬ reduction.Applies stack.symbols := by
  intro applies
  have next := next?_eq_some_iff.mpr applies
  rw [done] at next
  contradiction

theorem exists_applies_and (shape : Shape) (below : List Symbol) :
    ∃ reduction : Reduction,
      reduction.Applies (.operand .atom :: .keyword .and :: .operand shape :: below) := by
  cases shape with
  | atom => exact ⟨.makeAnd, .makeAnd below⟩
  | conjunction => exact ⟨.extendAnd, .extendAnd below⟩
  | disjunction => exact ⟨.mixOrAnd, .mixOrAnd below⟩

theorem exists_applies_or (shape : Shape) (below : List Symbol) :
    ∃ reduction : Reduction,
      reduction.Applies (.operand .atom :: .keyword .or :: .operand shape :: below) := by
  cases shape with
  | disjunction => exact ⟨.extendOr, .extendOr below⟩
  | _ => exact ⟨.makeOr, .makeOr _ (by decide) below⟩

theorem not_negated {stack : TwinStack} (done : stack.next? = none)
    (below : ¬ [.operand .atom, .keyword .not] <:+: stack.symbols.tail) :
    ¬ [.operand .atom, .keyword .not] <:+: stack.symbols := by
  intro negated
  cases same : stack.symbols with
  | nil =>
      rw [same, List.infix_nil] at negated
      contradiction
  | cons top rest =>
      rw [same, List.infix_cons_iff] at negated
      rw [same, List.tail_cons] at below
      obtain ⟨under, here⟩ := negated.resolve_right below
      exact not_applies done .negate (same.trans here.symm ▸ .negate under)

/-- A negation with its operand stands nowhere but at the top, where it is replaced. -/
theorem Reaches.not_negated_tail {read : List Token} {applied : List Reduction}
    {stack : TwinStack} (reached : Reaches read applied stack) :
    ¬ [.operand .atom, .keyword .not] <:+: stack.symbols.tail := by
  induction reached with
  | start => exact fun negated => List.cons_ne_nil _ _ (List.infix_nil.mp negated)
  | enter _ _ done ih => exact not_negated done ih
  | @apply read applied stack reduction _ next ih =>
      have several : 1 ≤ reduction.width := Nat.le_of_lt reduction.two_le_width
      rw [symbols_apply, List.tail_cons]
      intro negated
      apply ih
      rw [← List.drop_one]
      exact negated.trans (List.drop_suffix_drop_left _ several).isInfix

theorem not_joined {stack : TwinStack} (done : stack.next? = none) {operator : Keyword}
    (joins : operator = .and ∨ operator = .or) (shape : Shape) :
    ¬ [.operand .atom, .keyword operator, .operand shape] <+: stack.symbols := by
  rintro ⟨below, same⟩
  obtain ⟨reduction, applies⟩ : ∃ reduction : Reduction, reduction.Applies stack.symbols := by
    rw [← same]
    obtain rfl | rfl := joins
    · exact exists_applies_and shape below
    · exact exists_applies_or shape below
  exact not_applies done reduction applies

/-! ## The entries that the stacks stand for -/

/-- The symbols and the values of the entries of a stack. -/
inductive Represents : Stack → List Symbol → List Value → Prop where
  | nil : Represents [] [] []
  | openParen {stack : Stack} {symbols : List Symbol} {values : List Value} :
      Represents stack symbols values →
      Represents (.pending .openParen :: stack) (.openParen :: symbols) (.text "(" :: values)
  | closeParen {stack : Stack} {symbols : List Symbol} {values : List Value} :
      Represents stack symbols values →
      Represents (.pending .closeParen :: stack) (.closeParen :: symbols) (.text ")" :: values)
  | keyword {stack : Stack} {symbols : List Symbol} {values : List Value} (operator : Keyword)
      (spelling : String) :
      Represents stack symbols values →
      Represents (.pending (.keyword operator spelling) :: stack)
        (.keyword operator :: symbols) (.text spelling :: values)
  | quoted {stack : Stack} {symbols : List Symbol} {values : List Value} (inner : String) :
      Represents stack symbols values →
      Represents (.pending (.quoted inner) :: stack) (.quoted :: symbols) (.text inner :: values)
  | operand {stack : Stack} {symbols : List Symbol} {values : List Value} (shape : Shape)
      (check : Check) :
      Represents stack symbols values →
      Represents (.operand shape check :: stack) (.operand shape :: symbols)
        (.check check :: values)

namespace Represents

theorem enter {stack : Stack} {twin : TwinStack}
    (represents : Represents stack twin.symbols twin.values) (token : Token) :
    Represents (.ofToken token :: stack) (twin.enter token).symbols (twin.enter token).values := by
  cases token with
  | openParen => exact represents.openParen
  | closeParen => exact represents.closeParen
  | keyword operator spelling => exact represents.keyword operator spelling
  | quoted inner => exact represents.quoted inner
  | leaf word => exact represents.operand .atom (Check.ofWord word)

section Operands

variable {stack : Stack} {last first : Shape} {operator : Keyword} {symbols : List Symbol}
  {right left : Check} {spelling : String} {values : List Value}

theorem exists_stack
    (represents : Represents stack
      (.operand last :: .keyword operator :: .operand first :: symbols)
      (.check right :: .text spelling :: .check left :: values)) :
    ∃ below : Stack,
      stack = .operand last right :: .pending (.keyword operator spelling) ::
        .operand first left :: below ∧ Represents below symbols values := by
  cases represents with
  | operand _ _ joined =>
      cases joined with
      | keyword _ _ front =>
          cases front with
          | operand _ _ rest => exact ⟨_, rfl, rest⟩

theorem exists_symbols
    (represents : Represents (.operand last right :: .pending (.keyword operator spelling) ::
      .operand first left :: stack) symbols values) :
    ∃ below, symbols = .operand last :: .keyword operator :: .operand first :: below := by
  cases represents with
  | operand _ _ joined =>
      cases joined with
      | keyword _ _ front =>
          cases front with
          | operand => exact ⟨_, rfl⟩

end Operands

/-- A reduction replaces the complete expression at the top. -/
theorem apply {stack : Stack} {twin : TwinStack} {reduction : Reduction}
    (represents : Represents stack twin.symbols twin.values) (aligned : twin.Aligned)
    (next : twin.next? = some reduction) :
    ∃ reduced, stack.reduce? = some reduced ∧
      Represents reduced (twin.apply reduction).symbols (twin.apply reduction).values := by
  obtain ⟨symbols, values, -, replaces⟩ := aligned.exists_replaces next
  generalize twin.apply reduction = reduced at replaces ⊢
  cases replaces with
  | unwrap shape closing opening inner =>
      cases represents with
      | closeParen opened =>
          cases opened with
          | operand _ _ inside =>
              cases inside with
              | openParen rest => exact ⟨_, rfl, rest.operand .atom inner⟩
  | negate inner spelling =>
      cases represents with
      | operand _ _ negated =>
          cases negated with
          | keyword _ _ rest => exact ⟨_, rfl, rest.operand .atom (.not inner)⟩
  | makeAnd last first spelling =>
      obtain ⟨below, rfl, rest⟩ := represents.exists_stack
      exact ⟨_, rfl, rest.operand .conjunction (.and [first, last])⟩
  | extendAnd last branches several spelling =>
      obtain ⟨below, rfl, rest⟩ := represents.exists_stack
      exact ⟨_, rfl, rest.operand .conjunction (.and (branches ++ [last]))⟩
  | mixOrAnd last branch front several spelling =>
      obtain ⟨below, rfl, rest⟩ := represents.exists_stack
      refine ⟨_, rfl, ?_⟩
      rw [Check.alternatives, bindLast_append]
      exact rest.operand .disjunction (.or (front ++ [branch.andWith last]))
  | makeOr shape other last first spelling =>
      obtain ⟨below, rfl, rest⟩ := represents.exists_stack
      refine ⟨_, ?_, rest.operand .disjunction (.or [first, last])⟩
      cases shape with
      | disjunction => exact absurd rfl other
      | _ => rfl
  | extendOr last branches several spelling =>
      obtain ⟨below, rfl, rest⟩ := represents.exists_stack
      exact ⟨_, rfl, rest.operand .disjunction (.or (branches ++ [last]))⟩

/-- A complete expression at the top has the symbols that some reduction replaces. -/
theorem exists_applies {stack : Stack} {symbols : List Symbol} {values : List Value}
    (represents : Represents stack symbols values) (complete : stack.Complete) :
    ∃ reduction : Reduction, reduction.Applies symbols := by
  cases complete with
  | parens shape inner below =>
      cases represents with
      | closeParen opened =>
          cases opened with
          | operand _ _ inside =>
              cases inside with
              | openParen rest => exact ⟨.unwrap, .unwrap ..⟩
  | not inner spelling below =>
      cases represents with
      | operand _ _ negated =>
          cases negated with
          | keyword _ _ rest => exact ⟨.negate, .negate _⟩
  | and last spelling shape first below =>
      obtain ⟨below, rfl⟩ := represents.exists_symbols
      exact exists_applies_and shape below
  | or last spelling shape first below =>
      obtain ⟨below, rfl⟩ := represents.exists_symbols
      exact exists_applies_or shape below

theorem reduce?_eq_none {stack : Stack} {twin : TwinStack}
    (represents : Represents stack twin.symbols twin.values) (done : twin.next? = none) :
    stack.reduce? = none := by
  rw [Option.eq_none_iff_forall_ne_some]
  intro reduced step
  obtain ⟨reduction, applies⟩ := represents.exists_applies (Stack.complete_of_reduce? step)
  exact not_applies done reduction applies

theorem settle {stack : Stack} {twin : TwinStack}
    (represents : Represents stack twin.symbols twin.values) (aligned : twin.Aligned) :
    Represents stack.settle twin.settle.symbols twin.settle.values := by
  induction twin using TwinStack.settle.induct generalizing stack with
  | case1 twin reduction next ih =>
      obtain ⟨reduced, step, represents⟩ := represents.apply aligned next
      rw [settle_of_next? next, Stack.settle_of_reduce? step]
      exact ih represents (aligned.apply next)
  | case2 twin done =>
      rw [settle_of_next?_eq_none done,
        Stack.settle_of_reduce?_eq_none (represents.reduce?_eq_none done)]
      exact represents

theorem finish_eq {stack : Stack} {twin : TwinStack}
    (represents : Represents stack twin.symbols twin.values) : twin.finish = stack.check? := by
  obtain ⟨symbols, values, fallbacks⟩ := twin
  cases represents with
  | nil => rfl
  | openParen rest => cases rest <;> rfl
  | closeParen rest => cases rest <;> rfl
  | keyword operator spelling rest => cases rest <;> rfl
  | quoted inner rest => cases rest <;> rfl
  | operand shape check rest => cases rest <;> rfl

end Represents

/-- Both ways of reading come to stacks with the same entries. -/
theorem represents_ofTokens (tokens : List Token) :
    Represents (Stack.ofTokens tokens) (ofTokens tokens).symbols (ofTokens tokens).values := by
  induction tokens using List.reverseRecOn with
  | nil => exact .nil
  | append_singleton front token ih =>
      obtain ⟨applied, reached⟩ := reaches_ofTokens front
      have shifted : Stack.ofTokens (front ++ [token]) = (Stack.ofTokens front).shift token :=
        List.foldl_append
      rw [shifted, ofTokens_append]
      exact (ih.enter token).settle (reached.aligned.enter token)

/-! ## Reading a text -/

/-- What holds of the stacks at every point of reading. The latest entry is the first one,
so what was read before an entry stands after it. -/
structure Sound (stack : TwinStack) : Prop extends Aligned stack where
  lengths : stack.symbols.length = stack.values.length
  /-- A single operand is never refused for its value. -/
  finishes : ∀ shape, stack.symbols = [.operand shape] → ∃ check, stack.finish = some check
  shortens : ∀ reduction, stack.next? = some reduction →
    (stack.apply reduction).symbols.length < stack.symbols.length ∧
      (stack.apply reduction).values.length < stack.values.length
  /-- Where no reduction applies, no negation is followed by its operand. -/
  negations : stack.next? = none → ¬ [.operand .atom, .keyword .not] <:+: stack.symbols
  /-- Where no reduction applies, the stack does not end in two operands and what joins
  them. -/
  junctions : stack.next? = none → ∀ operator, operator = .and ∨ operator = .or → ∀ shape,
    ¬ [.operand .atom, .keyword operator, .operand shape] <+: stack.symbols

theorem Reaches.sound {read : List Token} {applied : List Reduction} {stack : TwinStack}
    (reached : Reaches read applied stack) : stack.Sound where
  toAligned := reached.aligned
  lengths := reached.aligned.holds.length_eq
  finishes _ single := reached.aligned.exists_finish single
  shortens reduction next := by
    have shorter := length_apply_lt next
    have before := reached.aligned.holds.length_eq
    have after := (reached.aligned.apply next).holds.length_eq
    refine ⟨shorter, ?_⟩
    rw [← before, ← after]
    exact shorter
  negations done := not_negated done reached.not_negated_tail
  junctions done _ joins shape := not_joined done joins shape

/-- Each reduction takes a symbol away, and the last of them leaves one. -/
theorem Reaches.length_lt {read : List Token} {applied : List Reduction} {stack : TwinStack}
    (reached : Reaches read applied stack) (present : read ≠ []) :
    applied.length < read.length := by
  have bound := reached.length_le
  have left := List.length_pos_iff.mpr (reached.symbols_ne_nil present)
  omega

end TwinStack

theorem Token.ofText_ne_nil {text : List Char} (present : Text.isBlankText text = false) :
    Token.ofText text ≠ [] := by
  obtain ⟨writing, rfl⟩ := Writing.exists_text_eq text
  rw [writing.ofText_text]
  intro none
  obtain ⟨pieces, ending, separated, blank⟩ := writing
  rw [List.map_eq_nil_iff, Writing.lexemes, List.map_eq_nil_iff] at none
  dsimp only at none
  subst none
  rw [Writing.text, List.flatMap_nil, List.nil_append, blank] at present
  contradiction

open TwinStack

/-- **Two stacks in step.** While a text is read on two stacks, the stacks are those of its
entries after every token, and at every point between, after each single reduction too,
they are aligned and no fallback was taken. There are fewer reductions than tokens, and
the stacks are finished with what the text is read as. -/
theorem stacks_in_step {text : String} (present : Text.isBlankText text.toList = false) :
    (∀ read, read <+: Token.ofText text.toList →
      (∃ applied, Reaches read applied (ofTokens read)) ∧
        (ofTokens read).next? = none ∧
        Represents (Stack.ofTokens read) (ofTokens read).symbols (ofTokens read).values ∧
        ∀ applied stack, Reaches read applied stack →
          stack.settle = ofTokens read ∧ stack.Sound) ∧
    (∀ applied stack, Reaches (Token.ofText text.toList) applied stack →
      applied.length < (Token.ofText text.toList).length) ∧
    (ofTokens (Token.ofText text.toList)).finish = parse? text := by
  refine ⟨fun read _ => ?_, fun applied stack reached => ?_, ?_⟩
  · exact ⟨reaches_ofTokens read, next?_ofTokens read, represents_ofTokens read,
      fun applied stack reached => ⟨reached.settle_eq, reached.sound⟩⟩
  · exact reached.length_lt (Token.ofText_ne_nil present)
  · exact (represents_ofTokens _).finish_eq

/-- A negated operand after an `or` and an `and`, which takes three reductions. -/
theorem stacks_in_step_mixedOperators :
    Text.isBlankText "a:b or c:d and not e:f".toList = false ∧
      [Reduction.makeOr, .negate, .mixOrAnd].length <
        (Token.ofText "a:b or c:d and not e:f".toList).length ∧
      ∃ stack,
        Reaches (Token.ofText "a:b or c:d and not e:f".toList) [.makeOr, .negate, .mixOrAnd] stack ∧
          stack.Sound ∧
          stack.finish =
            some (.or [.compare "a" "b", .and [.compare "c" "d", .not (.compare "e" "f")]]) := by
  have present : Text.isBlankText "a:b or c:d and not e:f".toList = false := by decide
  have tokens : Token.ofText "a:b or c:d and not e:f".toList =
      [.leaf "a:b", .keyword .or "or", .leaf "c:d", .keyword .and "and", .keyword .not "not",
        .leaf "e:f"] := by
    decide +kernel
  obtain ⟨points, fewer, -⟩ := stacks_in_step present
  rw [tokens] at points fewer ⊢
  have disjunction := ((Reaches.start.enter (.leaf "a:b") rfl).enter (.keyword .or "or") rfl).enter
    (.leaf "c:d") rfl |>.apply rfl
  have operators := (disjunction.enter (.keyword .and "and") rfl).enter (.keyword .not "not") rfl
  have whole := operators.enter (.leaf "e:f") rfl |>.apply rfl |>.apply rfl
  have sound := ((points _ (List.prefix_refl _)).2.2.2 _ _ whole).2
  exact ⟨present, fewer _ _ whole, _, whole, sound, rfl⟩

end AccessPolicy.Rule

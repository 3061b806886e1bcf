import AccessPolicy.Proofs.Rule.Grammar

/-! # Parsing and the grammar

The stack of a rule in progress is a sequence of pending tokens and of expressions
that are complete so far, and what it covers are the tokens read so far. Replacing
the top of the stack keeps this, so a stack with a single operand holds the check of
a derivation of the whole rule. Conversely, reading the tokens of a derivation where
an expression may begin leaves exactly one more operand. Both together say that a
rule is accepted exactly when the grammar derives it, and with which check.
-/

namespace AccessPolicy.Rule

namespace Expression

/-- How the check of an expression stands on the stack. -/
def shape : Expression → Shape
  | .one (.one _) => .atom
  | .one (.snoc _ _ _) => .conjunction
  | .snoc _ _ _ => .disjunction

def item (expression : Expression) : Item :=
  .operand expression.shape expression.tree

def ofFactor (factor : Factor) : Expression :=
  .one (.one factor)

/-- An `and` extends the last term. -/
def andFactor : Expression → String → Factor → Expression
  | .one term, spelling, factor => .one (.snoc term spelling factor)
  | .snoc front spelled last, spelling, factor =>
    .snoc front spelled (.snoc last spelling factor)

@[simp] theorem tokens_ofFactor (factor : Factor) :
    (ofFactor factor).tokens = factor.tokens := by
  simp only [ofFactor, tokens, Term.tokens]

@[simp] theorem tokens_andFactor (expression : Expression) (spelling : String)
    (factor : Factor) :
    (expression.andFactor spelling factor).tokens =
      expression.tokens ++ .keyword .and spelling :: factor.tokens := by
  cases expression <;> simp [andFactor, tokens, Term.tokens]

/-- An operand that is no chain of operators is a factor. -/
theorem eq_ofFactor {expression : Expression} (atom : expression.shape = .atom) :
    ∃ factor : Factor, expression = ofFactor factor := by
  cases expression with
  | one term =>
      cases term with
      | one factor => exact ⟨factor, rfl⟩
      | snoc => contradiction
  | snoc => contradiction

end Expression

/-! ## The checks that the stack builds -/

theorem Term.treesWith_ne_nil (later : List Check → Check) (term : Term) :
    term.treesWith later ≠ [] := by
  cases term <;> simp [Term.treesWith]

theorem Expression.treesWith_ne_nil (later : List Check → Check) (expression : Expression) :
    expression.treesWith later ≠ [] := by
  cases expression <;> simp [Expression.treesWith]

theorem conjunction_append {requirements : List Check} (present : requirements ≠ [])
    (last : Check) : conjunction (requirements ++ [last]) = .and (requirements ++ [last]) := by
  cases requirements with
  | nil => exact absurd rfl present
  | cons first rest => cases rest <;> rfl

theorem disjunction_append {alternatives : List Check} (present : alternatives ≠ [])
    (last : Check) : disjunction (alternatives ++ [last]) = .or (alternatives ++ [last]) := by
  cases alternatives with
  | nil => exact absurd rfl present
  | cons first rest => cases rest <;> rfl

/-- One more factor of a later term is bound by `and` to what there is already. -/
theorem splicedConjunction_append {requirements : List Check} (present : requirements ≠ [])
    (last : Check) :
    splicedConjunction (requirements ++ [last]) =
      (splicedConjunction requirements).andWith last := by
  cases requirements with
  | nil => exact absurd rfl present
  | cons first rest =>
      cases rest <;> cases first <;> simp [splicedConjunction, conjunction, Check.andWith]

@[simp] theorem splicedConjunction_singleton (requirement : Check) :
    splicedConjunction [requirement] = requirement := by
  cases requirement <;> simp [splicedConjunction, conjunction]

theorem bindLast_append (alternatives : List Check) (branch last : Check) :
    Check.bindLast (alternatives ++ [branch]) last = alternatives ++ [branch.andWith last] := by
  simp [Check.bindLast]

namespace Expression

theorem tree_snoc (front : Expression) (spelling : String) (last : Term) :
    (snoc front spelling last).tree =
      .or (front.treesWith splicedConjunction ++
        [splicedConjunction (last.treesWith splicedConjunction)]) := by
  simp only [tree, treesWith]
  exact disjunction_append (front.treesWith_ne_nil _) _

theorem tree_one (term : Term) :
    (one term).tree = conjunction (term.treesWith splicedConjunction) := rfl

theorem tree_ofFactor (factor : Factor) :
    (ofFactor factor).tree = factor.treeWith splicedConjunction := by
  simp only [ofFactor, tree_one, Term.treesWith, conjunction]

theorem tree_andFactor_ofFactor (first : Factor) (spelling : String) (factor : Factor) :
    ((ofFactor first).andFactor spelling factor).tree =
      .and [(ofFactor first).tree, (ofFactor factor).tree] := by
  simp only [ofFactor, andFactor, tree_one, Term.treesWith]
  rfl

theorem tree_andFactor_one (front : Term) (spelled : String) (last : Factor)
    (spelling : String) (factor : Factor) :
    ((one (.snoc front spelled last)).andFactor spelling factor).tree =
      (one (.snoc front spelled last)).tree.andWith (ofFactor factor).tree := by
  simp only [tree_ofFactor, andFactor, tree_one, Term.treesWith]
  rw [conjunction_append (by simp), conjunction_append (front.treesWith_ne_nil _)]
  rfl

theorem tree_andFactor_snoc (front : Expression) (spelled : String) (last : Term)
    (spelling : String) (factor : Factor) :
    ((snoc front spelled last).andFactor spelling factor).tree =
      .or (Check.bindLast (snoc front spelled last).tree.alternatives (ofFactor factor).tree) := by
  simp only [tree_ofFactor, andFactor, tree_snoc, Check.alternatives, Term.treesWith,
    bindLast_append]
  rw [splicedConjunction_append (last.treesWith_ne_nil _)]

theorem tree_snoc_one (term : Term) (spelling : String) (factor : Factor) :
    (snoc (one term) spelling (.one factor)).tree =
      .or [(one term).tree, (ofFactor factor).tree] := by
  simp only [tree_snoc, tree_ofFactor, treesWith, Term.treesWith, splicedConjunction_singleton]
  rfl

theorem tree_snoc_snoc (front : Expression) (spelled : String) (last : Term)
    (spelling : String) (factor : Factor) :
    (snoc (snoc front spelled last) spelling (.one factor)).tree =
      .or ((snoc front spelled last).tree.alternatives ++ [(ofFactor factor).tree]) := by
  simp only [tree_snoc, tree_ofFactor, treesWith, Term.treesWith, splicedConjunction_singleton,
    Check.alternatives]

end Expression

/-! ## What a replacement makes of complete expressions -/

namespace Stack

theorem reduce?_parens (expression : Expression) (below : Stack) :
    reduce? (.pending .closeParen :: expression.item :: .pending .openParen :: below) =
      some ((Expression.ofFactor (.parens expression)).item :: below) := by
  simp only [Expression.item, reduce?, Expression.tree_ofFactor, Factor.treeWith]
  rfl

theorem reduce?_not (factor : Factor) (spelling : String) (below : Stack) :
    reduce? ((Expression.ofFactor factor).item :: .pending (.keyword .not spelling) :: below) =
      some ((Expression.ofFactor (.not spelling factor)).item :: below) := by
  simp only [Expression.item, Expression.tree_ofFactor, Factor.treeWith]
  rfl

/-- A factor after `and` extends the last term of the expression before it. -/
theorem reduce?_and (expression : Expression) (factor : Factor) (spelling : String)
    (below : Stack) :
    reduce? ((Expression.ofFactor factor).item :: .pending (.keyword .and spelling) ::
        expression.item :: below) =
      some ((expression.andFactor spelling factor).item :: below) := by
  cases expression with
  | one term =>
      cases term with
      | one first =>
          exact congrArg (fun check => some (Item.operand .conjunction check :: below))
            (Expression.tree_andFactor_ofFactor first spelling factor).symm
      | snoc front spelled last =>
          exact congrArg (fun check => some (Item.operand .conjunction check :: below))
            (Expression.tree_andFactor_one front spelled last spelling factor).symm
  | snoc front spelled last =>
      exact congrArg (fun check => some (Item.operand .disjunction check :: below))
        (Expression.tree_andFactor_snoc front spelled last spelling factor).symm

/-- A factor after `or` is a further term of the expression before it. -/
theorem reduce?_or (expression : Expression) (factor : Factor) (spelling : String)
    (below : Stack) :
    reduce? ((Expression.ofFactor factor).item :: .pending (.keyword .or spelling) ::
        expression.item :: below) =
      some ((Expression.snoc expression spelling (.one factor)).item :: below) := by
  cases expression with
  | one term =>
      have tree := Expression.tree_snoc_one term spelling factor
      cases term <;>
        exact congrArg (fun check => some (Item.operand .disjunction check :: below)) tree.symm
  | snoc front spelled last =>
      exact congrArg (fun check => some (Item.operand .disjunction check :: below))
        (Expression.tree_snoc_snoc front spelled last spelling factor).symm

/-! ## Reading the tokens of a derivation -/

/-- The stack after some more tokens have been read. -/
def after (stack : Stack) (tokens : List Token) : Stack :=
  tokens.foldl shift stack

@[simp] theorem after_nil (stack : Stack) : stack.after [] = stack := rfl

@[simp] theorem after_cons (stack : Stack) (token : Token) (tokens : List Token) :
    stack.after (token :: tokens) = (stack.shift token).after tokens := rfl

@[simp] theorem after_append (stack : Stack) (first second : List Token) :
    stack.after (first ++ second) = (stack.after first).after second :=
  List.foldl_append

/-- A stack at whose top an expression may begin: the empty one, or one that ends with
an opening parenthesis. -/
inductive AtStart : Stack → Prop where
  | bottom : AtStart []
  | openParen (below : Stack) : AtStart (.pending .openParen :: below)

theorem settle_of_reduce? {stack reduced : Stack} (step : stack.reduce? = some reduced) :
    stack.settle = reduced.settle := by
  rw [settle]
  split
  · rename_i other found
    rw [step] at found
    exact congrArg settle (Option.some.inj found).symm
  · rename_i none
    rw [step] at none
    contradiction

theorem settle_of_reduce?_eq_none {stack : Stack} (done : stack.reduce? = none) :
    stack.settle = stack := by
  rw [settle]
  split
  · rename_i other found
    rw [done] at found
    contradiction
  · rfl

/-- An expression stays complete where it began. -/
theorem settle_item {stack : Stack} (start : stack.AtStart) (expression : Expression) :
    settle (expression.item :: stack) = expression.item :: stack := by
  apply settle_of_reduce?_eq_none
  cases start with
  | bottom => cases h : expression.shape <;> simp [Expression.item, h, reduce?]
  | openParen below => cases h : expression.shape <;> simp [Expression.item, h, reduce?]

theorem shift_keyword (stack : Stack) (operator : Keyword) (spelling : String) :
    stack.shift (.keyword operator spelling) = .pending (.keyword operator spelling) :: stack :=
  settle_of_reduce?_eq_none rfl

theorem shift_openParen (stack : Stack) :
    stack.shift .openParen = .pending .openParen :: stack :=
  settle_of_reduce?_eq_none rfl

mutual

/-- Reading the tokens of a factor settles the stack with the factor on top. -/
theorem after_factor_tokens (stack : Stack) :
    ∀ factor : Factor, stack.after factor.tokens =
      settle ((Expression.ofFactor factor).item :: stack)
  | .leaf word => by
      simp only [Factor.tokens, after_cons, after_nil, Expression.item, Expression.tree_ofFactor]
      rfl
  | .not spelling inner => by
      simp only [Factor.tokens, after_cons, shift_keyword]
      rw [after_factor_tokens _ inner]
      exact settle_of_reduce? (reduce?_not ..)
  | .parens inner => by
      simp only [Factor.tokens, after_cons, after_append, after_nil, shift_openParen]
      rw [after_expression_tokens (.openParen stack) inner]
      exact settle_of_reduce? (reduce?_parens ..)

theorem after_term_tokens {stack : Stack} (start : stack.AtStart) :
    ∀ term : Term, stack.after term.tokens = (Expression.one term).item :: stack
  | .one factor => by
      rw [Term.tokens, after_factor_tokens]
      exact settle_item start _
  | .snoc front spelling last => by
      simp only [Term.tokens, after_append, after_cons, shift_keyword]
      rw [after_term_tokens start front, after_factor_tokens, settle_of_reduce? (reduce?_and ..)]
      exact settle_item start _

/-- Reading `or` and the tokens of a term after an expression extends it. -/
theorem after_or_term_tokens {stack : Stack} (start : stack.AtStart) (front : Expression)
    (spelling : String) :
    ∀ term : Term, Stack.after (front.item :: stack) (.keyword .or spelling :: term.tokens) =
      (Expression.snoc front spelling term).item :: stack
  | .one factor => by
      rw [Term.tokens, after_cons, shift_keyword, after_factor_tokens,
        settle_of_reduce? (reduce?_or ..)]
      exact settle_item start _
  | .snoc inner spelled last => by
      rw [Term.tokens, ← List.cons_append, after_append,
        after_or_term_tokens start front spelling inner, after_cons, shift_keyword,
        after_factor_tokens, settle_of_reduce? (reduce?_and ..)]
      exact settle_item start _

/-- Reading the tokens of an expression where it may begin leaves the expression. -/
theorem after_expression_tokens {stack : Stack} (start : stack.AtStart) :
    ∀ expression : Expression,
      stack.after expression.tokens = expression.item :: stack
  | .one term => by
      rw [Expression.tokens]
      exact after_term_tokens start term
  | .snoc front spelling last => by
      rw [Expression.tokens, after_append, after_expression_tokens start front]
      exact after_or_term_tokens start front spelling last

end

/-! ## What a stack covers -/

/-- The stack is made of pending tokens and complete expressions that spell these
tokens in order. -/
inductive Covers : Stack → List Token → Prop where
  | empty : Covers [] []
  | pending {below : Stack} {tokens : List Token} (token : Token) :
      Covers below tokens → Covers (.pending token :: below) (tokens ++ [token])
  | operand {below : Stack} {tokens : List Token} (expression : Expression) :
      Covers below tokens → Covers (expression.item :: below) (tokens ++ expression.tokens)

theorem Covers.operand_inv {shape : Shape} {check : Check} {below : Stack} {tokens : List Token}
    (covers : Covers (.operand shape check :: below) tokens) :
    ∃ (expression : Expression) (before : List Token),
      expression.shape = shape ∧ expression.tree = check ∧ Covers below before ∧
        tokens = before ++ expression.tokens := by
  generalize same : Item.operand shape check :: below = stack at covers
  cases covers with
  | empty => contradiction
  | pending => simp at same
  | operand expression covered =>
      simp only [Expression.item, List.cons.injEq, Item.operand.injEq] at same
      obtain ⟨⟨rfl, rfl⟩, rfl⟩ := same
      exact ⟨expression, _, rfl, rfl, covered, rfl⟩

theorem Covers.pending_inv {token : Token} {below : Stack} {tokens : List Token}
    (covers : Covers (.pending token :: below) tokens) :
    ∃ before : List Token, Covers below before ∧ tokens = before ++ [token] := by
  generalize same : Item.pending token :: below = stack at covers
  cases covers with
  | empty => contradiction
  | pending other covered =>
      simp only [List.cons.injEq, Item.pending.injEq] at same
      obtain ⟨rfl, rfl⟩ := same
      exact ⟨_, covered, rfl⟩
  | operand expression => simp [Expression.item] at same

/-- The stacks with a complete expression at the top. -/
inductive Complete : Stack → Prop where
  | parens (shape : Shape) (inner : Check) (below : Stack) :
      Complete (.pending .closeParen :: .operand shape inner :: .pending .openParen :: below)
  | not (inner : Check) (spelling : String) (below : Stack) :
      Complete (.operand .atom inner :: .pending (.keyword .not spelling) :: below)
  | and (last : Check) (spelling : String) (shape : Shape) (first : Check) (below : Stack) :
      Complete (.operand .atom last :: .pending (.keyword .and spelling) ::
        .operand shape first :: below)
  | or (last : Check) (spelling : String) (shape : Shape) (first : Check) (below : Stack) :
      Complete (.operand .atom last :: .pending (.keyword .or spelling) ::
        .operand shape first :: below)

/-- Only complete expressions are replaced. -/
theorem complete_of_reduce? {stack reduced : Stack} (step : stack.reduce? = some reduced) :
    stack.Complete := by
  unfold reduce? at step
  split at step
  · exact .parens ..
  · exact .not ..
  · exact .and ..
  · exact .and ..
  · exact .and ..
  · exact .or ..
  · exact .or ..
  · contradiction

/-- A replacement keeps what the stack covers. -/
theorem Covers.reduce? {stack reduced : Stack} {tokens : List Token}
    (covers : Covers stack tokens) (step : stack.reduce? = some reduced) :
    Covers reduced tokens := by
  cases complete_of_reduce? step with
  | parens shape inner below =>
      obtain ⟨_, opened, rfl⟩ := covers.pending_inv
      obtain ⟨expression, _, rfl, rfl, inside, rfl⟩ := opened.operand_inv
      obtain ⟨before, outside, rfl⟩ := inside.pending_inv
      obtain rfl := Option.some.inj ((reduce?_parens expression below).symm.trans step)
      simpa [Factor.tokens] using Covers.operand (.ofFactor (.parens expression)) outside
  | not inner spelling below =>
      obtain ⟨last, _, atom, rfl, negated, rfl⟩ := covers.operand_inv
      obtain ⟨factor, rfl⟩ := last.eq_ofFactor atom
      obtain ⟨before, outside, rfl⟩ := negated.pending_inv
      obtain rfl := Option.some.inj ((reduce?_not factor spelling below).symm.trans step)
      simpa [Factor.tokens] using Covers.operand (.ofFactor (.not spelling factor)) outside
  | and last spelling shape first below =>
      obtain ⟨last, _, atom, rfl, joined, rfl⟩ := covers.operand_inv
      obtain ⟨factor, rfl⟩ := last.eq_ofFactor atom
      obtain ⟨_, front, rfl⟩ := joined.pending_inv
      obtain ⟨expression, before, rfl, rfl, outside, rfl⟩ := front.operand_inv
      obtain rfl := Option.some.inj
        ((reduce?_and expression factor spelling below).symm.trans step)
      simpa using Covers.operand (expression.andFactor spelling factor) outside
  | or last spelling shape first below =>
      obtain ⟨last, _, atom, rfl, joined, rfl⟩ := covers.operand_inv
      obtain ⟨factor, rfl⟩ := last.eq_ofFactor atom
      obtain ⟨_, front, rfl⟩ := joined.pending_inv
      obtain ⟨expression, before, rfl, rfl, outside, rfl⟩ := front.operand_inv
      obtain rfl := Option.some.inj
        ((reduce?_or expression factor spelling below).symm.trans step)
      simpa [Expression.tokens, Term.tokens] using
        Covers.operand (expression.snoc spelling (.one factor)) outside

theorem Covers.settle {stack : Stack} {tokens : List Token} (covers : Covers stack tokens) :
    Covers stack.settle tokens := by
  induction stack using Stack.settle.induct with
  | case1 stack reduced step ih =>
      rw [settle_of_reduce? step]
      exact ih (covers.reduce? step)
  | case2 stack done =>
      rw [settle_of_reduce?_eq_none done]
      exact covers

theorem Covers.shift {stack : Stack} {tokens : List Token} (covers : Covers stack tokens)
    (token : Token) : Covers (stack.shift token) (tokens ++ [token]) := by
  apply Covers.settle
  cases token with
  | leaf word =>
      have leaf := Covers.operand (.ofFactor (.leaf word)) covers
      rwa [Expression.tokens_ofFactor, Factor.tokens, Expression.item,
        Expression.tree_ofFactor] at leaf
  | _ => exact .pending _ covers

theorem Covers.after {stack : Stack} {covered : List Token} (covers : Covers stack covered)
    (tokens : List Token) : Covers (stack.after tokens) (covered ++ tokens) := by
  induction tokens generalizing stack covered with
  | nil => simpa using covers
  | cons token rest ih => simpa using ih (covers.shift token)

theorem covers_ofTokens (tokens : List Token) : Covers (ofTokens tokens) tokens :=
  Covers.empty.after tokens

/-- A rule is read as a check exactly when it has a derivation with this check. -/
theorem check?_ofTokens_eq_some_iff (tokens : List Token) (check : Check) :
    (ofTokens tokens).check? = some check ↔
      ∃ expression : Expression, expression.tokens = tokens ∧ expression.tree = check := by
  constructor
  · intro accepted
    have covers := covers_ofTokens tokens
    unfold check? at accepted
    split at accepted
    · rename_i shape found same
      obtain rfl := Option.some.inj accepted
      rw [same] at covers
      obtain ⟨expression, before, _, tree, outside, rfl⟩ := covers.operand_inv
      cases outside
      exact ⟨expression, rfl, tree⟩
    · contradiction
  · rintro ⟨expression, rfl, rfl⟩
    have read : ofTokens expression.tokens = [expression.item] :=
      after_expression_tokens .bottom expression
    rw [read]
    rfl

end Stack

end AccessPolicy.Rule

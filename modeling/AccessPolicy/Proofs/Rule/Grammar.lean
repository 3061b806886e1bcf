import AccessPolicy.Rule.Nested
import AccessPolicy.Rule.Reader

/-! # The grammar of rules

An expression is one term or several joined by `or`; a term is one factor or
several joined by `and`; a factor is a leaf, a negated factor, or an expression in
parentheses. No other token derives anything. A derivation is kept with the words
it was written in, so that it determines both the tokens it spells and the check it
stands for.
-/

namespace AccessPolicy.Rule

namespace Token

/-- What the grammar sees of a token. -/
inductive Kind where
  | openParen
  | closeParen
  | keyword (operator : Keyword)
  | quoted
  | leaf
deriving DecidableEq

def kind : Token → Kind
  | .openParen => .openParen
  | .closeParen => .closeParen
  | .keyword operator _ => .keyword operator
  | .quoted _ => .quoted
  | .leaf _ => .leaf

end Token

mutual

/-- A derivation from `factor ::= not factor | ( expression ) | leaf`. -/
inductive Factor where
  | leaf (word : String)
  | not (spelling : String) (inner : Factor)
  | parens (inner : Expression)

/-- A derivation from `term ::= factor (and factor)*`, extended at its end. -/
inductive Term where
  | one (factor : Factor)
  | snoc (front : Term) (spelling : String) (last : Factor)

/-- A derivation from `expression ::= term (or term)*`, extended at its end. -/
inductive Expression where
  | one (term : Term)
  | snoc (front : Expression) (spelling : String) (last : Term)

end

mutual

/-- The tokens that a factor spells. -/
def Factor.tokens : Factor → List Token
  | .leaf word => [.leaf word]
  | .not spelling inner => .keyword .not spelling :: inner.tokens
  | .parens inner => .openParen :: (inner.tokens ++ [.closeParen])

def Term.tokens : Term → List Token
  | .one factor => factor.tokens
  | .snoc front spelling last => front.tokens ++ .keyword .and spelling :: last.tokens

def Expression.tokens : Expression → List Token
  | .one term => term.tokens
  | .snoc front spelling last => front.tokens ++ .keyword .or spelling :: last.tokens

end

/-- The check of several requirements, of which there may be one. -/
def conjunction : List Check → Check
  | [requirement] => requirement
  | requirements => .and requirements

/-- The check of several requirements, where a conjunction in front takes up the
others as its own branches. -/
def splicedConjunction : List Check → Check
  | .and branches :: rest => .and (branches ++ rest)
  | requirements => conjunction requirements

section Trees

variable (later : List Check → Check)

mutual

/-- The check of a factor, when `later` joins the factors of every term but the
first of an expression. -/
def Factor.treeWith : Factor → Check
  | .leaf word => Check.ofWord word
  | .not _ inner => .not inner.treeWith
  | .parens inner => disjunction inner.treesWith

/-- The checks of the factors of a term. -/
def Term.treesWith : Term → List Check
  | .one factor => [factor.treeWith]
  | .snoc front _ last => front.treesWith ++ [last.treeWith]

/-- The checks of the terms of an expression. -/
def Expression.treesWith : Expression → List Check
  | .one term => [conjunction term.treesWith]
  | .snoc front _ last => front.treesWith ++ [later last.treesWith]

end

end Trees

namespace Expression

/-- The check of an expression: a conjunction for a term of several factors, a
disjunction for several terms, and a conjunction that begins a later term takes up
the factors after it. -/
def tree (expression : Expression) : Check :=
  disjunction (expression.treesWith splicedConjunction)

/-- The check of an expression in which every term of several factors is a
conjunction of exactly these. -/
def plainTree (expression : Expression) : Check :=
  disjunction (expression.treesWith conjunction)

/-- The kinds of token that an expression spells. -/
def kinds (expression : Expression) : List Token.Kind :=
  expression.tokens.map Token.kind

end Expression

/-- Some derivation spells these kinds of token. -/
def Derives (kinds : List Token.Kind) : Prop :=
  ∃ expression : Expression, expression.kinds = kinds

end AccessPolicy.Rule

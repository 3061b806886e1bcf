/-! # Checks

A check is the tree that decides a request. Its leaves allow, deny, refer to
another named rule, ask for a role, or compare two operands; its inner nodes
negate a check or combine any number of them. Every check has a canonical rule
text.
-/

namespace AccessPolicy

/-- The decision tree of one rule. -/
inductive Check where
  | deny
  | allow
  | not (inner : Check)
  | and (branches : List Check)
  | or (branches : List Check)
  | rule (name : String)
  /-- Grants requests whose credentials list this role. -/
  | role (name : String)
  /-- Grants when the credential operand `kind` equals the target operand
  `matcher`. -/
  | compare (kind matcher : String)
deriving Inhabited

namespace Check

/-- The conjunction of a check with one more, extending an existing conjunction
instead of nesting it. -/
def andWith : Check → Check → Check
  | .and branches, last => .and (branches ++ [last])
  | first, last => .and [first, last]

/-- The branches of a disjunction; any other check is its own only branch. -/
def alternatives : Check → List Check
  | .or branches => branches
  | other => [other]

/-- The check bound by `and` to the last of several alternatives. -/
def bindLast (alternatives : List Check) (last : Check) : List Check :=
  match alternatives.getLast? with
  | none => [last]
  | some branch => alternatives.dropLast ++ [branch.andWith last]

mutual

/-- The canonical rule text of a check: a conjunction or disjunction in
parentheses, or the leaf it amounts to when it has no branches. -/
def chars : Check → List Char
  | .deny => ['!']
  | .allow => ['@']
  | .not inner => "not ".toList ++ inner.chars
  | .and [] => ['@']
  | .and (first :: rest) => '(' :: (first.chars ++ (joinedChars " and ".toList rest ++ [')']))
  | .or [] => ['!']
  | .or (first :: rest) => '(' :: (first.chars ++ (joinedChars " or ".toList rest ++ [')']))
  | .rule name => "rule:".toList ++ name.toList
  | .role name => "role:".toList ++ name.toList
  | .compare kind matcher => kind.toList ++ ':' :: matcher.toList

def joinedChars (separator : List Char) : List Check → List Char
  | [] => []
  | check :: rest => separator ++ (check.chars ++ joinedChars separator rest)

end

def display (check : Check) : String :=
  String.ofList check.chars

end Check

end AccessPolicy

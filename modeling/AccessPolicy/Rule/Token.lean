import AccessPolicy.Check.Leaf
import AccessPolicy.Text.Blank
import AccessPolicy.Text.Quoted

/-! # Tokens of a rule

A rule text is a sequence of blank-separated chunks. Parentheses that stand at
the beginning or at the end of a chunk are tokens of their own; what remains is
a keyword, a quoted word, or a leaf. Parentheses elsewhere in a chunk belong to
its word.
-/

namespace AccessPolicy.Rule

/-- The operators of a rule, each written in either case. -/
inductive Keyword where
  | and
  | or
  | not
deriving DecidableEq

/-- The smallest unit of a rule text. -/
inductive Token where
  | openParen
  | closeParen
  /-- An operator together with the way it was written. -/
  | keyword (operator : Keyword) (spelling : String)
  | quoted (inner : String)
  /-- Any other word, which stands for a leaf. -/
  | leaf (word : String)
deriving DecidableEq

namespace Keyword

/-- The operator that a word spells, whatever the case of its ASCII letters. -/
def ofWord? (word : List Char) : Option Keyword :=
  let lower := word.map Char.toLower
  if lower = ['a', 'n', 'd'] then some .and
  else if lower = ['o', 'r'] then some .or
  else if lower = ['n', 'o', 't'] then some .not
  else none

end Keyword

namespace Token

/-- The token of a word that has no parenthesis to detach. -/
def ofWord (word : List Char) : Token :=
  match Keyword.ofWord? word with
  | some operator => .keyword operator (String.ofList word)
  | none =>
    match Text.unquote? word with
    | some inner => .quoted (String.ofList inner)
    | none => .leaf (String.ofList word)

/-- The characters that the token keeps of the text it was read from. -/
def text : Token → String
  | .openParen => "("
  | .closeParen => ")"
  | .keyword _ spelling => spelling
  | .quoted inner => inner
  | .leaf word => word

/-- The check a leaf stands for; no other token carries one. -/
def check? : Token → Option Check
  | .leaf word => some (Check.ofWord word)
  | _ => none

/-- The word of a leaf that stands for no check. -/
def unrecognized? : Token → Option String
  | .leaf word => if (Check.ofWord? word.toList).isNone then some word else none
  | _ => none

/-- The closing parentheses at the end of a chunk and the word before them, both
in order. -/
def detachClosing : List Char → List Char × List Token
  | [] => ([], [])
  | c :: rest =>
    match detachClosing rest with
    | ([], closing) => if c = ')' then ([], .closeParen :: closing) else ([c], closing)
    | (word, closing) => (c :: word, closing)

/-- The tokens of a chunk that has no opening parenthesis in front. -/
def ofTail (chunk : List Char) : List Token :=
  match detachClosing chunk with
  | ([], closing) => closing
  | (word, closing) => ofWord word :: closing

def ofChunk : List Char → List Token
  | [] => []
  | c :: rest => if c = '(' then .openParen :: ofChunk rest else ofTail (c :: rest)

def ofText (text : List Char) : List Token :=
  (Text.words text).flatMap ofChunk

end Token

end AccessPolicy.Rule

import AccessPolicy.Rule.Stack

/-! # Reading a rule text

A blank text allows, and a text that is no expression denies. What is wrong with
a text is kept apart from the check it is read as: the words that are no leaf,
and the failure to form one expression.
-/

namespace AccessPolicy.Rule

/-- The expression that a text is, or `none` when it is not exactly one. -/
def parse? (text : String) : Option Check :=
  (Stack.ofTokens (Token.ofText text.toList)).check?

/-- The check of a rule text. A blank text allows; a text that is not an
expression denies. -/
def read (text : String) : Check :=
  if Text.isBlankText text.toList then .allow else (parse? text).getD .deny

/-- The words of a rule text that stand in the place of a leaf without being
one. -/
def unrecognizedWords (text : String) : List String :=
  (Token.ofText text.toList).filterMap Token.unrecognized?

def isMalformed (text : String) : Bool :=
  !Text.isBlankText text.toList && (parse? text).isNone

end AccessPolicy.Rule

import AccessPolicy.Rule.Nested
import AccessPolicy.Rule.Reader

/-! # Rules of a policy document

The value of a rule is a rule text or a nested list. Any other value is an error
that names the rule and what was found instead.
-/

namespace AccessPolicy.Rule

def textEvents (text : String) : List Event :=
  (unrecognizedWords text).map .unrecognizedCheck ++
    if isMalformed text then [.malformedRule text] else []

/-- The check that the value of a rule stands for. -/
def ofValue (name : String) : Json → Except PolicyError Check
  | .string text => .ok (read text)
  | .array items => .ok (readNested (.array items))
  | .null => .ok (readNested .null)
  | value => .error (.unsupportedRule name value.kind)

def valueEvents : Json → List Event
  | .string text => textEvents text
  | .array items => nestedEvents (.array items)
  | _ => []

end AccessPolicy.Rule

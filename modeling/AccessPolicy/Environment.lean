import AccessPolicy.Setting.Path
import AccessPolicy.Text.Split

/-! # Settings from environment variables

A variable is a setting if its name starts with `RULEGATE__` in any case; two
underscores stand for a dot in the rest of the name, which is a key. The value is
read as a boolean, an integer or a floating-point number if it is one. Otherwise
it is a text, or a list of texts between commas for the policy directories.
-/

namespace AccessPolicy.Environment

/-- The beginning of the name of a variable that is a setting, in lower case. -/
def marker : List Char :=
  "rulegate__".toList

/-- A text with a dot in place of every two underscores, taken from the left. -/
def dotPairs : List Char → List Char
  | [] => []
  | '_' :: '_' :: rest => '.' :: dotPairs rest
  | c :: rest => c :: dotPairs rest

/-- The key of the setting that a variable is, or `none` if it is no setting. -/
def key? (name : String) : Option String :=
  (marker.isPrefixOf? (name.toList.map Setting.foldChar)).map fun rest =>
    String.ofList (dotPairs rest)

def directoriesKey : String :=
  "policy.policy_dirs"

/-- The setting that the value of a variable writes for a key. -/
def settingOf (key value : String) : Setting :=
  let bytes := Text.utf8 value
  let lower := value.toList.map Char.toLower
  if lower = ['t', 'r', 'u', 'e'] then .boolean true
  else if lower = ['f', 'a', 'l', 's', 'e'] then .boolean false
  else
    match (Number.integer? bytes).filter fun n => -Int.pow 2 63 ≤ n && n < Int.pow 2 63 with
    | some n => .integer n
    | none =>
      match Number.floatLiteral? bytes with
      | some x => .float x
      | none =>
        if key = directoriesKey then
          .list ((Text.splitOn ',' value.toList).map fun part => .text (String.ofList part))
        else .text value

def entry? (variableEntry : String × String) : Option (String × Setting) :=
  (key? variableEntry.1).map fun key => (key, settingOf key variableEntry.2)

def entries (environment : List (String × String)) : List (String × Setting) :=
  environment.filterMap entry?

end AccessPolicy.Environment

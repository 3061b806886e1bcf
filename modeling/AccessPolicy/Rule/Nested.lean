import AccessPolicy.Check.Leaf
import AccessPolicy.Event

/-! # Rules as nested lists

A rule may be written as a list: the outer list is a disjunction, each inner list
a conjunction of leaves. Null entries and empty inner lists count for nothing, a
list with nothing left allows, and whatever else is found denies.
-/

namespace AccessPolicy.Rule

/-- The leaves of an inner list, or the kind of its first entry that is no
text. -/
def leaves : List Json → Except Json.Kind (List Check)
  | [] => .ok []
  | .string word :: rest => (leaves rest).map (Check.ofWord word :: ·)
  | entry :: _ => .error entry.kind

/-- The check of an inner list, or `none` when it is empty. An entry that is no
text makes it deny. -/
def conjunction? (entries : List Json) : Option Check :=
  match leaves entries with
  | .error _ => some .deny
  | .ok [] => none
  | .ok [leaf] => some leaf
  | .ok leaves => some (.and leaves)

/-- The check of one entry of the outer list, or `none` when it counts for
nothing. -/
def branch? : Json → Option Check
  | .null => none
  | .string word => some (.ofWord word)
  | .array entries => conjunction? entries
  | _ => some .deny

/-- The check of several alternatives, of which there may be none or one. -/
def disjunction : List Check → Check
  | [] => .allow
  | [branch] => branch
  | branches => .or branches

def readNested : Json → Check
  | .null => .allow
  | .array items => disjunction (items.filterMap branch?)
  | _ => .deny

def wordEvents (word : String) : List Event :=
  if (Check.ofWord? word.toList).isNone then [.unrecognizedCheck word] else []

/-- The reports on an inner list, which end with its first entry that is no
text. -/
def entryEvents : List Json → List Event
  | [] => []
  | .string word :: rest => wordEvents word ++ entryEvents rest
  | entry :: _ => [.unsupportedEntry entry.kind]

def branchEvents : Json → List Event
  | .null => []
  | .string word => wordEvents word
  | .array entries => entryEvents entries
  | item => [.unsupportedBranch item.kind]

def nestedEvents : Json → List Event
  | .null => []
  | .array items => items.flatMap branchEvents
  | value => [.unsupportedList value.kind]

end AccessPolicy.Rule

import AccessPolicy.Evaluation
import AccessPolicy.Json.Reader
import AccessPolicy.Rule.Value

/-! # Rule stores

A store holds the rules in force and the name of the rule that decides for
undefined ones. Documents are entered rule by rule: a rule replaces an earlier
one of its name, and a value that is no rule leaves the earlier one in force. A
text that is no document leaves the whole store as it was.
-/

namespace AccessPolicy

/-- The members of a policy document, in ascending order of their names. -/
abbrev Document : Type :=
  List (String × Json)

namespace Document

/-- The document that a JSON value is. -/
def ofJson : Json → Except DocumentFault Document
  | .object members => .ok members
  | _ => .error .notObject

def read (text : List UInt8) : Except DocumentFault Document :=
  match Json.read text with
  | .ok value => ofJson value
  | .error error => .error (.malformed error)

end Document

/-- Named rules, and the name of the one that decides for undefined names. -/
structure Store where
  rules : Table Check
  defaultRule : String

namespace Store

def empty : Store :=
  ⟨Table.empty, ""⟩

instance : Inhabited Store := ⟨empty⟩

def get? (store : Store) (name : String) : Option Check :=
  store.rules.get? name

def contains (store : Store) (name : String) : Bool :=
  (store.get? name).isSome

def size (store : Store) : Nat :=
  store.rules.size

def isEmpty (store : Store) : Bool :=
  store.rules.isEmpty

def names (store : Store) : List String :=
  store.rules.keys

def insert (store : Store) (name : String) (check : Check) : Store :=
  { store with rules := store.rules.put name check }

def withDefault (store : Store) (name : String) : Store :=
  { store with defaultRule := name }

/-- The store after one member of a document. -/
def enterMember (store : Store) (member : String × Json) : Store :=
  match Rule.ofValue member.1 member.2 with
  | .ok check => store.insert member.1 check
  | .error _ => store

def enterDocument (store : Store) (document : Document) : Store :=
  document.foldl enterMember store

def ofDocument (document : Document) : Store :=
  empty.enterDocument document

/-- The decision on a name: that of its rule, else that of the default rule, else
a denial. -/
def decide (store : Store) (name : String) (request : Request) : Decision :=
  match store.get? name with
  | some body => body.decideNamed name store.rules request
  | none =>
    match if store.defaultRule = "" then none else store.get? store.defaultRule with
    | some body =>
      let decision := body.decideNamed store.defaultRule store.rules request
      { decision with events := .usingDefault name store.defaultRule :: decision.events }
    | none => ⟨false, [.noDefault name]⟩

def toJson (store : Store) : Json :=
  .object (store.rules.entries.map fun (name, check) => (name, .string check.display))

end Store

namespace Document

def memberEvents (member : String × Json) : List Event :=
  Rule.valueEvents member.2 ++
    match Rule.ofValue member.1 member.2 with
    | .ok _ => []
    | .error error => [.skippedRule member.1 error]

def events (document : Document) : List Event :=
  document.flatMap memberEvents

end Document

end AccessPolicy

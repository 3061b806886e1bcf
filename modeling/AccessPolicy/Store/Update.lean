import AccessPolicy.Store

/-! # Updates of a store

A store changes by documents, by rules that are given as checks, and by the choice
of a default rule. An update that fails leaves the store as it was.
-/

namespace AccessPolicy

inductive Update where
  | text (text : List UInt8)
  | document (document : Document)
  | rule (name : String) (check : Check)
  | defaultRule (name : String)

namespace Store

/-- The store after a document, and what was reported on it. -/
def applyDocument (store : Store) (document : Document) : Store × List Event :=
  (store.enterDocument document, document.events)

/-- The store after an update and what was reported on it, or why it failed. -/
def apply (store : Store) : Update → Except PolicyError (Store × List Event)
  | .text text =>
    match Document.read text with
    | .ok document => .ok (store.applyDocument document)
    | .error fault => .error (.invalidDocument none fault)
  | .document document => .ok (store.applyDocument document)
  | .rule name check => .ok (store.insert name check, [])
  | .defaultRule name => .ok (store.withDefault name, [])

/-- The store after an update, which is the same store if the update fails. -/
def update (store : Store) (change : Update) : Store :=
  match store.apply change with
  | .ok (updated, _) => updated
  | .error _ => store

def updateAll (store : Store) (changes : List Update) : Store :=
  changes.foldl update store

end Store

end AccessPolicy

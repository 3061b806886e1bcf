import AccessPolicy.Files
import AccessPolicy.Sources
import AccessPolicy.Store

/-! # Loading policies

The sources are entered one after the other, so a later rule replaces an earlier
one of its name: first the rules there are, then the policy file, then the files
of each directory in the order of their names. A policy file that cannot be
entered is an error; a file of a directory that cannot be entered is skipped.
-/

namespace AccessPolicy

/-- A load in progress. -/
structure Load where
  store : Store
  files : Nat
  skipped : Nat
  events : List Event

namespace Load

def ofStore (store : Store) : Load :=
  ⟨store, 0, 0, []⟩

def documentAt (files : Files) (path : String) : Except PolicyError Document :=
  match files.read path with
  | .error fault => .error (.unreadableFile path fault)
  | .ok content =>
    match Document.read content with
    | .error fault => .error (.invalidDocument (some path) fault)
    | .ok document => .ok document

def fileEvents (path : String) (document : Document) : List Event :=
  document.events ++ [.loadedFile path]

def enterFile (load : Load) (path : String) (document : Document) : Load :=
  { load with
    store := load.store.enterDocument document
    files := load.files + 1
    events := load.events ++ fileEvents path document }

def enterAt (files : Files) (load : Load) (path : String) : Except PolicyError Load :=
  (documentAt files path).map (load.enterFile path)

/-- The load after a file that cannot be entered. -/
def skipFile (load : Load) (path : String) (error : PolicyError) : Load :=
  { load with
    skipped := load.skipped + 1
    events := load.events ++ [.skippedFile path error] }

/-- The load after a file of a directory. -/
def enterOrSkip (files : Files) (load : Load) (path : String) : Load :=
  match load.enterAt files path with
  | .ok entered => entered
  | .error error => load.skipFile path error

/-- The load after a directory, which may be missing. -/
def enterDirectory (files : Files) (load : Load) (directory : String) : Load :=
  match files.filesIn? directory with
  | some paths => paths.foldl (enterOrSkip files) load
  | none => { load with events := load.events ++ [.missingDirectory directory] }

/-- The load after the policy file, if there is to be one. -/
def enterPolicyFile (files : Files) (load : Load) (path : String) : Except PolicyError Load :=
  if path = "" then .ok load else load.enterAt files path

def summary (load : Load) : LoadSummary :=
  ⟨load.files, load.skipped, load.store.size⟩

/-- The load with its default rule set and its completion reported. -/
def finish (load : Load) (defaultRule : String) : Load :=
  { load with
    store := load.store.withDefault defaultRule
    events := load.events ++ [.loadedRules load.summary defaultRule] }

end Load

/-- The store that a load starts from. A base without rules is no base. -/
def Store.base (base : Option Store) : Store :=
  match base with
  | some store => if store.isEmpty then .empty else store
  | none => .empty

def Sources.load (sources : Sources) (files : Files) (base : Option Store) :
    Except PolicyError Load := do
  let load ← (Load.ofStore (.base base)).enterPolicyFile files sources.file
  return (sources.directories.foldl (Load.enterDirectory files) load).finish sources.defaultRule

end AccessPolicy

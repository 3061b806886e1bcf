import AccessPolicy.Loading

/-! # Enforcers

An enforcer answers requests from the store in force and remembers the sources of
its last successful load. Commands change it one at a time; a command that fails
and a command that only asks leave it as it was.
-/

namespace AccessPolicy

inductive Subject where
  /-- The rule of this name, or else the default rule. -/
  | name (name : String)
  /-- A check of the caller's own. -/
  | check (check : Check)

/-- The words for a subject: its name, or its canonical text. -/
def Subject.describe : Subject → String
  | .name rule => rule
  | .check tree => tree.display

/-- The rules in force and the sources they can be loaded from again. -/
structure Enforcer where
  store : Store
  sources : Option Sources

/-- What an enforcer can be asked to do. -/
inductive Command where
  | loadRules (sources : Sources)
  /-- Load the remembered sources afresh. -/
  | reload
  | setRules (store : Store)
  | clear
  /-- Decide on a subject. -/
  | enforce (subject : Subject) (request : Request)
  /-- Decide on a subject, a denial being an error. -/
  | authorize (subject : Subject) (request : Request)
  /-- Decide on a name without reporting the decision. -/
  | checkRule (name : String) (request : Request)
  | snapshot

/-- What a command answers. -/
inductive Reply where
  | done
  | loaded (summary : LoadSummary)
  | decided (allowed : Bool)
  | snapshot (store : Store)
  | failed (error : PolicyError)

namespace Enforcer

def ofStore (store : Store) : Enforcer :=
  ⟨store, none⟩

def empty : Enforcer :=
  ofStore .empty

instance : Inhabited Enforcer := ⟨empty⟩

/-- The decision on a subject under a store. -/
def decide (store : Store) (request : Request) : Subject → Decision
  | .name name => store.decide name request
  | .check check => check.decide store.rules request

def enforce (enforcer : Enforcer) (subject : Subject) (request : Request) : Decision :=
  let decision := decide enforcer.store request subject
  { decision with
    events := decision.events ++ [.decided subject.describe decision.allowed] }

/-- The enforcer after a command, the answer to it and what was reported. -/
def apply (files : Files) (enforcer : Enforcer) : Command → Enforcer × Reply × List Event
  | .loadRules sources =>
    match sources.load files (some enforcer.store) with
    | .ok load => (⟨load.store, some sources⟩, .loaded load.summary, load.events)
    | .error error => (enforcer, .failed error, [])
  | .reload =>
    match enforcer.sources with
    | none => (enforcer, .loaded ⟨0, 0, enforcer.store.size⟩, [.nothingToReload])
    | some sources =>
      match sources.load files none with
      | .ok load => (⟨load.store, some sources⟩, .loaded load.summary, load.events)
      | .error error => (enforcer, .failed error, [])
  | .setRules store => ({ enforcer with store }, .done, [])
  | .clear => ({ enforcer with store := .empty }, .done, [])
  | .enforce subject request =>
    let decision := enforcer.enforce subject request
    (enforcer, .decided decision.allowed, decision.events)
  | .authorize subject request =>
    let decision := enforcer.enforce subject request
    if decision.allowed then (enforcer, .done, decision.events)
    else (enforcer, .failed (.notAuthorized subject.describe), decision.events)
  | .checkRule name request =>
    let decision := enforcer.store.decide name request
    (enforcer, .decided decision.allowed, decision.events)
  | .snapshot => (enforcer, .snapshot enforcer.store, [])

/-- A new enforcer with its first load. -/
def ofSources (files : Files) (sources : Sources) : Except PolicyError (Enforcer × Load) :=
  match sources.load files (some Store.empty) with
  | .ok load => .ok (⟨load.store, some sources⟩, load)
  | .error error => .error error

/-- The enforcer after some commands, each with the files at its time, and the
answers to them. -/
def run (enforcer : Enforcer) : List (Files × Command) → Enforcer × List Reply
  | [] => (enforcer, [])
  | (files, command) :: rest =>
    let (next, reply, _) := enforcer.apply files command
    let (last, replies) := next.run rest
    (last, reply :: replies)

end Enforcer

end AccessPolicy

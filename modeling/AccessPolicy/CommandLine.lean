import AccessPolicy.Enforcer
import AccessPolicy.Invocation
import AccessPolicy.Settings

/-! # The command line

The program decides on a rule, shows rules, or gives the canonical text of one. It
succeeds with exit code 0, which for a decision means that the request is allowed.
Whatever cannot be read, loaded or found ends it with exit code 1 and without
output, and wrong usage with exit code 2. The text of the help is not covered, and
asking for it counts as wrong usage.
-/

namespace AccessPolicy.CommandLine

/-- The exit code and the output of a use of the program. -/
structure Outcome where
  exitCode : Nat
  output : String
deriving DecidableEq

def failure : Outcome :=
  ⟨1, ""⟩

/-- The program was not used as it has to be. -/
def wrongUsage : Outcome :=
  ⟨2, ""⟩

def success (text : String) : Outcome :=
  ⟨0, text ++ "\n"⟩

def decisionText (rule : String) (allowed : Bool) : String :=
  (Json.object [("rule", .string rule), ("allowed", .bool allowed)]).compact

def decided (rule : String) (allowed : Bool) : Outcome :=
  ⟨if allowed then 0 else 1, decisionText rule allowed ++ "\n"⟩

def request? (target credentials : String) : Option Request :=
  match Json.read (Text.utf8 target), Json.read (Text.utf8 credentials) with
  | .ok target, .ok credentials => some ⟨target, credentials⟩
  | _, _ => none

def check (enforcer : Enforcer) (rule target credentials : String) : Outcome :=
  match request? target credentials with
  | some request => decided rule (enforcer.enforce (.name rule) request).allowed
  | none => failure

/-- The outcome of showing one rule of a store, or all of them. -/
def showRules (store : Store) : Option String → Outcome
  | none => success store.toJson.indented
  | some name =>
    match store.get? name with
    | some rule => success rule.display
    | none => failure

/-- The enforcer that a configuration file and environment variables lead to. -/
def enforcer? (files : Files) (environment : List (String × String)) (configuration : String) :
    Option Enforcer :=
  match Settings.load? files environment configuration with
  | none => none
  | some sources =>
    match Enforcer.ofSources files sources with
    | .ok (enforcer, _) => some enforcer
    | .error _ => none

/-- The outcome of an action. The canonical text of a rule needs no configuration. -/
def perform (files : Files) (environment : List (String × String)) (configuration : String) :
    Action → Outcome
  | .parse text => success (Rule.read text).display
  | .check rule target credentials =>
    match enforcer? files environment configuration with
    | some enforcer => check enforcer rule target credentials
    | none => failure
  | .show name =>
    match enforcer? files environment configuration with
    | some enforcer => showRules enforcer.store name
    | none => failure

def versionText : String :=
  "rulegate 0.1.0"

/-- The outcome of a use of the program. Help, which would be printed with exit code
0, is not covered: asking for it has the outcome of wrong usage. -/
def run (files : Files) (environment : List (String × String)) (arguments : List String) :
    Outcome :=
  match Invocation.ofArguments? arguments with
  | none => wrongUsage
  | some .version => success versionText
  | some (.run configuration action) => perform files environment configuration action

end AccessPolicy.CommandLine

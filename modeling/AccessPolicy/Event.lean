import AccessPolicy.Error
import AccessPolicy.Text.Listing

/-! # Events

What the engine reports while it reads rules, loads policies and evaluates
requests. An event is what happened; its level, its words and its fields are
derived here.
-/

namespace AccessPolicy

/-- How much an event matters. -/
inductive Level where
  | warn
  | info
  | debug
  | trace
deriving DecidableEq

def Level.name : Level → String
  | .warn => "WARN"
  | .info => "INFO"
  | .debug => "DEBUG"
  | .trace => "TRACE"

/-- The counts of one load. -/
structure LoadSummary where
  files : Nat
  skipped : Nat
  rules : Nat
deriving DecidableEq

/-- Something the engine reports. -/
inductive Event where
  | unrecognizedCheck (word : String)
  | malformedRule (text : String)
  /-- A rule in list form is no list. -/
  | unsupportedList (found : Json.Kind)
  /-- A branch of a rule in list form is neither a text nor a list. -/
  | unsupportedBranch (found : Json.Kind)
  /-- An entry of a branch is no text. -/
  | unsupportedEntry (found : Json.Kind)
  | skippedRule (name : String) (error : PolicyError)
  | undefinedReference (name : String)
  | budgetExceeded (name : String) (budget : Nat)
  /-- A reference leads back to a rule under evaluation. -/
  | cyclicReference (name : String) (chain : List String)
  /-- A reference extends a chain that is as long as it may be. -/
  | chainTooDeep (name : String) (depth : Nat)
  /-- The default rule decides for an undefined one. -/
  | usingDefault (name default : String)
  /-- Neither the rule nor a default rule is defined. -/
  | noDefault (name : String)
  | missingDirectory (path : String)
  | loadedFile (path : String)
  /-- A policy file in a directory could not be entered. -/
  | skippedFile (path : String) (error : PolicyError)
  | loadedRules (summary : LoadSummary) (defaultRule : String)
  | nothingToReload
  | decided (rule : String) (allowed : Bool)

namespace Event

def level : Event → Level
  | .unrecognizedCheck _ | .malformedRule _ | .unsupportedList _ | .unsupportedBranch _
  | .unsupportedEntry _ | .skippedRule _ _ | .budgetExceeded _ _ | .cyclicReference _ _
  | .chainTooDeep _ _ | .skippedFile _ _ => .warn
  | .loadedRules _ _ => .info
  | .undefinedReference _ | .usingDefault _ _ | .noDefault _ | .missingDirectory _
  | .loadedFile _ | .nothingToReload => .debug
  | .decided _ _ => .trace

def message : Event → String
  | .unrecognizedCheck _ => "Unrecognized check, denying"
  | .malformedRule _ => "Failed to parse rule, denying"
  | .unsupportedList _ => "Unsupported list rule, denying"
  | .unsupportedBranch _ => "Unsupported list rule branch, denying"
  | .unsupportedEntry _ => "Non-string entry in list rule, denying"
  | .skippedRule _ _ => "Skipping rule"
  | .undefinedReference _ => "Referenced rule is not defined"
  | .budgetExceeded _ _ => "Rule evaluation exceeded its step budget, denying"
  | .cyclicReference _ _ => "Cyclic rule reference, denying"
  | .chainTooDeep _ _ => "Rule reference chain too deep, denying"
  | .usingDefault _ _ => "Rule not defined, using default rule"
  | .noDefault _ => "Rule not defined and no default rule, denying"
  | .missingDirectory _ => "Policy directory not found, skipping"
  | .loadedFile _ => "Loaded policy file"
  | .skippedFile _ _ => "Skipping policy file"
  | .loadedRules _ _ => "Loaded policy rules"
  | .nothingToReload => "No policy sources loaded yet, nothing to reload"
  | .decided _ _ => "Policy decision"

/-- The particulars of the event, by name. -/
def fields : Event → List (String × String)
  | .unrecognizedCheck word => [("check", word)]
  | .malformedRule text => [("rule", text)]
  | .unsupportedList found => [("found", found.describe)]
  | .unsupportedBranch found => [("found", found.describe)]
  | .unsupportedEntry found => [("found", found.describe)]
  | .skippedRule name error => [("rule", name), ("error", error.message)]
  | .undefinedReference name => [("rule", name)]
  | .budgetExceeded name budget => [("rule", name), ("steps", toString budget)]
  | .cyclicReference name chain => [("rule", name), ("chain", Text.listing chain)]
  | .chainTooDeep name depth => [("rule", name), ("depth", toString depth)]
  | .usingDefault name default => [("rule", name), ("default", default)]
  | .noDefault name => [("rule", name)]
  | .missingDirectory path => [("dir", path)]
  | .loadedFile path => [("path", path)]
  | .skippedFile path error => [("path", path), ("error", error.message)]
  | .loadedRules summary defaultRule =>
    [("files", toString summary.files), ("skipped", toString summary.skipped),
      ("rules", toString summary.rules), ("default_rule", defaultRule)]
  | .nothingToReload => []
  | .decided rule allowed => [("rule", rule), ("allowed", toString allowed)]

end Event

end AccessPolicy

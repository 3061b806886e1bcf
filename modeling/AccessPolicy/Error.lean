import AccessPolicy.Json
import AccessPolicy.Json.Fault

/-! # Policy errors

What can go wrong when policies are read and decisions are asked for. Each error
is its cause; its words, its code and the advice given with it are derived here
and nowhere else.
-/

namespace AccessPolicy

/-- Why a path could not be read as a file. -/
inductive FileFault where
  | notFound
  | isDirectory
  | notDirectory
  /-- The path contains a null character. -/
  | invalidPath
deriving DecidableEq

/-- Why a text is no policy document. -/
inductive DocumentFault where
  | malformed (error : Json.SyntaxError)
  | notObject

def DocumentFault.message : DocumentFault → String
  | .malformed error => error.message
  | .notObject => "top-level value must be a JSON object"

/-- An error of the policy engine. -/
inductive PolicyError where
  | unreadableFile (path : String) (fault : FileFault)
  /-- A text, from a file if a path is given, is no policy document. -/
  | invalidDocument (path : Option String) (fault : DocumentFault)
  /-- The value of a rule is neither a text nor a list. -/
  | unsupportedRule (name : String) (found : Json.Kind)
  | notAuthorized (rule : String)

namespace PolicyError

def message : PolicyError → String
  | .unreadableFile path _ => "Failed to load policy file `" ++ path ++ "`"
  | .invalidDocument none fault => "Invalid policy document: " ++ fault.message
  | .invalidDocument (some path) fault =>
    "Invalid policy document: `" ++ path ++ "`: " ++ fault.message
  | .unsupportedRule name found =>
    "Unsupported value for rule `" ++ name ++ "`: expected a string or a list, got " ++
      found.describe
  | .notAuthorized rule => "Not authorized by rule `" ++ rule ++ "`"

/-- The code by which an error is known. -/
def code : PolicyError → String
  | .unreadableFile _ _ => "rulegate::authz::policy_load"
  | .invalidDocument _ _ => "rulegate::authz::invalid_document"
  | .unsupportedRule _ _ => "rulegate::authz::unsupported_rule"
  | .notAuthorized _ => "rulegate::authz::not_authorized"

/-- What to do about an error, where there is advice. -/
def help? : PolicyError → Option String
  | .unreadableFile _ _ => some "Check that the file exists and is readable"
  | .invalidDocument _ _ =>
    some "A policy document is a JSON object mapping rule names to rule strings or lists"
  | .unsupportedRule _ _ =>
    some ("Write the rule as \"role:admin or rule:owner\" or as " ++
      "[[\"role:admin\"], [\"rule:owner\"]]")
  | .notAuthorized _ => none

end PolicyError

end AccessPolicy

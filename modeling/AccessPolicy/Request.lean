import AccessPolicy.Operand

/-! # Requests

A request is decided from two JSON values: the attributes of the target and the
credentials of the caller.
-/

namespace AccessPolicy

/-- What a decision is asked for. -/
structure Request where
  target : Json
  credentials : Json

namespace Request

def isText (text : String) : Json → Bool
  | .string other => other == text
  | _ => false

def hasRole (request : Request) (role : String) : Bool :=
  match request.credentials.get? "roles" with
  | some (.array roles) => roles.any (isText role)
  | _ => false

/-- Whether a credential operand equals a target operand. -/
def agree (request : Request) (kind matcher : String) : Bool :=
  Operand.agree kind matcher request.target request.credentials

end Request

end AccessPolicy

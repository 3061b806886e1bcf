import AccessPolicy.Number.Integer64
import AccessPolicy.Number.Binary64

/-! # JSON values

Policies, targets and credentials are JSON values. A number is an integer of 64
bits or a finite binary64 number. An object that is read lists its members in
ascending order of their keys, each key once.
-/

namespace AccessPolicy

inductive Json.Numeral where
  | integer (value : Number.Integer64)
  | float (value : Number.Binary64)

inductive Json where
  | null
  | bool (value : Bool)
  | number (value : Json.Numeral)
  | string (value : String)
  | array (items : List Json)
  | object (members : List (String × Json))
deriving Inhabited

namespace Json

inductive Kind where
  | null
  | boolean
  | number
  | string
  | list
  | object
deriving DecidableEq

def Kind.describe : Kind → String
  | .null => "null"
  | .boolean => "a boolean"
  | .number => "a number"
  | .string => "a string"
  | .list => "a list"
  | .object => "an object"

def kind : Json → Kind
  | .null => .null
  | .bool _ => .boolean
  | .number _ => .number
  | .string _ => .string
  | .array _ => .list
  | .object _ => .object

/-- The member of an object under a key; no other value has members. -/
def get? (key : String) : Json → Option Json
  | .object members => members.lookup key
  | _ => none

end Json

end AccessPolicy

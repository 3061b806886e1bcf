import AccessPolicy.Number.Layout
import AccessPolicy.Number.Literal
import AccessPolicy.Table

/-! # Settings trees

Settings are scalars, lists and tables of settings. The names in a table are
compared without regard to case. A layer of settings is laid over another name by
name: tables merge, and everything else replaces what was there.
-/

namespace AccessPolicy

inductive Setting where
  /-- A place of a list to which nothing was assigned. -/
  | unset
  | boolean (value : Bool)
  | integer (value : Int)
  | float (value : Number.Extended)
  | text (value : String)
  | list (items : List Setting)
  | table (entries : List (String × Setting))
deriving Inhabited

/-- The text of a floating-point value. -/
def Number.Extended.text : Number.Extended → String
  | .finite x => String.ofList (x.chars .bare)
  | .infinite false => "inf"
  | .infinite true => "-inf"
  | .notANumber => "NaN"

namespace Setting

/-- The text that a scalar stands for where a text is wanted. -/
def text? : Setting → Option String
  | .boolean value => some (if value then "true" else "false")
  | .integer value => some (toString value)
  | .float value => some value.text
  | .text value => some value
  | .unset | .list _ | .table _ => none

def texts? : Setting → Option (List String)
  | .list items => items.mapM text?
  | _ => none

/-- The entries of a table; anything else has none. -/
def entries : Setting → List (String × Setting)
  | .table entries => entries
  | _ => []

/-- The items of a list; anything else has none. -/
def items : Setting → List Setting
  | .list items => items
  | _ => []

/-- The lower case of a character, if that is in ASCII. The Kelvin sign is the one
character beyond ASCII of which this is true. -/
def foldChar (c : Char) : Char :=
  if c = '\u212a' then 'k' else c.toLower

/-- A name in the case in which names are compared. -/
def foldName (name : String) : String :=
  String.ofList (name.toList.map foldChar)

mutual

/-- A setting laid over what is there, if anything is. -/
def laidOver (existing : Option Setting) : Setting → Setting
  | .table [] => existing.getD (.table [])
  | .table (first :: rest) =>
    .table (entriesOver ((existing.map entries).getD []) (first :: rest))
  | scalar => scalar

/-- The entries of a table laid over the entries of another one, in order. -/
def entriesOver (existing : List (String × Setting)) :
    List (String × Setting) → List (String × Setting)
  | [] => existing
  | (name, value) :: rest =>
    entriesOver
      (Table.putEntry (foldName name) (laidOver (existing.lookup (foldName name)) value) existing) rest

end

def get? (name : String) (setting : Setting) : Option Setting :=
  setting.entries.lookup name

end Setting

end AccessPolicy

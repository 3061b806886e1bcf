import AccessPolicy.Setting
import AccessPolicy.Text.Utf8

/-! # Paths to settings

A path leads by names through tables and by positions through lists. It is written
with a dot in front of every name but the first, and with every position in
brackets; a negative position counts from the end of the list. A key that does not
write a path is a name as a whole.

A setting is assigned to a path whatever is there. A step that needs a table or a
list makes one in place of anything else, and a list grows as far as a position
needs, with unset places in between.
-/

namespace AccessPolicy.Setting

/-- One step of a path. -/
inductive Step where
  | name (name : String)
  | position (index : Int)
deriving DecidableEq

/-! ## Written paths -/

/-- Whether a character may stand in a name of a path. -/
def isNameChar (c : Char) : Bool :=
  c.isAlphanum || c == ' ' || c == '_' || c == '-'

/-- Whether a character is a blank beside a position. -/
def isBesidePosition (c : Char) : Bool :=
  c == ' ' || c == '\t'

/-- The number that a position is written as, which fits a signed word. -/
def writtenIndex? (digits : List Char) : Option Int :=
  let (negative, magnitude) :=
    match digits with
    | '-' :: magnitude => (true, magnitude)
    | magnitude => (false, magnitude)
  (Number.natural? (Text.utf8 (String.ofList magnitude))).bind fun value =>
    let index : Int := if negative then -value else value
    if -Int.pow 2 63 ≤ index ∧ index < Int.pow 2 63 then some index else none

/-- The position between two brackets. -/
def positionIn? (inside : List Char) : Option Int :=
  writtenIndex? (((inside.dropWhile isBesidePosition).reverse.dropWhile isBesidePosition).reverse)

/-- The steps that a text writes, each with its dot or its brackets. -/
def readSteps (input : List Char) : Option (List Step) :=
  match input with
  | [] => some []
  | mark :: rest =>
    if mark = '.' then
      match rest.takeWhile isNameChar with
      | [] => none
      | name =>
        (readSteps (rest.dropWhile isNameChar)).map (.name (String.ofList name) :: ·)
    else if mark = '[' ∧ ']' ∈ rest then
      match positionIn? (rest.takeWhile (· != ']')) with
      | none => none
      | some index =>
        (readSteps ((rest.dropWhile (· != ']')).drop 1)).map (.position index :: ·)
    else none
termination_by input.length
decreasing_by
  · exact Nat.lt_succ_of_le (List.dropWhile_sublist _).length_le
  · exact Nat.lt_succ_of_le
      ((List.drop_sublist _ _).trans (List.dropWhile_sublist _)).length_le

/-- The path that a key leads along. -/
def path (key : String) : List Step :=
  (readSteps ('.' :: key.toList)).getD [.name key]

/-! ## Assignment -/

/-- The place in a list of some length that an index stands for, unless it is
before the first one. -/
def place? (index : Int) (length : Nat) : Option Nat :=
  if 0 ≤ index then some index.toNat
  else if 0 ≤ length + index then some (length + index).toNat
  else none

/-- A list that is long enough to have a place. -/
def extended (items : List Setting) (place : Nat) : List Setting :=
  items ++ List.replicate (place + 1 - items.length) .unset

/-- A list with an item at an index. It grows to the front for an index before its
first place. -/
def putItem (index : Int) (item : Setting) (items : List Setting) : List Setting :=
  match place? index items.length with
  | some place => (extended items place).set place item
  | none => item :: (List.replicate ((-index).toNat - items.length - 1) .unset ++ items)

/-- A list with a change to the item at an index, if that is not before the first
place. -/
def changeItem (index : Int) (change : Setting → Setting) (items : List Setting) :
    List Setting :=
  match place? index items.length with
  | some place => (extended items place).modify place change
  | none => items

/-- What is there after a setting has been assigned along a path. At a name it is
laid over what is there; at a position it replaces that. -/
def assign (value : Setting) : List Step → Option Setting → Setting
  | [], existing => value.laidOver existing
  | .name name :: rest, existing =>
    let entries := (existing.map entries).getD []
    .table (Table.putEntry (foldName name)
      (assign value rest (entries.lookup (foldName name))) entries)
  | [.position index], existing => .list (putItem index value ((existing.map items).getD []))
  | .position index :: next :: rest, existing =>
    .list (changeItem index (fun item => assign value (next :: rest) (some item))
      ((existing.map items).getD []))

/-- The settings after the assignment of a setting to a key. -/
def enter (settings : Setting) (key : String) (value : Setting) : Setting :=
  assign value (path key) (some settings)

/-- The settings after the assignment of each entry to its key. -/
def enterAll (settings : Setting) (entries : List (String × Setting)) : Setting :=
  entries.foldl (fun settings (key, value) => settings.enter key value) settings

end AccessPolicy.Setting

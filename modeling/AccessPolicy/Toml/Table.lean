import AccessPolicy.Setting

/-! # Tables of a TOML text

A table is defined by its header, by a dotted key, or implicitly on the way to
another table. What is defined once is not defined again: a header may only add
to a table that is implicit so far, and a dotted key only to tables that dotted
keys made. A key has one value.
-/

namespace AccessPolicy.Toml

/-- How a table came to be. -/
inductive Origin where
  | implicit
  | header
  | dotted
deriving DecidableEq

/-- What a key of a table stands for. -/
inductive Item where
  | value (value : Setting)
  | table (origin : Origin) (entries : List (String × Item))
deriving Inhabited

abbrev Entries : Type :=
  List (String × Item)

/-- The entries with the item of a key, in place of an earlier one. -/
def Entries.set (entries : Entries) (key : String) (item : Item) : Entries :=
  if entries.any (·.1 == key) then
    entries.map fun entry => if entry.1 == key then (key, item) else entry
  else entries ++ [(key, item)]

/-- The entries after the header of a table. -/
def Entries.openTable (entries : Entries) : List String → Option Entries
  | [] => none
  | [key] =>
    match entries.lookup key with
    | none => some (entries.set key (.table .header []))
    | some (.table .implicit inner) => some (entries.set key (.table .header inner))
    | some _ => none
  | key :: rest =>
    match entries.lookup key with
    | none =>
      (Entries.openTable [] rest).map fun inner => entries.set key (.table .implicit inner)
    | some (.table origin inner) =>
      (Entries.openTable inner rest).map fun inner => entries.set key (.table origin inner)
    | some (.value _) => none

/-- The entries after a value for a dotted key. The last of the tables on the way
has to be one that dotted keys made, or new. -/
def Entries.define (entries : Entries) (value : Setting) : List String → Option Entries
  | [] => none
  | [key] =>
    match entries.lookup key with
    | none => some (entries.set key (.value value))
    | some _ => none
  | key :: rest =>
    match entries.lookup key with
    | none => (Entries.define [] value rest).map fun inner => entries.set key (.table .dotted inner)
    | some (.table .dotted inner) =>
      (Entries.define inner value rest).map fun inner => entries.set key (.table .dotted inner)
    | some (.table .implicit inner) =>
      if rest.length = 1 then none
      else (Entries.define inner value rest).map fun inner => entries.set key (.table .implicit inner)
    | some _ => none

/-- The entries after a change to those of the table with the given header. -/
def Entries.within (change : Entries → Option Entries) (entries : Entries) :
    List String → Option Entries
  | [] => change entries
  | key :: rest =>
    match entries.lookup key with
    | some (.table origin inner) =>
      (Entries.within change inner rest).map fun inner => entries.set key (.table origin inner)
    | _ => none

mutual

def Item.setting : Item → Setting
  | .value value => value
  | .table _ entries => .table (settings entries)

def settings : Entries → List (String × Setting)
  | [] => []
  | (key, item) :: rest => (key, item.setting) :: settings rest

end

end AccessPolicy.Toml

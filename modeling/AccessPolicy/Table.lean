/-! # Tables with ordered keys

A table maps texts to values and lists its entries in ascending order of their
keys, which is also the byte order of their UTF-8 encodings. A new value for a
key replaces the old one.
-/

namespace AccessPolicy

namespace Table

variable {α : Type}

/-- Enters a value under a key into entries in ascending order, replacing an
earlier value. -/
def putEntry (key : String) (value : α) : List (String × α) → List (String × α)
  | [] => [(key, value)]
  | (other, old) :: rest =>
    if key < other then (key, value) :: (other, old) :: rest
    else if key = other then (key, value) :: rest
    else (other, old) :: putEntry key value rest

/-- Entries in ascending order from a sequence in which later values win. -/
def orderedEntries (entries : List (String × α)) : List (String × α) :=
  entries.foldl (fun ordered (key, value) => putEntry key value ordered) []

/-- What is among the entries afterwards is the new entry or was among them before. -/
theorem mem_putEntry {key : String} {value : α} {entries : List (String × α)}
    {entry : String × α} (member : entry ∈ putEntry key value entries) :
    entry = (key, value) ∨ entry ∈ entries := by
  induction entries with
  | nil => simp_all [putEntry]
  | cons head rest ih =>
    simp only [putEntry] at member
    split at member
    · simp only [List.mem_cons] at member ⊢
      rcases member with rfl | rfl | member <;> simp_all
    · split at member
      · simp only [List.mem_cons] at member ⊢
        rcases member with rfl | member <;> simp_all
      · simp only [List.mem_cons] at member ⊢
        rcases member with rfl | member
        · simp
        · rcases ih member with same | earlier <;> simp_all

theorem pairwise_putEntry (key : String) (value : α) {entries : List (String × α)}
    (ascending : entries.Pairwise (·.1 < ·.1)) :
    (putEntry key value entries).Pairwise (·.1 < ·.1) := by
  induction entries with
  | nil => simp [putEntry]
  | cons head rest ih =>
    have above := (List.pairwise_cons.mp ascending).1
    have later := (List.pairwise_cons.mp ascending).2
    simp only [putEntry]
    split
    · rename_i less
      refine List.pairwise_cons.mpr ⟨fun entry member => ?_, ascending⟩
      rcases List.mem_cons.mp member with rfl | member
      · exact less
      · exact String.lt_trans less (above entry member)
    · split
      · rename_i same
        subst same
        exact List.pairwise_cons.mpr ⟨above, later⟩
      · rename_i notLess different
        refine List.pairwise_cons.mpr ⟨fun entry member => ?_, ih later⟩
        rcases mem_putEntry member with same | member
        · rw [same]
          exact Std.lt_of_le_of_ne (Std.not_lt.mp notLess) (Ne.symm different)
        · exact above entry member

end Table

/-- A finite map from texts, listed in ascending order of its keys. -/
structure Table (α : Type) where
  entries : List (String × α)
  ascending : entries.Pairwise (·.1 < ·.1)

namespace Table

variable {α : Type}

def empty : Table α :=
  ⟨[], List.Pairwise.nil⟩

instance : Inhabited (Table α) := ⟨empty⟩

def put (table : Table α) (key : String) (value : α) : Table α :=
  ⟨putEntry key value table.entries, pairwise_putEntry key value table.ascending⟩

def get? (table : Table α) (key : String) : Option α :=
  table.entries.lookup key

def keys (table : Table α) : List String :=
  table.entries.map (·.1)

def size (table : Table α) : Nat :=
  table.entries.length

def isEmpty (table : Table α) : Bool :=
  table.entries.isEmpty

theorem lookup_entry (key : String) (value : α) (entries : List (String × α)) (other : String) :
    ((key, value) :: entries).lookup other =
      if other = key then some value else entries.lookup other := by
  by_cases same : other = key
  · simp [same]
  · simp [List.lookup_cons, same, beq_eq_false_iff_ne.mpr same]

theorem lookup_putEntry (key : String) (value : α) (entries : List (String × α))
    (other : String) :
    (putEntry key value entries).lookup other =
      if other = key then some value else entries.lookup other := by
  induction entries with
  | nil => simp [putEntry, lookup_entry]
  | cons head rest ih =>
    obtain ⟨first, old⟩ := head
    simp only [putEntry]
    split
    · simp [lookup_entry]
    · split
      · rename_i same
        subst same
        simp only [lookup_entry]
        split <;> rfl
      · rename_i different
        simp only [lookup_entry, ih]
        by_cases found : other = key
        · subst found
          simp [different]
        · simp [found]

/-- Entering a value changes what its key gives and nothing else. -/
@[simp] theorem get?_put (table : Table α) (key : String) (value : α) (other : String) :
    (table.put key value).get? other = if other = key then some value else table.get? other :=
  lookup_putEntry key value table.entries other

@[simp] theorem get?_empty (key : String) : (empty : Table α).get? key = none := rfl

end Table

end AccessPolicy

import AccessPolicy.Proofs.Json.Members
import AccessPolicy.Proofs.Latest

/-! # Repeated keys

A text may write several members of an object with one key. The value of the last of them
is that of the member that is read.
-/

namespace AccessPolicy

namespace Table

variable {α : Type}

/-- The value of the last entry with a key. -/
def lastValue? (key : String) (entries : List (String × α)) : Option α :=
  (entries.filterMap fun entry => if key = entry.1 then some entry.2 else none).getLast?

theorem lookup_orderedEntries (key : String) (entries : List (String × α)) :
    (orderedEntries entries).lookup key = lastValue? key entries := by
  have collected : ∀ ordered : List (String × α),
      (entries.foldl (fun ordered entry => putEntry entry.1 entry.2 ordered) ordered).lookup key =
        (lastValue? key entries).or (ordered.lookup key) := by
    induction entries with
    | nil => exact fun _ => rfl
    | cons entry rest ih =>
        intro ordered
        rw [List.foldl_cons, ih, lookup_putEntry, lastValue?, lastValue?,
          getLast?_filterMap_cons_or]
        split
        · rw [Option.some_or]
        · rw [Option.none_or]
  exact (collected []).trans Option.or_none

end Table

namespace Json

/-- The members of the object that a text is, in the order in which they are written. -/
def writtenMembers? (text : List UInt8) : Option (List (String × Json)) :=
  match skipBlanks text with
  | 123 :: rest =>
    match readEntries (readMember (readValue (greatestNesting - 1))) .object true rest with
    | .ok ⟨members, left, _⟩ => if skipBlanks left = [] then some members else none
    | .error _ => none
  | _ => none

/-- An object begins with a brace, and its members are those behind it, in order. -/
theorem exists_written_of_readValue {levels : Nat} {input : List UInt8}
    {parsed : Parsed Json input} {members : List (String × Json)}
    (read : readValue (levels + 1) input = .ok parsed)
    (object : parsed.value = .object members) :
    ∃ rest written shorter, skipBlanks input = 123 :: rest ∧
      readEntries (readMember (readValue levels)) .object true rest =
        .ok ⟨written, parsed.rest, shorter⟩ ∧
      members = Table.orderedEntries written := by
  rw [readValue.eq_def] at read
  split at read
  · cases read
  · rename_i byte rest opens
    extract_lets bound word at read
    have noWord : ∀ value expected, word value expected = .ok parsed → value = .object members := by
      intro value expected readsWord
      obtain ⟨⟨found, left⟩, inside, done⟩ := bind_eq_ok.mp readsWord
      cases done
      exact (eq_of_readWord inside).trans object
    split at read
    · cases noWord _ _ read
    split at read
    · cases noWord _ _ read
    split at read
    · cases noWord _ _ read
    split at read
    · obtain ⟨text, _, done⟩ := bind_eq_ok.mp read
      cases done
      cases object
    split at read
    · obtain ⟨items, _, done⟩ := bind_eq_ok.mp read
      cases done
      cases object
    split at read
    · rename_i brace
      subst brace
      obtain ⟨⟨written, left, shorter⟩, inside, done⟩ := bind_eq_ok.mp read
      cases done
      cases object
      exact ⟨rest, written, shorter, opens, inside, rfl⟩
    split at read
    · obtain ⟨number, _, done⟩ := bind_eq_ok.mp read
      cases done
      cases object
    · cases read

/-- Members behind a brace are read as an object. -/
theorem exists_readValue_of_written {levels : Nat} {input rest : List UInt8}
    (opens : skipBlanks input = 123 :: rest) {written : List (String × Json)} {left : List UInt8}
    {shorter : left.length < rest.length}
    (inside : readEntries (readMember (readValue levels)) .object true rest =
      .ok ⟨written, left, shorter⟩) :
    ∃ shorter, readValue (levels + 1) input =
      .ok ⟨.object (Table.orderedEntries written), left, shorter⟩ := by
  have bound : left.length < input.length := by
    have skipped := length_skipBlanks input
    rw [opens, List.length_cons] at skipped
    omega
  refine ⟨bound, ?_⟩
  rw [readValue.eq_def]
  split
  · rename_i none
    cases opens.symm.trans none
  · rename_i byte other same
    cases opens.symm.trans same
    simp [inside]

/-- A text is read as an object exactly if it has members, which are put in order. -/
theorem read_eq_object_iff {text : List UInt8} {members : List (String × Json)} :
    read text = .ok (.object members) ↔
      ∃ written, writtenMembers? text = some written ∧ members = Table.orderedEntries written := by
  constructor
  · intro reads
    unfold read readWithin at reads
    split at reads
    · cases reads
    · rename_i value left shorter parsed
      split at reads
      · rename_i ends
        cases reads
        obtain ⟨rest, written, bound, opens, inside, same⟩ :=
          exists_written_of_readValue parsed rfl
        refine ⟨written, ?_, same⟩
        simp only [writtenMembers?, opens]
        rw [show greatestNesting - 1 = 126 from rfl, inside]
        exact if_pos ends
      · cases reads
  · rintro ⟨written, has, rfl⟩
    unfold writtenMembers? at has
    split at has
    · rename_i rest opens
      split at has
      · rename_i members left shorter inside
        split at has
        · rename_i ends
          cases has
          obtain ⟨bound, parsed⟩ := exists_readValue_of_written opens inside
          unfold read readWithin
          rw [show greatestNesting = greatestNesting - 1 + 1 from rfl, parsed]
          simp only [ends]
        · cases has
      · cases has
    · cases has

end Json

end AccessPolicy

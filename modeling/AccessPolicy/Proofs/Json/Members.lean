import AccessPolicy.Json.Reader

/-! # Values that are read

What is read is of one kind, by the byte it begins with. Entries that are put in order have
each key once, in ascending order; so have the members of every object that is read, however
often a text repeats a key.
-/

namespace AccessPolicy

namespace Table

variable {α : Type}

theorem pairwise_orderedEntries (entries : List (String × α)) :
    (orderedEntries entries).Pairwise (·.1 < ·.1) := by
  have ascending : ∀ ordered : List (String × α), ordered.Pairwise (·.1 < ·.1) →
      (entries.foldl (fun ordered entry => putEntry entry.1 entry.2 ordered) ordered).Pairwise
        (·.1 < ·.1) := by
    induction entries with
    | nil => exact fun _ sorted => sorted
    | cons entry rest ih => exact fun _ sorted => ih _ (pairwise_putEntry entry.1 entry.2 sorted)
  exact ascending [] List.Pairwise.nil

theorem mem_keys_putEntry {key other : String} {value : α} {entries : List (String × α)} :
    other ∈ (putEntry key value entries).map (·.1) ↔ other = key ∨ other ∈ entries.map (·.1) := by
  induction entries with
  | nil => simp [putEntry]
  | cons head rest ih =>
    simp only [putEntry]
    split
    · simp only [List.map_cons, List.mem_cons]
    · split
      · rename_i same
        simp only [List.map_cons, List.mem_cons, same, or_self_left]
      · simp only [List.map_cons, List.mem_cons, ih]
        exact or_left_comm

theorem mem_keys_orderedEntries {key : String} {entries : List (String × α)} :
    key ∈ (orderedEntries entries).map (·.1) ↔ key ∈ entries.map (·.1) := by
  have collected : ∀ ordered : List (String × α),
      key ∈ (entries.foldl (fun ordered entry => putEntry entry.1 entry.2 ordered) ordered).map
          (·.1) ↔
        key ∈ entries.map (·.1) ∨ key ∈ ordered.map (·.1) := by
    induction entries with
    | nil => simp
    | cons entry rest ih =>
      intro ordered
      rw [List.foldl_cons, ih, mem_keys_putEntry, List.map_cons, List.mem_cons, or_left_comm,
        or_assoc]
  refine (collected []).trans ?_
  rw [List.map_nil, or_iff_left List.not_mem_nil]

end Table

namespace Json

theorem bind_eq_ok {ε α β : Type} {first : Except ε α} {next : α → Except ε β} {result : β} :
    (first >>= next) = .ok result ↔ ∃ value, first = .ok value ∧ next value = .ok result := by
  cases first with
  | error fault => simp [bind, Except.bind]
  | ok value => simp [bind, Except.bind]

/-- A word stands for one value only. -/
theorem eq_of_readWord {value found : Json} {expected input : List UInt8}
    {rest : Remainder input} (read : readWord value expected input = .ok (found, rest)) :
    value = found := by
  induction expected generalizing input with
  | nil =>
    cases read
    rfl
  | cons byte later ih =>
    cases input with
    | nil => cases read
    | cons first others =>
      by_cases same : byte = first
      · -- The word goes on, and its value is that of the remaining word.
        have goesOn : (readWord value later others >>= fun outcome =>
            pure (outcome.1, ⟨outcome.2.1, Nat.le_succ_of_le outcome.2.2⟩)) = .ok (found, rest) :=
          (if_pos same).symm.trans read
        obtain ⟨⟨other, left⟩, inside, done⟩ := bind_eq_ok.mp goesOn
        cases done
        exact ih inside
      · cases (if_neg same).symm.trans read

/-- What is read is a word, a string, an array, an object whose members are put in order, or
a number. -/
theorem readValue_cases {levels : Nat} {input : List UInt8} {parsed : Parsed Json input}
    (read : readValue levels input = .ok parsed) :
    parsed.value = .null ∨ (∃ value, parsed.value = .bool value) ∨
      (∃ text, parsed.value = .string text) ∨ (∃ items, parsed.value = .array items) ∨
      (∃ entries, parsed.value = .object (Table.orderedEntries entries)) ∨
      ∃ number, readNumeral (skipBlanks input) = .ok number ∧
        parsed.value = .number number.value := by
  rw [readValue.eq_def] at read
  split at read
  · cases read
  · extract_lets bound word at read
    have words : ∀ value expected, word value expected = .ok parsed → value = parsed.value := by
      intro value expected readsWord
      obtain ⟨⟨found, left⟩, inside, done⟩ := bind_eq_ok.mp readsWord
      cases done
      exact eq_of_readWord inside
    split at read
    · exact .inl (words _ _ read).symm
    split at read
    · exact .inr (.inl ⟨_, (words _ _ read).symm⟩)
    split at read
    · exact .inr (.inl ⟨_, (words _ _ read).symm⟩)
    split at read
    · obtain ⟨text, _, done⟩ := bind_eq_ok.mp read
      cases done
      exact .inr (.inr (.inl ⟨_, rfl⟩))
    split at read
    · split at read
      · cases read
      · obtain ⟨items, _, done⟩ := bind_eq_ok.mp read
        cases done
        exact .inr (.inr (.inr (.inl ⟨_, rfl⟩)))
    split at read
    · split at read
      · cases read
      · obtain ⟨entries, _, done⟩ := bind_eq_ok.mp read
        cases done
        exact .inr (.inr (.inr (.inr (.inl ⟨_, rfl⟩))))
    split at read
    · obtain ⟨number, readsNumber, done⟩ := bind_eq_ok.mp read
      cases done
      exact .inr (.inr (.inr (.inr (.inr ⟨number, readsNumber, rfl⟩))))
    · cases read

/-- Only braces give an object, and its members are put in order. -/
theorem exists_orderedEntries_of_readValue {levels : Nat} {input : List UInt8}
    {parsed : Parsed Json input} {members : List (String × Json)}
    (read : readValue levels input = .ok parsed) (object : parsed.value = .object members) :
    ∃ entries, members = Table.orderedEntries entries := by
  rcases readValue_cases read with null | ⟨_, bool⟩ | ⟨_, string⟩ | ⟨_, array⟩ |
    ⟨entries, ordered⟩ | ⟨_, _, number⟩
  · cases object.symm.trans null
  · cases object.symm.trans bool
  · cases object.symm.trans string
  · cases object.symm.trans array
  · cases object.symm.trans ordered
    exact ⟨entries, rfl⟩
  · cases object.symm.trans number

/-- Only a number gives a number. -/
theorem readNumeral_of_readValue {levels : Nat} {input : List UInt8} {parsed : Parsed Json input}
    {number : Numeral} (read : readValue levels input = .ok parsed)
    (value : parsed.value = .number number) :
    ∃ numeral, readNumeral (skipBlanks input) = .ok numeral ∧ numeral.value = number := by
  rcases readValue_cases read with null | ⟨_, bool⟩ | ⟨_, string⟩ | ⟨_, array⟩ | ⟨_, object⟩ |
    ⟨numeral, reads, same⟩
  · cases value.symm.trans null
  · cases value.symm.trans bool
  · cases value.symm.trans string
  · cases value.symm.trans array
  · cases value.symm.trans object
  · cases value.symm.trans same
    exact ⟨numeral, reads, rfl⟩

/-- A value that is read is read from the beginning of the text. -/
theorem exists_parsed_of_read {text : List UInt8} {value : Json} (reads : read text = .ok value) :
    ∃ parsed, readValue greatestNesting text = .ok parsed ∧ parsed.value = value := by
  unfold read readWithin at reads
  split at reads
  · cases reads
  · rename_i found rest shorter inside
    split at reads
    · cases reads
      exact ⟨_, inside, rfl⟩
    · cases reads

/-- An object that is read has each key once, in ascending order. -/
theorem pairwise_of_read {text : List UInt8} {members : List (String × Json)}
    (readObject : read text = .ok (.object members)) : members.Pairwise (·.1 < ·.1) := by
  obtain ⟨parsed, inside, object⟩ := exists_parsed_of_read readObject
  obtain ⟨entries, rfl⟩ := exists_orderedEntries_of_readValue inside object
  exact Table.pairwise_orderedEntries entries

end Json

end AccessPolicy

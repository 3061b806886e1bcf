import AccessPolicy.Json.Printer
import AccessPolicy.Proofs.Json.Repetition
import AccessPolicy.Proofs.Text.Decoding

/-! # Reading what was written

A text that is written as a JSON string is read back, whatever characters it has, and the
string takes up no more than one line. So an object of texts and truth values that is
written without blanks is read back as its members in order.
-/

namespace AccessPolicy.Json

open Text (utf8)

/-- A step of the reader succeeds with a value and leaves the given rest. -/
def Gives {α : Type} {input : List UInt8} (step : Step α input) (value : α)
    (rest : List UInt8) : Prop :=
  ∃ shorter, step = .ok ⟨value, rest, shorter⟩

/-- The bytes of some characters. -/
def encoded (text : List Char) : List UInt8 :=
  text.flatMap String.utf8EncodeChar

theorem encoded_cons (c : Char) (text : List Char) :
    encoded (c :: text) = String.utf8EncodeChar c ++ encoded text :=
  List.flatMap_cons

theorem encoded_append (first second : List Char) :
    encoded (first ++ second) = encoded first ++ encoded second :=
  List.flatMap_append

/-! ## Strings -/

section Strings

variable {read input rest bytes : List UInt8}

theorem gives_readStringBytes_closing :
    Gives (readStringBytes read (34 :: rest)) read rest := by
  refine ⟨by simp, ?_⟩
  rw [readStringBytes.eq_def]
  simp

/-- A byte that stands for itself. -/
theorem gives_readStringBytes_plain {byte : UInt8} (unquoted : byte ≠ 34) (printed : ¬ byte < 32)
    (unescaped : byte ≠ 92) (later : Gives (readStringBytes (byte :: read) input) bytes rest) :
    Gives (readStringBytes read (byte :: input)) bytes rest := by
  obtain ⟨shorter, later⟩ := later
  refine ⟨Nat.lt_succ_of_lt shorter, ?_⟩
  rw [readStringBytes.eq_def]
  simp only [if_neg unquoted, if_neg printed, if_neg unescaped, later]

theorem gives_readStringBytes_escape {c : Char} {after : List UInt8}
    (escape : Gives (readEscape input) c after)
    (later : Gives (readStringBytes ((String.utf8EncodeChar c).reverse ++ read) after) bytes rest) :
    Gives (readStringBytes read (92 :: input)) bytes rest := by
  obtain ⟨bound, escape⟩ := escape
  obtain ⟨shorter, later⟩ := later
  refine ⟨Nat.lt_trans shorter (Nat.lt_succ_of_lt bound), ?_⟩
  rw [readStringBytes.eq_def]
  simp [escape, later]

theorem utf8EncodeChar_digitChar : ∀ digit < 16, ∃ byte,
    String.utf8EncodeChar (Nat.digitChar digit) = [byte] ∧ hexValue? byte = some digit := by
  have known : ∀ digit < 16,
      String.utf8EncodeChar (Nat.digitChar digit) =
        [UInt8.ofNat (Nat.digitChar digit).toNat] ∧
      hexValue? (UInt8.ofNat (Nat.digitChar digit).toNat) = some digit := by decide
  exact fun digit small => ⟨_, known digit small⟩

/-- A control character is read from the four digits of its code. -/
theorem gives_readEscape_control {c : Char} (control : c.toNat < 32) (after : List UInt8) :
    Gives (readEscape (encoded ('u' :: '0' :: '0' :: hexDigits c.toNat) ++ after)) c after := by
  obtain ⟨high, isHigh, highValue⟩ := utf8EncodeChar_digitChar (c.toNat / 16) (by omega)
  obtain ⟨low, isLow, lowValue⟩ := utf8EncodeChar_digitChar (c.toNat % 16) (by omega)
  have bytes : encoded ('u' :: '0' :: '0' :: hexDigits c.toNat) ++ after =
      117 :: 48 :: 48 :: high :: low :: after := by
    simp only [encoded_cons, hexDigits, isHigh, isLow]
    rfl
  have zero : hexValue? 48 = some 0 := by decide
  have unit : ((0 * 16 + 0) * 16 + c.toNat / 16) * 16 + c.toNat % 16 = c.toNat := by omega
  have value : Char.ofNat c.toNat = c := Char.ofNat_toNat c
  rw [bytes]
  have noLow : ¬ (0xdc00 ≤ c.toNat ∧ c.toNat ≤ 0xdfff) := by omega
  have noHigh : ¬ (0xd800 ≤ c.toNat ∧ c.toNat ≤ 0xdbff) := by omega
  refine ⟨by simp only [List.length_cons]; omega, ?_⟩
  simp only [readEscape, readUnicodeEscape, readCodeUnit, zero, highValue, lowValue, unit,
    if_true, bind, Except.bind, if_neg noLow, if_neg noHigh, value]
  rfl

theorem gives_readStringBytes_append {plain : List UInt8}
    (unchanged : ∀ byte ∈ plain, byte ≠ 34 ∧ ¬ byte < 32 ∧ byte ≠ 92)
    (later : Gives (readStringBytes (plain.reverse ++ read) input) bytes rest) :
    Gives (readStringBytes read (plain ++ input)) bytes rest := by
  induction plain generalizing read with
  | nil => exact later
  | cons byte others ih =>
      obtain ⟨⟨unquoted, printed, unescaped⟩, unchanged⟩ := List.forall_mem_cons.mp unchanged
      refine gives_readStringBytes_plain unquoted printed unescaped (ih unchanged ?_)
      rwa [List.reverse_cons, List.append_assoc] at later

/-- The bytes of a character that is written as it is are read as they are. -/
theorem unchanged_of_mem_utf8EncodeChar {c : Char} (unquoted : c ≠ '"') (unescaped : c ≠ '\\')
    (printed : ¬ c.toNat < 32) {byte : UInt8} (among : byte ∈ String.utf8EncodeChar c) :
    byte ≠ 34 ∧ ¬ byte < 32 ∧ byte ≠ 92 := by
  have isByte (code : Nat) (small : code < 256) (different : code ≠ 34 ∧ ¬ code < 32 ∧ code ≠ 92) :
      UInt8.ofNat code ≠ 34 ∧ ¬ UInt8.ofNat code < 32 ∧ UInt8.ofNat code ≠ 92 := by
    rw [Ne, Ne, ← UInt8.toNat_inj, ← UInt8.toNat_inj, UInt8.lt_iff_toNat_lt,
      Text.toNat_ofNat small]
    exact different
  have notQuote : c.toNat ≠ 34 := fun same => unquoted (by rw [← Char.ofNat_toNat c, same])
  have notBackslash : c.toNat ≠ 92 := fun same =>
    unescaped (by rw [← Char.ofNat_toNat c, same])
  unfold String.utf8EncodeChar at among
  extract_lets code at among
  have isCode : code = c.toNat := rfl
  rw [← isCode] at notQuote notBackslash printed
  clear_value code
  -- A byte that is not the only one of its character is at least 128.
  repeat' split at among
  all_goals
    simp only [List.mem_cons, List.not_mem_nil, or_false] at among
    rcases among with rfl | rfl | rfl | rfl
  all_goals exact isByte _ (by omega) (by omega)

/-- A character is written by an escape with one mark, by the code of a control character, or
as it is. -/
theorem escapedChar_cases (c : Char) :
    (∃ mark byte, escapedChar c = ['\\', mark] ∧ mark ≠ '\n' ∧
      String.utf8EncodeChar mark = [byte] ∧ byte ≠ 117 ∧ simpleEscape? byte = some c) ∨
    (escapedChar c = '\\' :: 'u' :: '0' :: '0' :: hexDigits c.toNat ∧ c.toNat < 32) ∨
    (escapedChar c = [c] ∧ c ≠ '"' ∧ c ≠ '\\' ∧ ¬ c.toNat < 32) := by
  unfold escapedChar
  split
  · subst c
    exact .inl ⟨'"', 34, rfl, by decide, by decide, by decide, by decide⟩
  split
  · subst c
    exact .inl ⟨'\\', 92, rfl, by decide, by decide, by decide, by decide⟩
  split
  · subst c
    exact .inl ⟨'n', 110, rfl, by decide, by decide, by decide, by decide⟩
  split
  · subst c
    exact .inl ⟨'r', 114, rfl, by decide, by decide, by decide, by decide⟩
  split
  · subst c
    exact .inl ⟨'t', 116, rfl, by decide, by decide, by decide, by decide⟩
  split
  · rename_i code
    rw [← Char.ofNat_toNat c, code]
    exact .inl ⟨'b', 98, rfl, by decide, by decide, by decide, by decide⟩
  split
  · rename_i code
    rw [← Char.ofNat_toNat c, code]
    exact .inl ⟨'f', 102, rfl, by decide, by decide, by decide, by decide⟩
  split
  · rename_i control
    exact .inr (.inl ⟨rfl, control⟩)
  · rename_i unquoted unescaped _ _ _ _ _ printed
    exact .inr (.inr ⟨rfl, unquoted, unescaped, printed⟩)

theorem gives_readStringBytes_escapedChar {c : Char}
    (later : Gives (readStringBytes ((String.utf8EncodeChar c).reverse ++ read) input) bytes rest) :
    Gives (readStringBytes read (encoded (escapedChar c) ++ input)) bytes rest := by
  rcases escapedChar_cases c with ⟨mark, byte, same, _, single, other, escape⟩ |
    ⟨same, control⟩ | ⟨same, unquoted, unescaped, printed⟩
  · have written : encoded (escapedChar c) ++ input = 92 :: byte :: input := by
      rw [same, encoded_cons, encoded_cons, single]
      rfl
    rw [written]
    refine gives_readStringBytes_escape ⟨by simp, ?_⟩ later
    simp only [readEscape, if_neg other, escape]
  · rw [same]
    exact gives_readStringBytes_escape (gives_readEscape_control control input) later
  · rw [same, encoded_cons, encoded, List.flatMap_nil, List.append_nil]
    exact gives_readStringBytes_append
      (fun byte => unchanged_of_mem_utf8EncodeChar unquoted unescaped printed) later

theorem gives_readStringBytes_escaped (text : List Char) (read rest : List UInt8) :
    Gives (readStringBytes read (encoded (text.flatMap escapedChar) ++ 34 :: rest))
      ((encoded text).reverse ++ read) rest := by
  induction text generalizing read with
  | nil => exact gives_readStringBytes_closing
  | cons c others ih =>
      rw [List.flatMap_cons, encoded_append, List.append_assoc]
      apply gives_readStringBytes_escapedChar
      rw [encoded_cons, List.reverse_append, List.append_assoc]
      exact ih _

/-- A string is read from its text behind the opening quotation mark. -/
theorem gives_readString (text : String) (rest : List UInt8) :
    Gives (readString (encoded (text.toList.flatMap escapedChar) ++ 34 :: rest)) text rest := by
  obtain ⟨shorter, found⟩ :=
    gives_readStringBytes_escaped text.toList [] rest
  have decoded : Text.decodeUtf8 (encoded text.toList) = (text.toList, []) :=
    Text.decodeUtf8_utf8 text
  refine ⟨shorter, ?_⟩
  rw [List.append_nil] at found
  simp only [readString, found, bind, Except.bind, List.reverse_reverse, decoded,
    String.ofList_toList]
  rfl

end Strings

/-! ## Lines -/

theorem newline_notMem_escapedChar (c : Char) : '\n' ∉ escapedChar c := by
  rcases escapedChar_cases c with ⟨mark, _, same, noLine, _⟩ | ⟨same, control⟩ |
    ⟨same, _, _, printed⟩
  · simp [same, Ne.symm noLine]
  · have digit : ∀ digit < 16, '\n' ≠ Nat.digitChar digit := by decide
    simp [same, hexDigits, digit (c.toNat / 16) (by omega), digit (c.toNat % 16) (by omega)]
  · rw [same, List.mem_singleton]
    rintro rfl
    exact printed (by decide)

theorem newline_notMem_stringChars (text : String) : '\n' ∉ stringChars text := by
  simp [stringChars, newline_notMem_escapedChar]

/-! ## Objects -/

section Objects

variable (levels : Nat) (rest : List UInt8)

/-- A value is read from its compact text, whatever follows. -/
def Readable (value : Json) : Prop :=
  ∀ (levels : Nat) (rest : List UInt8),
    Gives (readValue levels (encoded value.chars ++ rest)) value rest

theorem encoded_stringChars (text : String) (rest : List UInt8) :
    encoded (stringChars text) ++ rest =
      34 :: (encoded (text.toList.flatMap escapedChar) ++ 34 :: rest) := by
  rw [stringChars, encoded_cons, encoded_append, List.append_assoc, List.append_assoc]
  rfl

theorem skipBlanks_cons {byte : UInt8} (input : List UInt8) (solid : isBlankByte byte = false) :
    skipBlanks (byte :: input) = byte :: input := by
  rw [skipBlanks, List.dropWhile_cons_of_neg (by simp [solid])]

theorem readable_string (text : String) : Readable (.string text) := by
  intro levels rest
  obtain ⟨shorter, found⟩ := gives_readString text rest
  rw [chars, encoded_stringChars]
  refine ⟨Nat.lt_succ_of_lt shorter, ?_⟩
  rw [readValue.eq_def]
  split
  · rename_i none
    rw [skipBlanks_cons _ (by decide)] at none
    cases none
  · rename_i byte others same
    rw [skipBlanks_cons _ (by decide)] at same
    cases same
    simp [found, bind, Except.bind, pure, Except.pure]

/-- A word is read where it stands. -/
theorem readWord_append (value : Json) (word rest : List UInt8) :
    ∃ bound, readWord value word (word ++ rest) = .ok (value, ⟨rest, bound⟩) := by
  induction word with
  | nil => exact ⟨Nat.le_refl _, rfl⟩
  | cons byte later ih =>
      obtain ⟨bound, reads⟩ := ih
      have goesOn : readWord value (byte :: later) (byte :: (later ++ rest)) =
          readWord value later (later ++ rest) >>= fun outcome =>
            pure (outcome.1, ⟨outcome.2.1, Nat.le_succ_of_le outcome.2.2⟩) := if_pos rfl
      rw [reads] at goesOn
      exact ⟨_, goesOn⟩

theorem readable_bool (value : Bool) : Readable (.bool value) := by
  intro levels rest
  have word (byte : UInt8) (others : List UInt8) (solid : isBlankByte byte = false)
      (word : byte = 116 ∧ others = [114, 117, 101] ∧ value = true ∨
        byte = 102 ∧ others = [97, 108, 115, 101] ∧ value = false) :
      Gives (readValue levels (byte :: (others ++ rest))) (.bool value) rest := by
    have bound : rest.length < (byte :: (others ++ rest)).length := by
      rw [List.length_cons, List.length_append]
      omega
    obtain ⟨_, spelled⟩ := readWord_append (.bool value) others rest
    refine ⟨bound, ?_⟩
    rw [readValue.eq_def]
    split
    · rename_i none
      cases (skipBlanks_cons _ solid).symm.trans none
    · rename_i first later same
      cases (skipBlanks_cons _ solid).symm.trans same
      rcases word with ⟨rfl, rfl, rfl⟩ | ⟨rfl, rfl, rfl⟩ <;>
        simp only [List.cons_append, List.nil_append] at spelled <;>
        simp [spelled, bind, Except.bind, pure, Except.pure]
  cases value with
  | true => exact word 116 [114, 117, 101] (by decide) (.inl ⟨rfl, rfl, rfl⟩)
  | false => exact word 102 [97, 108, 115, 101] (by decide) (.inr ⟨rfl, rfl, rfl⟩)

theorem gives_readMember (key : String) {value : Json} (readable : Readable value) :
    Gives (readMember (readValue levels)
      (encoded (stringChars key) ++ 58 :: (encoded value.chars ++ rest))) (key, value) rest := by
  obtain ⟨keyBound, readsKey⟩ := gives_readString key (58 :: (encoded value.chars ++ rest))
  obtain ⟨valueBound, readsValue⟩ := readable levels rest
  rw [encoded_stringChars]
  refine ⟨by simp only [List.length_cons] at keyBound ⊢; omega, ?_⟩
  rw [readMember]
  split
  · rename_i none
    cases (skipBlanks_cons _ (by decide)).symm.trans none
  · rename_i byte others same
    cases (skipBlanks_cons _ (by decide)).symm.trans same
    simp only [if_true, readsKey, bind, Except.bind]
    split
    · rename_i none
      cases (skipBlanks_cons _ (by decide)).symm.trans none
    · rename_i mark others same
      cases (skipBlanks_cons _ (by decide)).symm.trans same
      simp [readsValue, pure, Except.pure]

theorem encoded_laterMembers (key : String) (value : Json) (others : List (String × Json))
    (rest : List UInt8) :
    encoded (laterMembers ((key, value) :: others)) ++ rest =
      44 :: (encoded (stringChars key) ++
        58 :: (encoded value.chars ++ (encoded (laterMembers others) ++ rest))) := by
  rw [laterMembers, encoded_cons, encoded_append, encoded_cons, encoded_append]
  simp only [List.append_assoc]
  rfl

theorem gives_readComma (key : String) (rest : List UInt8) :
    Gives (readComma .object (44 :: (encoded (stringChars key) ++ rest))) ()
      (encoded (stringChars key) ++ rest) := by
  refine ⟨length_lt_cons _ _, ?_⟩
  rw [readComma, if_pos rfl]
  split
  · rename_i none
    rw [encoded_stringChars, skipBlanks_cons _ (by decide)] at none
    cases none
  · rename_i next later same
    rw [encoded_stringChars, skipBlanks_cons _ (by decide)] at same
    cases same
    rfl

/-- The members of an object after the first one are read up to the closing brace. -/
theorem gives_readEntries_laterMembers {members : List (String × Json)}
    (readable : ∀ member ∈ members, Readable member.2) :
    Gives (readEntries (readMember (readValue levels)) .object false
      (encoded (laterMembers members) ++ 125 :: rest)) members rest := by
  induction members with
  | nil =>
      refine ⟨by simp [laterMembers, encoded], ?_⟩
      rw [readEntries.eq_def]
      split
      · rename_i none
        cases (skipBlanks_cons _ (by decide)).symm.trans none
      · rename_i byte others same
        cases (skipBlanks_cons _ (by decide)).symm.trans same
        simp [Bracket.object]
  | cons member others ih =>
      obtain ⟨key, value⟩ := member
      obtain ⟨first, later⟩ := List.forall_mem_cons.mp readable
      obtain ⟨shorter, readsLater⟩ := ih later
      obtain ⟨bound, readsFirst⟩ := gives_readMember levels
        (encoded (laterMembers others) ++ 125 :: rest) key first
      rw [encoded_laterMembers]
      refine ⟨Nat.lt_trans shorter (Nat.lt_succ_of_lt bound), ?_⟩
      rw [readEntries.eq_def]
      split
      · rename_i none
        cases (skipBlanks_cons _ (by decide)).symm.trans none
      · rename_i byte others same
        cases (skipBlanks_cons _ (by decide)).symm.trans same
        obtain ⟨commaBound, readsComma⟩ := gives_readComma key
          (58 :: (encoded value.chars ++ (encoded (laterMembers others) ++ 125 :: rest)))
        rw [if_neg (by decide)]
        simp only [Bool.false_eq_true, if_false, readsComma, readsFirst, readsLater]

/-- The members of an object are read up to the closing brace. -/
theorem gives_readEntries_first {key : String} {value : Json} {members : List (String × Json)}
    (readable : ∀ member ∈ (key, value) :: members, Readable member.2) :
    Gives (readEntries (readMember (readValue levels)) .object true
      (encoded (stringChars key) ++
        58 :: (encoded value.chars ++ (encoded (laterMembers members) ++ 125 :: rest))))
      ((key, value) :: members) rest := by
  obtain ⟨first, later⟩ := List.forall_mem_cons.mp readable
  obtain ⟨shorter, readsLater⟩ :=
    gives_readEntries_laterMembers levels rest later
  have readsFirst :=
    gives_readMember levels (encoded (laterMembers members) ++ 125 :: rest) key first
  rw [encoded_stringChars] at readsFirst ⊢
  obtain ⟨bound, readsFirst⟩ := readsFirst
  refine ⟨Nat.lt_trans shorter bound, ?_⟩
  rw [readEntries.eq_def]
  split
  · rename_i none
    cases (skipBlanks_cons _ (by decide)).symm.trans none
  · rename_i byte others same
    cases (skipBlanks_cons _ (by decide)).symm.trans same
    rw [if_neg (by decide)]
    simp only [if_true, readsFirst, readsLater]

/-- An object of readable values is read from its compact text as its members in order. -/
theorem read_compact_object {key : String} {value : Json} {members : List (String × Json)}
    (readable : ∀ member ∈ (key, value) :: members, Readable member.2) :
    read (utf8 (compact (.object ((key, value) :: members)))) =
      .ok (.object (Table.orderedEntries ((key, value) :: members))) := by
  have bytes : utf8 (compact (.object ((key, value) :: members))) =
      123 :: (encoded (stringChars key) ++
        58 :: (encoded value.chars ++ (encoded (laterMembers members) ++ [125]))) := by
    rw [utf8, compact, String.toList_ofList, chars, ← encoded, encoded_cons, encoded_append,
      encoded_cons, encoded_append, encoded_append]
    rfl
  have inside := gives_readEntries_first (greatestNesting - 1) [] readable
  obtain ⟨shorter, inside⟩ := inside
  refine read_eq_object_iff.mpr ⟨(key, value) :: members, ?_, rfl⟩
  rw [bytes, writtenMembers?, skipBlanks_cons _ (by decide)]
  simp only [inside]
  rfl

end Objects

end AccessPolicy.Json

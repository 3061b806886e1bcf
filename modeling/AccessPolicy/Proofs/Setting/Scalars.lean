import AccessPolicy.Proofs.Setting.Fields
import AccessPolicy.Proofs.Text.Decoding

/-! # The scalars that values spell

The value of a variable is a scalar if it spells a boolean, an integer or a floating-point
number. Where a text is wanted, a scalar stands for its own text, so only a value that spells
none, or is the text of the one that it spells, is taken verbatim. What spells a scalar
consists of few different characters.
-/

namespace AccessPolicy.Environment

open Setting

/-- The boolean, the integer or the floating-point number that a value spells. -/
def scalar? (value : String) : Option Setting :=
  if value.toList.map Char.toLower = "true".toList then some (.boolean true)
  else if value.toList.map Char.toLower = "false".toList then some (.boolean false)
  else
    (((Number.integer? (Text.utf8 value)).filter fun n =>
      -Int.pow 2 63 ≤ n && n < Int.pow 2 63).map Setting.integer).or
      ((Number.floatLiteral? (Text.utf8 value)).map Setting.float)

/-- The text that a value stands for where a text is wanted. -/
def textOf (value : String) : String :=
  ((scalar? value).bind Setting.text?).getD value

/-- A value spells no scalar that has another text. -/
def Verbatim (value : String) : Prop :=
  ∀ scalar, scalar? value = some scalar → scalar.text? = some value

theorem settingOf_eq (key value : String) :
    settingOf key value =
      (scalar? value).getD
        (if key = directoriesKey then
          .list ((Text.splitOn ',' value.toList).map fun part => .text (String.ofList part))
        else .text value) := by
  have texts : "true".toList = ['t', 'r', 'u', 'e'] ∧ "false".toList = ['f', 'a', 'l', 's', 'e'] :=
    ⟨rfl, rfl⟩
  simp only [settingOf, scalar?, texts]
  by_cases yes : value.toList.map Char.toLower = ['t', 'r', 'u', 'e']
  · rw [if_pos yes, if_pos yes]
    rfl
  · by_cases no : value.toList.map Char.toLower = ['f', 'a', 'l', 's', 'e']
    · rw [if_neg yes, if_pos no, if_neg yes, if_pos no]
      rfl
    · rw [if_neg yes, if_neg no, if_neg yes, if_neg no]
      cases (Number.integer? (Text.utf8 value)).filter fun n =>
          -Int.pow 2 63 ≤ n && n < Int.pow 2 63 with
      | some n => rfl
      | none => cases Number.floatLiteral? (Text.utf8 value) <;> rfl

theorem scalar_cases {value : String} {scalar : Setting} (spells : scalar? value = some scalar) :
    (∃ truth, scalar = .boolean truth) ∨ (∃ n, scalar = .integer n) ∨ ∃ x, scalar = .float x := by
  unfold scalar? at spells
  split at spells
  · exact .inl ⟨true, (Option.some.inj spells).symm⟩
  · split at spells
    · exact .inl ⟨false, (Option.some.inj spells).symm⟩
    · rcases Option.or_eq_some_iff.mp spells with integer | ⟨_, float⟩
      · obtain ⟨n, _, rfl⟩ := Option.map_eq_some_iff.mp integer
        exact .inr (.inl ⟨n, rfl⟩)
      · obtain ⟨x, _, rfl⟩ := Option.map_eq_some_iff.mp float
        exact .inr (.inr ⟨x, rfl⟩)

/-- What a value writes replaces what is there. -/
theorem laidOver_settingOf (key value : String) (existing : Option Setting) :
    (settingOf key value).laidOver existing = settingOf key value := by
  rw [settingOf_eq]
  cases spells : scalar? value with
  | none =>
      rw [Option.getD_none]
      split <;> rfl
  | some scalar => rcases scalar_cases spells with ⟨_, rfl⟩ | ⟨_, rfl⟩ | ⟨_, rfl⟩ <;> rfl

/-- Where a text is wanted, a value stands for its text. -/
theorem text?_settingOf {key : String} (other : key ≠ directoriesKey) (value : String) :
    (settingOf key value).text? = some (textOf value) := by
  rw [settingOf_eq, if_neg other, textOf]
  cases spells : scalar? value with
  | none => rfl
  | some scalar => rcases scalar_cases spells with ⟨_, rfl⟩ | ⟨_, rfl⟩ | ⟨_, rfl⟩ <;> rfl

theorem textOf_eq_iff (value : String) : textOf value = value ↔ Verbatim value := by
  unfold textOf Verbatim
  cases spells : scalar? value with
  | none => simp
  | some scalar => rcases scalar_cases spells with ⟨_, rfl⟩ | ⟨_, rfl⟩ | ⟨_, rfl⟩ <;> simp [text?]

theorem texts?_list (texts : List String) :
    (Setting.list (texts.map .text)).texts? = some texts := by
  rw [texts?]
  induction texts with
  | nil => rfl
  | cons text rest ih =>
      rw [List.map_cons, List.mapM_cons, ih]
      rfl

/-- A value that spells a scalar is no list of texts, and any other value is that of its
parts. -/
theorem texts?_settingOf (value : String) :
    (settingOf directoriesKey value).texts? =
      if (scalar? value).isSome then none
      else some ((Text.splitOn ',' value.toList).map String.ofList) := by
  rw [settingOf_eq, if_pos rfl]
  cases spells : scalar? value with
  | none =>
      have parts := texts?_list ((Text.splitOn ',' value.toList).map String.ofList)
      rwa [List.map_map] at parts
  | some scalar => rcases scalar_cases spells with ⟨_, rfl⟩ | ⟨_, rfl⟩ | ⟨_, rfl⟩ <;> rfl

/-! ## The characters of scalars -/

/-- A byte that occurs in what spells a number. -/
def isNumeralByte (byte : UInt8) : Bool :=
  Number.isDigit byte || [43, 45, 46].contains byte ||
    [97, 101, 102, 105, 110, 116, 121].contains (Number.lowerByte byte)

theorem isNumeralByte_of_isDigit {byte : UInt8} (digit : Number.isDigit byte = true) :
    isNumeralByte byte = true := by
  simp [isNumeralByte, digit]

theorem isNumeralByte_of_letter {byte : UInt8}
    (letter : Number.lowerByte byte ∈ [97, 101, 102, 105, 110, 116, 121]) :
    isNumeralByte byte = true := by
  rw [isNumeralByte, List.contains_iff_mem.mpr letter, Bool.or_true]

theorem mem_splitSign {byte : UInt8} {text : List UInt8} (member : byte ∈ text) :
    isNumeralByte byte = true ∨ byte ∈ (Number.splitSign text).2 := by
  unfold Number.splitSign
  split
  · rcases List.mem_cons.mp member with rfl | later
    · exact .inl (by decide)
    · exact .inr later
  · rcases List.mem_cons.mp member with rfl | later
    · exact .inl (by decide)
    · exact .inr later
  · exact .inr member

theorem mem_leadingDigits {byte : UInt8} {text : List UInt8} (member : byte ∈ text) :
    isNumeralByte byte = true ∨ byte ∈ (Number.leadingDigits text).2 := by
  rw [← Number.append_leadingDigits text] at member
  rcases List.mem_append.mp member with digit | later
  · exact .inl (isNumeralByte_of_isDigit (List.mem_takeWhile_imp digit))
  · exact .inr later

theorem mem_fractionDigits {byte : UInt8} {text : List UInt8} (member : byte ∈ text) :
    isNumeralByte byte = true ∨ byte ∈ (Number.fractionDigits text).2 := by
  unfold Number.fractionDigits
  split
  · rcases List.mem_cons.mp member with rfl | later
    · exact .inl (by decide)
    · exact mem_leadingDigits later
  · exact .inr member

theorem numeral_of_integer? {text : List UInt8} {n : Int} (reads : Number.integer? text = some n) :
    ∀ byte ∈ text, isNumeralByte byte = true := by
  intro byte member
  rcases mem_splitSign member with sign | later
  · exact sign
  · by_cases digits : (Number.splitSign text).2 ≠ [] ∧
        (Number.splitSign text).2.all Number.isDigit
    · exact isNumeralByte_of_isDigit (List.all_eq_true.mp digits.2 byte later)
    · simp only [Number.integer?, Number.natural?, if_neg digits] at reads
      contradiction

theorem numeral_of_exponentLiteral? {text : List UInt8} {n : Int}
    (reads : Number.exponentLiteral? text = some n) :
    ∀ byte ∈ text, isNumeralByte byte = true := by
  unfold Number.exponentLiteral? at reads
  split at reads
  · simp
  · split at reads
    · rename_i mark rest letter
      refine List.forall_mem_cons.mpr ⟨?_, numeral_of_integer? reads⟩
      rcases letter with rfl | rfl <;> decide
    · contradiction

theorem numeral_of_decimalLiteral? {text : List UInt8} {parts : Bool × Nat × Int}
    (reads : Number.decimalLiteral? text = some parts) :
    ∀ byte ∈ text, isNumeralByte byte = true := by
  intro byte member
  simp only [Number.decimalLiteral?] at reads
  split at reads
  · contradiction
  · obtain ⟨exponent, written, _⟩ := Option.bind_eq_some_iff.mp reads
    rcases mem_splitSign member with sign | member
    · exact sign
    · rcases mem_leadingDigits member with digit | member
      · exact digit
      · rcases mem_fractionDigits member with digit | member
        · exact digit
        · exact numeral_of_exponentLiteral? written byte member

theorem numeral_of_floatLiteral? {text : List UInt8} {x : Number.Extended}
    (reads : Number.floatLiteral? text = some x) :
    ∀ byte ∈ text, isNumeralByte byte = true := by
  intro byte member
  cases decimal : Number.decimalLiteral? text with
  | some parts => exact numeral_of_decimalLiteral? decimal byte member
  | none =>
      -- The text is a word after its sign.
      rcases mem_splitSign member with sign | later
      · exact sign
      · have letter (word : List UInt8) (inside : word ⊆ [97, 101, 102, 105, 110, 116, 121])
            (same : (Number.splitSign text).2.map Number.lowerByte = word) :
            isNumeralByte byte = true :=
          isNumeralByte_of_letter (inside (same ▸ List.mem_map_of_mem later))
        simp only [Number.floatLiteral?, decimal] at reads
        split at reads
        · rename_i infinity
          exact infinity.elim (letter _ (by decide)) (letter _ (by decide))
        · split at reads
          · rename_i notANumber
            exact letter _ (by decide) notANumber
          · contradiction

/-- The characters that occur in what spells a scalar. -/
def scalarChars : List Char :=
  "+-.0123456789aefilnrstuyAEFILNRSTUY".toList

theorem utf8EncodeChar_cases (c : Char) :
    (c.toNat < 128 ∧ String.utf8EncodeChar c = [UInt8.ofNat c.toNat]) ∨
      ∃ byte ∈ String.utf8EncodeChar c, 128 ≤ byte.toNat := by
  have last : (UInt8.ofNat (c.toNat % 64 + 128)).toNat = c.toNat % 64 + 128 :=
    Text.toNat_ofNat (by omega)
  unfold String.utf8EncodeChar
  extract_lets code
  have isCode : code = c.toNat := rfl
  rw [← isCode] at last ⊢
  clear_value code
  split
  · exact .inl ⟨by omega, rfl⟩
  · refine .inr ⟨UInt8.ofNat (code % 64 + 128), ?_, by omega⟩
    split
    · simp
    · split <;> simp

theorem mem_scalarChars_of_numeral {c : Char}
    (numeral : ∀ byte ∈ String.utf8EncodeChar c, isNumeralByte byte = true) :
    c ∈ scalarChars := by
  have ascii : ∀ code < 128, isNumeralByte (UInt8.ofNat code) = true →
      Char.ofNat code ∈ scalarChars := by decide +kernel
  have small : ∀ code < 256, isNumeralByte (UInt8.ofNat code) = true → code < 128 := by
    decide +kernel
  rcases utf8EncodeChar_cases c with ⟨less, encoded⟩ | ⟨byte, member, large⟩
  · rw [encoded] at numeral
    have found := ascii c.toNat less (numeral _ (List.mem_singleton_self _))
    rwa [Char.ofNat_toNat] at found
  · have isNumeral := numeral byte member
    rw [← UInt8.ofNat_toNat (x := byte)] at isNumeral
    have less := small byte.toNat byte.toNat_lt isNumeral
    omega

theorem mem_scalarChars_of_toLower {c : Char} (letter : c.toLower ∈ "truefalse".toList) :
    c ∈ scalarChars := by
  have ascii : ∀ code < 128, (Char.ofNat code).toLower ∈ "truefalse".toList →
      Char.ofNat code ∈ scalarChars := by decide +kernel
  have small : ("truefalse".toList.all fun d => d.toNat < 128) = true := by decide
  have less : c.toNat < 128 := by
    by_cases upper : c.isUpper = true
    · simp only [Char.isUpper, ge_iff_le, UInt32.le_iff_toNat_le, decide_eq_true_eq] at upper
      exact Nat.lt_of_le_of_lt upper.2 (by decide)
    · rw [Char.toLower_eq_of_not_isUpper upper] at letter
      exact of_decide_eq_true (List.all_eq_true.mp small c letter)
  have found := ascii c.toNat less
  rw [Char.ofNat_toNat] at found
  exact found letter

/-- A value with any other character spells no scalar. -/
theorem scalar?_eq_none {value : String} {c : Char} (member : c ∈ value.toList)
    (other : c ∉ scalarChars) : scalar? value = none := by
  have notWord (word : List Char) (inside : word ⊆ "truefalse".toList) :
      value.toList.map Char.toLower ≠ word := fun same =>
    other (mem_scalarChars_of_toLower (inside (same ▸ List.mem_map_of_mem member)))
  have notNumeral : ¬ ∀ byte ∈ Text.utf8 value, isNumeralByte byte = true := fun numeral =>
    other (mem_scalarChars_of_numeral fun byte among =>
      numeral byte (List.mem_flatMap.mpr ⟨c, member, among⟩))
  have noInteger : Number.integer? (Text.utf8 value) = none :=
    Option.eq_none_iff_forall_ne_some.mpr fun _ reads => notNumeral (numeral_of_integer? reads)
  have noFloat : Number.floatLiteral? (Text.utf8 value) = none :=
    Option.eq_none_iff_forall_ne_some.mpr fun _ reads => notNumeral (numeral_of_floatLiteral? reads)
  rw [scalar?, if_neg (notWord _ (by decide)), if_neg (notWord _ (by decide)), noInteger, noFloat]
  rfl

/-- So such a value is taken verbatim. -/
theorem verbatim_of_mem {value : String} {c : Char} (member : c ∈ value.toList)
    (other : c ∉ scalarChars) : Verbatim value := by
  intro scalar spells
  rw [scalar?_eq_none member other] at spells
  contradiction

end AccessPolicy.Environment

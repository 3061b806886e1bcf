import AccessPolicy.Proofs.Json.Members
import AccessPolicy.Proofs.Number.Rounding

/-! # Texts of JSON numbers

A number text is a sign, digits, and perhaps a fraction and an exponent. It denotes an
integer if it is written as one that fits 64 bits, apart from `-0`; otherwise it denotes the
float that its exact value rounds to. What the reader makes of a number text is what the
text denotes, provided that a float is rounded correctly.
-/

namespace AccessPolicy

namespace Number

/-- Digits end where the next byte is none. -/
theorem leadingDigits_append {digits rest : List UInt8}
    (all : ∀ byte ∈ digits, isDigit byte = true)
    (stop : ∀ byte ∈ rest.head?, isDigit byte = false) :
    leadingDigits (digits ++ rest) = (digits, rest) := by
  have none : rest.takeWhile isDigit = [] ∧ rest.dropWhile isDigit = rest := by
    cases rest with
    | nil => exact ⟨rfl, rfl⟩
    | cons byte later => simp [stop byte rfl]
  rw [leadingDigits, List.takeWhile_append_of_pos all, List.dropWhile_append_of_pos all, none.1,
    none.2, List.append_nil]

theorem Integer64.ofInt?_eq_some {value : ℤ} {n : Integer64} (made : ofInt? value = some n) :
    ∃ fits, n = ⟨value, fits⟩ := by
  unfold ofInt? at made
  split at made
  · rename_i fits
    exact ⟨fits, (Option.some.inj made).symm⟩
  · contradiction

theorem Integer64.ofInt?_of_fits {value : ℤ} (fits : FitsWord value) :
    ofInt? value = some ⟨value, fits⟩ :=
  dif_pos fits

end Number

namespace Json

open Number

/-- The exponent of a number text. -/
structure ExponentText where
  mark : UInt8
  sign : List UInt8
  digits : List UInt8
  isMark : mark = 101 ∨ mark = 69
  isSign : sign = [] ∨ sign = [43] ∨ sign = [45]
  present : digits ≠ []
  isDigits : ∀ byte ∈ digits, isDigit byte = true

/-- The text of a number. An empty fraction has no point. -/
structure NumberText where
  negative : Bool
  integer : List UInt8
  fraction : List UInt8
  exponent : Option ExponentText
  present : integer ≠ []
  isInteger : ∀ byte ∈ integer, isDigit byte = true
  noLeadingZero : integer.head? = some 48 → integer = [48]
  isFraction : ∀ byte ∈ fraction, isDigit byte = true

namespace ExponentText

def bytes (exponent : ExponentText) : List UInt8 :=
  exponent.mark :: (exponent.sign ++ exponent.digits)

def value (exponent : ExponentText) : ℤ :=
  if exponent.sign = [45] then -ofDigits exponent.digits else ofDigits exponent.digits

end ExponentText

namespace NumberText

def fractionBytes : List UInt8 → List UInt8
  | [] => []
  | digit :: more => 46 :: digit :: more

def exponentBytes : Option ExponentText → List UInt8
  | none => []
  | some exponent => exponent.bytes

/-- The bytes of a number text behind its sign. -/
def unsigned (text : NumberText) : List UInt8 :=
  text.integer ++ (fractionBytes text.fraction ++ exponentBytes text.exponent)

def bytes (text : NumberText) : List UInt8 :=
  if text.negative then 45 :: text.unsigned else text.unsigned

/-- The power of ten of an exponent. -/
def power (text : NumberText) : ℤ :=
  (text.exponent.map ExponentText.value).getD 0

/-- The exact magnitude that is written. -/
def magnitude (text : NumberText) : ℚ :=
  ofDigits (text.integer ++ text.fraction) * 10 ^ (text.power - text.fraction.length)

/-- The digits in front of the point with the sign. -/
def signedInteger (text : NumberText) : ℤ :=
  if text.negative then -ofDigits text.integer else ofDigits text.integer

/-- The texts of integers of 64 bits; `-0` is not one. -/
def WritesInteger (text : NumberText) : Prop :=
  text.fraction = [] ∧ text.exponent = none ∧ FitsWord text.signedInteger ∧
    ¬(text.negative = true ∧ ofDigits text.integer = 0)

/-- The number that a text is to be read as. -/
def Denotes (text : NumberText) : Numeral → Prop
  | .integer n => text.WritesInteger ∧ n.value = text.signedInteger
  | .float x => ¬text.WritesInteger ∧ x.negative = text.negative ∧ x.Rounds text.magnitude

/-! ## What follows a part -/

/-- An exponent does not begin with a digit or a point. -/
theorem stop_exponentBytes (exponent : Option ExponentText) :
    ∀ byte ∈ (exponentBytes exponent).head?, isDigit byte = false ∧ byte ≠ 46 := by
  cases exponent with
  | none => exact fun _ member => nomatch member
  | some exponent =>
      rintro _ ⟨⟩
      rcases exponent.isMark with mark | mark <;> rw [mark] <;> exact ⟨rfl, by decide⟩

theorem isDigit_head_fractionBytes (fraction : List UInt8) (exponent : Option ExponentText) :
    ∀ byte ∈ (fractionBytes fraction ++ exponentBytes exponent).head?, isDigit byte = false := by
  cases fraction with
  | nil => exact fun byte head => (stop_exponentBytes exponent byte head).1
  | cons digit more =>
      rintro _ ⟨⟩
      rfl

theorem isDigit_head_unsigned (text : NumberText) :
    ∀ byte ∈ text.unsigned.head?, isDigit byte = true := by
  intro byte head
  rw [unsigned, List.head?_append_of_ne_nil _ text.present] at head
  exact text.isInteger byte (List.mem_of_mem_head? head)

end NumberText

/-! ## Reading the parts -/

open NumberText

theorem readInteger_append {digits rest : List UInt8} (present : digits ≠ [])
    (all : ∀ byte ∈ digits, isDigit byte = true)
    (noLeadingZero : digits.head? = some 48 → digits = [48])
    (stop : ∀ byte ∈ rest.head?, isDigit byte = false) :
    ∃ shorter, readInteger (digits ++ rest) = .ok ⟨digits, rest, shorter⟩ := by
  have shorter : rest.length < (digits ++ rest).length := by
    have := List.length_pos_of_ne_nil present
    rw [List.length_append]
    omega
  refine ⟨shorter, ?_⟩
  cases digits with
  | nil => contradiction
  | cons first more =>
      obtain ⟨digit, digits⟩ := List.forall_mem_cons.mp all
      by_cases zero : first = 48
      · cases noLeadingZero (congrArg some zero)
        cases rest with
        | nil => rfl
        | cons next later =>
            simp only [List.cons_append, List.nil_append, readInteger, digit, stop next rfl,
              Bool.not_true, Bool.false_eq_true, if_false, if_true]
      · simp only [List.cons_append, readInteger, digit, zero, leadingDigits_append digits stop,
          Bool.not_true, Bool.false_eq_true, if_false]

theorem readFraction_append {fraction rest : List UInt8}
    (all : ∀ byte ∈ fraction, isDigit byte = true)
    (stop : ∀ byte ∈ rest.head?, isDigit byte = false ∧ byte ≠ 46) :
    ∃ bound, readFraction (fractionBytes fraction ++ rest) = .ok (fraction, ⟨rest, bound⟩) := by
  have bound : rest.length ≤ (fractionBytes fraction ++ rest).length := by
    rw [List.length_append]
    omega
  refine ⟨bound, ?_⟩
  cases fraction with
  | nil =>
      change readFraction rest = .ok ([], ⟨rest, Nat.le_refl _⟩)
      unfold readFraction
      split
      · exact absurd rfl (stop 46 rfl).2
      · rfl
  | cons digit more =>
      have read : leadingDigits (digit :: more ++ rest) = (digit :: more, rest) :=
        leadingDigits_append all fun byte head => (stop byte head).1
      simp only [fractionBytes, List.cons_append, readFraction] at read ⊢
      simp only [read]

theorem readSign_append {sign digits : List UInt8}
    (isSign : sign = [] ∨ sign = [43] ∨ sign = [45])
    (start : ∀ byte ∈ digits.head?, isDigit byte = true) :
    ∃ bound, readSign (sign ++ digits) = (decide (sign = [45]), ⟨digits, bound⟩) := by
  rcases isSign with rfl | rfl | rfl
  · refine ⟨Nat.le_refl _, ?_⟩
    change readSign digits = (false, ⟨digits, Nat.le_refl _⟩)
    unfold readSign
    split
    · exact absurd (start 43 rfl) (by decide)
    · exact absurd (start 45 rfl) (by decide)
    · rfl
  · exact ⟨Nat.le_succ _, rfl⟩
  · exact ⟨Nat.le_succ _, rfl⟩

/-- The exponent that is read is the one that is written. -/
theorem value_of_readExponent {isZero : Bool} {exponent : Option ExponentText}
    {outcome : Option ℤ × Remainder (exponentBytes exponent)}
    (read : readExponent isZero (exponentBytes exponent) = .ok outcome) :
    outcome.1 = exponent.map ExponentText.value := by
  cases exponent with
  | none =>
      cases read
      rfl
  | some exponent =>
      obtain ⟨mark, sign, digits, isMark, isSign, present, isDigits⟩ := exponent
      have start : ∀ byte ∈ digits.head?, isDigit byte = true := fun byte head =>
        isDigits byte (List.mem_of_mem_head? head)
      have run : leadingDigits (digits ++ []) = (digits, []) :=
        leadingDigits_append isDigits nofun
      rw [List.append_nil] at run
      obtain ⟨bound, signed⟩ := readSign_append isSign start
      simp only [exponentBytes, ExponentText.bytes, readExponent, if_pos isMark, signed] at read
      split at read
      · cases read
      · rename_i next later _ rest _
        rw [signed] at rest
        cases rest
        rw [start next rfl] at read
        simp only [run, Bool.not_true, Bool.false_eq_true, if_false] at read
        split at read
        · cases read
        · cases read
          simp only [ExponentText.value, Option.map_some, decide_eq_true_eq]

theorem readMinus_of_digit {input : List UInt8}
    (start : ∀ byte ∈ input.head?, isDigit byte = true) :
    readMinus input = (false, ⟨input, Nat.le_refl _⟩) := by
  unfold readMinus
  split
  · exact absurd (start 45 rfl) (by decide)
  · rfl

theorem readMinus_bytes (text : NumberText) :
    ∃ bound, readMinus text.bytes = (text.negative, ⟨text.unsigned, bound⟩) := by
  unfold NumberText.bytes
  cases text.negative with
  | true => exact ⟨Nat.le_succ _, rfl⟩
  | false => exact ⟨Nat.le_refl _, readMinus_of_digit text.isDigit_head_unsigned⟩

/-- The parts that are read of a number text are those that are written. -/
theorem ofParts?_of_readNumeral {text : NumberText} {input : List UInt8}
    {parsed : Parsed Numeral input} (spelled : input = text.bytes)
    (read : readNumeral input = .ok parsed) :
    Numeral.ofParts? text.negative text.integer text.fraction
      (text.exponent.map ExponentText.value) = some parsed.value := by
  subst spelled
  obtain ⟨bound, minus⟩ := readMinus_bytes text
  unfold readNumeral at read
  rw [minus] at read
  obtain ⟨integer, readsInteger, read⟩ := bind_eq_ok.mp read
  obtain ⟨integerBound, exactInteger⟩ := readInteger_append text.present text.isInteger
    text.noLeadingZero (isDigit_head_fractionBytes text.fraction text.exponent)
  cases exactInteger.symm.trans readsInteger
  obtain ⟨fraction, readsFraction, read⟩ := bind_eq_ok.mp read
  obtain ⟨fractionBound, exactFraction⟩ := readFraction_append text.isFraction
    (stop_exponentBytes text.exponent)
  cases exactFraction.symm.trans readsFraction
  obtain ⟨⟨exponent, rest, restBound⟩, readsExponent, read⟩ := bind_eq_ok.mp read
  rw [← value_of_readExponent readsExponent]
  dsimp only at read ⊢
  split at read
  · rename_i made
    cases read
    exact made
  · cases read

theorem isBlankByte_of_digit {byte : UInt8} (digit : isDigit byte = true) :
    isBlankByte byte = false := by
  rw [Bool.eq_false_iff]
  intro blank
  simp only [isBlankByte, Bool.or_eq_true, beq_iff_eq] at blank
  rcases blank with ((rfl | rfl) | rfl) | rfl <;> exact absurd digit (by decide)

theorem skipBlanks_of_digit {input : List UInt8}
    (start : ∀ byte ∈ input.head?, isDigit byte = true) :
    skipBlanks input = input := by
  cases input with
  | nil => rfl
  | cons byte rest =>
      exact List.dropWhile_cons_of_neg (by rw [isBlankByte_of_digit (start byte rfl)]; nofun)

theorem skipBlanks_bytes (text : NumberText) : skipBlanks text.bytes = text.bytes := by
  unfold NumberText.bytes
  cases text.negative with
  | true => rfl
  | false => exact skipBlanks_of_digit text.isDigit_head_unsigned

/-- What is read of a number text is made of its parts. -/
theorem ofParts?_of_read {text : NumberText} {number : Numeral}
    (reads : read text.bytes = .ok (.number number)) :
    Numeral.ofParts? text.negative text.integer text.fraction
      (text.exponent.map ExponentText.value) = some number := by
  obtain ⟨parsed, inside, value⟩ := exists_parsed_of_read reads
  obtain ⟨numeral, readsNumeral, rfl⟩ := readNumeral_of_readValue inside value
  exact ofParts?_of_readNumeral (skipBlanks_bytes text) readsNumeral

/-! ## What a text denotes -/

namespace NumberText

variable {text : NumberText}

theorem negative_of_floatOfParts? {negative : Bool} {integer fraction : List UInt8} {exponent : ℤ}
    {x : Binary64} (made : floatOfParts? negative integer fraction exponent = some x) :
    x.negative = negative := by
  obtain ⟨y, -, rfl⟩ := Option.map_eq_some_iff.mp made
  rfl

/-- A number made of the parts of a text is what the text denotes, if a float is the one the
text rounds to. -/
theorem denotes_of_ofParts? {number : Numeral}
    (made : Numeral.ofParts? text.negative text.integer text.fraction
      (text.exponent.map ExponentText.value) = some number)
    (rounded : ∀ x, number = .float x → x.Rounds text.magnitude) : text.Denotes number := by
  have float {exponent : ℤ} (other : ¬text.WritesInteger)
      (made : (floatOfParts? text.negative text.integer text.fraction exponent).map
        Numeral.float = some number) : text.Denotes number := by
    obtain ⟨x, parts, rfl⟩ := Option.map_eq_some_iff.mp made
    exact ⟨other, negative_of_floatOfParts? parts, rounded x rfl⟩
  rw [Numeral.ofParts?.eq_def] at made
  split at made
  · rename_i whole bare
    have exponent : text.exponent = none := Option.map_eq_none_iff.mp bare
    dsimp only at made
    split at made
    · rename_i minusZero
      simp only [Bool.and_eq_true, beq_iff_eq] at minusZero
      exact float (fun integer => integer.2.2.2 minusZero) made
    · rename_i other
      simp only [Bool.and_eq_true, beq_iff_eq] at other
      split at made
      · rename_i n fits
        cases made
        obtain ⟨word, rfl⟩ := Integer64.ofInt?_eq_some fits
        exact ⟨⟨whole, exponent, word, other⟩, rfl⟩
      · rename_i beyond
        refine float (fun integer => ?_) made
        cases (Integer64.ofInt?_of_fits integer.2.2.1).symm.trans beyond
  · rename_i other
    refine float (fun integer => other integer.1 ?_) made
    rw [integer.2.1, Option.map_none]

/-- A text denotes one number at most. -/
theorem Denotes.unique {first second : Numeral} (denotes : text.Denotes first)
    (denotes' : text.Denotes second) : first = second := by
  cases first with
  | integer n =>
      cases second with
      | integer m =>
          have same : n.value = m.value := denotes.2.trans denotes'.2.symm
          obtain ⟨value, fits⟩ := n
          obtain ⟨_, _⟩ := m
          cases same
          rfl
      | float y => exact absurd denotes.1 denotes'.1
  | float x =>
      cases second with
      | integer m => exact absurd denotes'.1 denotes.1
      | float y =>
          have sign : x.negative = y.negative := denotes.2.1.trans denotes'.2.1.symm
          have magnitude := denotes.2.2.magnitude_eq denotes'.2.2
          rw [Binary64.eq_of_magnitude_eq sign magnitude]

end NumberText

end Json

end AccessPolicy

import AccessPolicy.Proofs.Json.NumberText
import AccessPolicy.Proofs.Number.Nearest
import AccessPolicy.Proofs.Operand.Attribute
import AccessPolicy.Proofs.Text.ByteOrder

/-! # Number literals of operands

An operand that is a JSON number text writes the number that the text denotes: the same
parts are found, integers of 64 bits are kept as integers, and other numbers are rounded to
the nearest float. The exception is `-0`, which is the integer zero for an operand. So a
literal agrees with an attribute whose value is written as the literal.
-/

namespace AccessPolicy

namespace Number

open Json

/-! ## Parts of a literal -/

theorem splitSign_of_digit {input : List UInt8}
    (start : ∀ byte ∈ input.head?, isDigit byte = true) :
    splitSign input = (false, input) := by
  unfold splitSign
  split
  · exact absurd (start 43 rfl) (by decide)
  · exact absurd (start 45 rfl) (by decide)
  · rfl

theorem natural?_digits {digits : List UInt8} (present : digits ≠ [])
    (all : ∀ byte ∈ digits, isDigit byte = true) : natural? digits = some (ofDigits digits) :=
  if_pos ⟨present, List.all_eq_true.mpr all⟩

theorem natural?_eq_none {input : List UInt8} {byte : UInt8} (member : byte ∈ input)
    (other : isDigit byte = false) : natural? input = none := by
  refine if_neg fun digits => ?_
  have digit := List.all_eq_true.mp digits.2 byte member
  rw [other] at digit
  cases digit

/-- An integer is its digits with its sign. -/
theorem integer?_of_parts {input digits : List UInt8} {negative : Bool} {magnitude : ℕ}
    (parts : splitSign input = (negative, digits)) (value : natural? digits = some magnitude) :
    integer? input = some (if negative then -(magnitude : ℤ) else magnitude) := by
  simp only [integer?, parts, value]
  rfl

theorem integer?_eq_none {input digits : List UInt8} {negative : Bool}
    (parts : splitSign input = (negative, digits)) (value : natural? digits = none) :
    integer? input = none := by
  simp only [integer?, parts, value]
  rfl

theorem exponentLiteral?_exponentBytes (exponent : Option ExponentText) :
    exponentLiteral? (NumberText.exponentBytes exponent) =
      some ((exponent.map ExponentText.value).getD 0) := by
  cases exponent with
  | none => rfl
  | some exponent =>
      obtain ⟨mark, sign, digits, isMark, isSign, present, isDigits⟩ := exponent
      have start : ∀ byte ∈ digits.head?, isDigit byte = true := fun byte head =>
        isDigits byte (List.mem_of_mem_head? head)
      have parts : splitSign (sign ++ digits) = (decide (sign = [45]), digits) := by
        rcases isSign with rfl | rfl | rfl
        · exact splitSign_of_digit start
        · rfl
        · rfl
      simp only [NumberText.exponentBytes, ExponentText.bytes, exponentLiteral?, if_pos isMark,
        integer?_of_parts parts (natural?_digits present isDigits), Option.map_some,
        ExponentText.value, Option.getD_some, decide_eq_true_eq]

theorem fractionDigits_append {fraction rest : List UInt8}
    (all : ∀ byte ∈ fraction, isDigit byte = true)
    (stop : ∀ byte ∈ rest.head?, isDigit byte = false ∧ byte ≠ 46) :
    fractionDigits (NumberText.fractionBytes fraction ++ rest) = (fraction, rest) := by
  cases fraction with
  | nil =>
      change fractionDigits rest = ([], rest)
      unfold fractionDigits
      split
      · exact absurd rfl (stop 46 rfl).2
      · rfl
  | cons digit more => exact leadingDigits_append all fun byte head => (stop byte head).1

/-- Digits that do not begin with a zero are not zero. -/
theorem ofDigits_ne_zero {first : UInt8} (digit : isDigit first = true) (nonzero : first ≠ 48)
    (more : List UInt8) : ofDigits (first :: more) ≠ 0 := by
  have grows : ∀ start : ℕ, 0 < start →
      0 < more.foldl (fun value byte => 10 * value + (byte.toNat - 48)) start := by
    induction more with
    | nil => exact fun _ positive => positive
    | cons byte rest ih =>
        intro start positive
        rw [List.foldl_cons]
        exact ih _ (by omega)
  have least : 48 ≤ first.toNat := by
    simp only [isDigit, Bool.and_eq_true, decide_eq_true_eq] at digit
    exact digit.1
  have other : first.toNat ≠ 48 := fun same => nonzero (UInt8.toNat_inj.mp same)
  exact (grows (10 * 0 + (first.toNat - 48)) (by omega)).ne'

end Number

namespace Json.NumberText

open Number

variable {text : NumberText}

theorem splitSign_bytes (text : NumberText) :
    splitSign text.bytes = (text.negative, text.unsigned) := by
  unfold bytes
  cases text.negative with
  | true => rfl
  | false => exact splitSign_of_digit text.isDigit_head_unsigned

/-- A literal has the parts of the text it is. -/
theorem decimalLiteral?_bytes (text : NumberText) :
    decimalLiteral? text.bytes =
      some (text.negative, ofDigits (text.integer ++ text.fraction),
        text.power - text.fraction.length) := by
  have integer : leadingDigits text.unsigned =
      (text.integer, fractionBytes text.fraction ++ exponentBytes text.exponent) :=
    leadingDigits_append text.isInteger (isDigit_head_fractionBytes text.fraction text.exponent)
  have fraction : fractionDigits (fractionBytes text.fraction ++ exponentBytes text.exponent) =
      (text.fraction, exponentBytes text.exponent) :=
    fractionDigits_append text.isFraction (stop_exponentBytes text.exponent)
  simp only [decimalLiteral?, splitSign_bytes, integer, fraction, text.present, false_and, if_false,
    exponentLiteral?_exponentBytes]
  rfl

theorem integer?_bytes (bare : text.fraction = [] ∧ text.exponent = none) :
    integer? text.bytes = some text.signedInteger := by
  have unsigned : text.unsigned = text.integer := by
    rw [NumberText.unsigned, bare.1, bare.2]
    exact List.append_nil _
  refine integer?_of_parts text.splitSign_bytes ?_
  rw [unsigned, natural?_digits text.present text.isInteger]

theorem integer?_bytes_eq_none (parts : ¬(text.fraction = [] ∧ text.exponent = none)) :
    integer? text.bytes = none := by
  refine integer?_eq_none text.splitSign_bytes ?_
  have follows : fractionBytes text.fraction ++ exponentBytes text.exponent ≠ [] := by
    cases fraction : text.fraction with
    | cons digit more => exact List.cons_ne_nil _ _
    | nil =>
        cases exponent : text.exponent with
        | some exponent => exact List.cons_ne_nil _ _
        | none => exact absurd ⟨fraction, exponent⟩ parts
  obtain ⟨byte, rest, spelled⟩ := List.exists_cons_of_ne_nil follows
  have stop := isDigit_head_fractionBytes text.fraction text.exponent byte (by rw [spelled]; rfl)
  have member : byte ∈ text.unsigned := by
    rw [unsigned, spelled]
    exact List.mem_append_right _ List.mem_cons_self
  exact natural?_eq_none member stop

/-- `-0` is the one text of an integer that fits 64 bits and is not an integer. -/
theorem bytes_eq_minusZero (bare : text.fraction = [] ∧ text.exponent = none)
    (below : text.negative = true) (zero : ofDigits text.integer = 0) : text.bytes = [45, 48] := by
  have integer : text.integer = [48] := by
    obtain ⟨first, more, digits⟩ := List.exists_cons_of_ne_nil text.present
    have digit := text.isInteger first (digits ▸ List.mem_cons_self)
    by_cases leading : first = 48
    · exact text.noLeadingZero (by rw [digits, leading]; rfl)
    · rw [digits] at zero
      exact absurd zero (ofDigits_ne_zero digit leading more)
  rw [bytes, if_pos below, unsigned, integer, bare.1, bare.2]
  rfl

/-- Apart from `-0` a text writes an integer literal exactly when it writes an integer. -/
theorem integerLiteral?_bytes (other : text.bytes ≠ [45, 48]) :
    (∃ integer : text.WritesInteger,
        integerLiteral? text.bytes = some ⟨text.signedInteger, integer.2.2.1⟩) ∨
      ¬text.WritesInteger ∧ integerLiteral? text.bytes = none := by
  by_cases bare : text.fraction = [] ∧ text.exponent = none
  · by_cases fits : FitsWord text.signedInteger
    · have integer : text.WritesInteger := ⟨bare.1, bare.2, fits, fun minusZero =>
        other (bytes_eq_minusZero bare minusZero.1 minusZero.2)⟩
      refine .inl ⟨integer, ?_⟩
      rw [integerLiteral?, integer?_bytes bare, Option.bind_some, Integer64.ofInt?_of_fits fits]
    · refine .inr ⟨fun integer => fits integer.2.2.1, ?_⟩
      rw [integerLiteral?, integer?_bytes bare, Option.bind_some]
      exact dif_neg fits
  · refine .inr ⟨fun integer => bare ⟨integer.1, integer.2.1⟩, ?_⟩
    rw [integerLiteral?, integer?_bytes_eq_none bare, Option.bind_none]

end Json.NumberText

namespace Operand

open Json Number

variable {literal field : String} {text : NumberText} {number : Numeral}

/-- An operand that is a number text writes the number that the text denotes, unless it is
`-0`. -/
theorem numeral?_of_denotes (spelled : Text.utf8 literal = text.bytes) (other : literal ≠ "-0")
    (denotes : text.Denotes number) : numeral? literal = some number := by
  have notMinusZero : text.bytes ≠ [45, 48] := fun minusZero =>
    other (Text.utf8_injective (spelled.trans minusZero))
  rw [numeral?, spelled]
  rcases NumberText.integerLiteral?_bytes notMinusZero with ⟨integer, read⟩ | ⟨fractional, read⟩
  · have found : text.Denotes (.integer ⟨text.signedInteger, integer.2.2.1⟩) := ⟨integer, rfl⟩
    rw [read, denotes.unique found]
  · cases number with
    | integer n => exact absurd denotes.1 fractional
    | float x =>
        have made := Binary64.ofDecimal?_eq_some_iff.mpr denotes.2
        simp only [read, floatLiteral?, NumberText.decimalLiteral?_bytes, made]

/-- A text that writes a number is read as that number. -/
theorem resolve?_of_numeral? (written : numeral? literal = some number) (attributes : Json) :
    resolve? literal attributes = some (.number number) := by
  have word {other : String} (none : numeral? other = none) : literal ≠ other := by
    rintro rfl
    cases written.symm.trans none
  rw [resolve?, ofText?, if_neg (word rfl), if_neg (word rfl), written]
  rfl

/-- **Number literals.** An attribute with the number that a literal denotes agrees with the
literal, on either side, unless the literal is `-0`. What the reader makes of the literal is
that number, if it rounds a float correctly. -/
theorem literal_agrees (spelled : Text.utf8 literal = text.bytes) (other : literal ≠ "-0")
    (named : field ≠ "") (denotes : text.Denotes number) :
    (∀ target credentials : Json, credentials.get? field = some (.number number) →
        agree (template field) literal target credentials = true) ∧
      (∀ target credentials : Json, target.get? field = some (.number number) →
        agree literal (template field) target credentials = true) ∧
      ∀ found, Json.read (Text.utf8 literal) = .ok (.number found) →
        (∀ x, found = .float x → x.Rounds text.magnitude) → found = number := by
  have written := numeral?_of_denotes spelled other denotes
  refine ⟨fun target credentials held => ?_, fun target credentials held => ?_,
    fun found reads rounded => ?_⟩
  · rw [agree, resolve?_template_number named held, resolve?_of_numeral? written]
    exact beq_self_eq_true _
  · rw [agree, resolve?_template_number named held, resolve?_of_numeral? written]
    exact beq_self_eq_true _
  · rw [spelled] at reads
    exact (NumberText.denotes_of_ofParts? (ofParts?_of_read reads) rounded).unique denotes

/-- The text `15e-1`. -/
def fifteenTenths : NumberText where
  negative := false
  integer := [49, 53]
  fraction := []
  exponent :=
    some ⟨101, [45], [49], .inl rfl, .inr (.inr rfl), by decide, List.all_eq_true.mp rfl⟩
  present := by decide
  isInteger := List.all_eq_true.mp rfl
  noLeadingZero := by decide
  isFraction := List.all_eq_true.mp rfl

/-- The float `3 / 2`. -/
def threeHalves : Binary64 :=
  ⟨false, 3 * 2 ^ 51, -52, by decide⟩

theorem denotes_fifteenTenths : fifteenTenths.Denotes (.float threeHalves) := by
  have digits : ofDigits (fifteenTenths.integer ++ fifteenTenths.fraction) = 15 := rfl
  have places : fifteenTenths.power - fifteenTenths.fraction.length = -1 := rfl
  have magnitude : fifteenTenths.magnitude = threeHalves.magnitude := by
    rw [NumberText.magnitude, digits, places]
    norm_num [Binary64.magnitude, threeHalves, Binary64.unit]
  exact ⟨fun integer => Option.some_ne_none _ integer.2.1, rfl,
    magnitude ▸ threeHalves.rounds_magnitude⟩

theorem literal_agrees_fifteenTenths :
    (∀ target credentials : Json, credentials.get? "f" = some (.number (.float threeHalves)) →
        agree (template "f") "15e-1" target credentials = true) ∧
      (∀ target credentials : Json, target.get? "f" = some (.number (.float threeHalves)) →
        agree "15e-1" (template "f") target credentials = true) ∧
      ∀ found, Json.read (Text.utf8 "15e-1") = .ok (.number found) →
        (∀ x, found = .float x → x.Rounds fifteenTenths.magnitude) → found = .float threeHalves :=
  literal_agrees (by decide) (by decide) (by decide) denotes_fifteenTenths

/-- The text `-0`. -/
def minusZero : NumberText where
  negative := true
  integer := [48]
  fraction := []
  exponent := none
  present := by decide
  isInteger := List.all_eq_true.mp rfl
  noLeadingZero := by decide
  isFraction := List.all_eq_true.mp rfl

/-- The text `-0` is read as the negative zero, which does not agree with the operand
`-0`. -/
theorem minusZero_disagrees :
    Text.utf8 "-0" = minusZero.bytes ∧ minusZero.Denotes (.float (.zero true)) ∧
      Json.read (Text.utf8 "-0") = .ok (.number (.float (.zero true))) ∧
      agree (template "f") "-0" .null (.object [("f", .number (.float (.zero true)))]) = false := by
  have digits : ofDigits (minusZero.integer ++ minusZero.fraction) = 0 := rfl
  have magnitude : minusZero.magnitude = 0 := by
    rw [NumberText.magnitude, digits, Nat.cast_zero, zero_mul]
  refine ⟨by decide, ⟨fun integer => integer.2.2.2 ⟨rfl, rfl⟩, rfl, ?_⟩, rfl, by decide +kernel⟩
  rw [magnitude]
  exact Binary64.rounds_zero true

end Operand

end AccessPolicy

import AccessPolicy.Proofs.Number.Integral
import AccessPolicy.Proofs.Number.Positional
import AccessPolicy.Proofs.Operand.Attribute

/-! # Agreement of numbers

Operands that are numbers agree when the decimals they are written with are the same. For
two integers and for two floats that means that they are the same number. An integer and a
float agree as they should as long as the float is small or written exactly: the shortest
decimal of a large float may be a rounder integer than the float.
-/

namespace AccessPolicy

open Number

namespace Json.Numeral

def isInteger : Numeral → Bool
  | .integer _ => true
  | .float _ => false

def negative : Numeral → Bool
  | .integer n => n.value < 0
  | .float x => x.negative

/-- The exact magnitude of a number. -/
def magnitude : Numeral → ℚ
  | .integer n => n.value.natAbs
  | .float x => x.magnitude

/-- The exact value of a number. -/
def value : Numeral → ℚ
  | .integer n => n.value
  | .float x => x.value

/-- The decimal that a number is written with, behind its sign. -/
def decimal : Numeral → Decimal
  | .integer n => ⟨n.value.natAbs, 0⟩
  | .float x => x.shortest .up

/-- The value that the text of a number shows. -/
def written (number : Numeral) : ℚ :=
  if number.negative then -number.decimal.value else number.decimal.value

def negativeZero : Numeral :=
  .float (.zero true)

/-- The numbers that are written apart from every integer but themselves. -/
def WrittenApart : Numeral → Prop
  | .integer _ => True
  | .float x =>
    x.magnitude < 2 ^ 54 ∨ 2 ^ 64 ≤ x.magnitude ∨ (x.shortest .up).value = x.magnitude

variable {left right : Numeral}

/-! ## Signs -/

theorem magnitude_nonneg (number : Numeral) : 0 ≤ number.magnitude := by
  cases number with
  | integer n => exact Nat.cast_nonneg _
  | float x => exact x.magnitude_nonneg

theorem value_eq (number : Numeral) :
    number.value = if number.negative then -number.magnitude else number.magnitude := by
  cases number with
  | integer n =>
      simp only [value, negative, magnitude, decide_eq_true_eq]
      split
      · rename_i below
        rw [Nat.cast_natAbs, abs_of_neg below, Int.cast_neg, neg_neg]
      · rename_i above
        rw [Nat.cast_natAbs, abs_of_nonneg (not_lt.mp above)]
  | float x => rfl

/-- Only zero is written as zero. -/
theorem decimal_value_eq_zero_iff (number : Numeral) :
    number.decimal.value = 0 ↔ number.magnitude = 0 := by
  cases number with
  | integer n => simp [decimal, Decimal.value, magnitude]
  | float x => exact Binary64.value_shortest_eq_zero_iff

/-- A negative number is zero only as the negative zero. -/
theorem magnitude_ne_zero {number : Numeral} (other : number ≠ negativeZero)
    (below : number.negative = true) : number.magnitude ≠ 0 := by
  intro zero
  cases number with
  | integer n =>
      have negative : n.value < 0 := of_decide_eq_true below
      have none : (n.value.natAbs : ℚ) = 0 := zero
      rw [Nat.cast_eq_zero] at none
      omega
  | float x =>
      have magnitude : x.magnitude = (Binary64.zero true).magnitude :=
        Eq.trans zero (Binary64.magnitude_eq_zero_iff.mpr rfl).symm
      exact other (congrArg float (Binary64.eq_of_magnitude_eq below magnitude))

/-- Signed values are equal when their signs and magnitudes are, as no negative one is
zero. -/
theorem signed_eq_iff {a b : Bool} {p q : ℚ} (p_nonneg : 0 ≤ p) (q_nonneg : 0 ≤ q)
    (p_present : a = true → p ≠ 0) (q_present : b = true → q ≠ 0) :
    (if a then -p else p) = (if b then -q else q) ↔ a = b ∧ p = q := by
  cases a with
  | false =>
      cases b with
      | false => simp
      | true =>
          have := lt_of_le_of_ne q_nonneg (q_present rfl).symm
          have : p ≠ -q := by linarith
          simpa
  | true =>
      cases b with
      | false =>
          have := lt_of_le_of_ne p_nonneg (p_present rfl).symm
          have : -p ≠ q := by linarith
          simpa
      | true => simp

theorem value_eq_iff (left_plain : left ≠ negativeZero) (right_plain : right ≠ negativeZero) :
    left.value = right.value ↔
      left.negative = right.negative ∧ left.magnitude = right.magnitude := by
  rw [value_eq, value_eq]
  exact signed_eq_iff left.magnitude_nonneg right.magnitude_nonneg
    (magnitude_ne_zero left_plain) (magnitude_ne_zero right_plain)

theorem written_eq_iff (left_plain : left ≠ negativeZero) (right_plain : right ≠ negativeZero) :
    left.written = right.written ↔
      left.negative = right.negative ∧ left.decimal.value = right.decimal.value := by
  have present {number : Numeral} (other : number ≠ negativeZero)
      (below : number.negative = true) : number.decimal.value ≠ 0 := fun zero =>
    magnitude_ne_zero other below (number.decimal_value_eq_zero_iff.mp zero)
  exact signed_eq_iff left.decimal.value_nonneg right.decimal.value_nonneg
    (present left_plain) (present right_plain)

/-! ## Comparison texts -/

theorem comparisonText_number (number : Numeral) :
    Json.comparisonText (.number number) =
      if number.negative then '-' :: number.decimal.chars .bare
      else number.decimal.chars .bare := by
  cases number with
  | integer n =>
      rw [comparisonText, Integer64.chars, negative, decimal, Decimal.chars_bare_whole]
      simp only [decide_eq_true_eq]
  | float x => rfl

theorem comparisonText_eq_iff :
    Json.comparisonText (.number left) = Json.comparisonText (.number right) ↔
      left.negative = right.negative ∧ left.decimal.value = right.decimal.value := by
  rw [comparisonText_number, comparisonText_number, ← Decimal.chars_bare_eq_iff]
  cases left.negative with
  | false =>
      cases right.negative with
      | false => simp
      | true =>
          have : left.decimal.chars .bare ≠ '-' :: right.decimal.chars .bare := fun same =>
            left.decimal.notMem_chars_bare (same ▸ List.mem_cons_self)
          simpa
  | true =>
      cases right.negative with
      | false =>
          have : '-' :: left.decimal.chars .bare ≠ right.decimal.chars .bare := fun same =>
            right.decimal.notMem_chars_bare (same ▸ List.mem_cons_self)
          simpa
      | true => simp

/-! ## Integers and floats -/

theorem natAbs_lt (n : Integer64) : n.value.natAbs < 2 ^ 64 := by
  have := n.fits
  norm_num [FitsWord] at this ⊢
  omega

/-- An integer and a float that is written apart are written alike only if they are the
same. -/
theorem decimal_eq_iff_of_writtenApart {x : Binary64} (apart : (float x).WrittenApart)
    (n : Integer64) :
    (integer n).decimal.value = (float x).decimal.value ↔
      (integer n).magnitude = (float x).magnitude := by
  have digits : (integer n).decimal.value = n.value.natAbs := by simp [decimal, Decimal.value]
  have fits : (n.value.natAbs : ℚ) < 2 ^ 64 := by exact_mod_cast natAbs_lt n
  rw [digits, decimal, magnitude, magnitude]
  rcases apart with small | large | exact_text
  · rw [eq_comm, Binary64.value_shortest_eq_iff small, eq_comm]
  · have := Binary64.le_value_shortest large
    exact iff_of_false (by linarith) (by linarith)
  · rw [exact_text]

/-- Numbers that can be told apart are written alike only if they are the same. -/
theorem written_eq_iff_value_eq (left_plain : left ≠ negativeZero)
    (right_plain : right ≠ negativeZero)
    (apart : left.isInteger = right.isInteger ∨ left.WrittenApart ∧ right.WrittenApart) :
    left.written = right.written ↔ left.value = right.value := by
  rw [written_eq_iff left_plain right_plain, value_eq_iff left_plain right_plain]
  have magnitudes :
      left.decimal.value = right.decimal.value ↔ left.magnitude = right.magnitude := by
    cases left with
    | integer n =>
        cases right with
        | integer m => simp [decimal, Decimal.value, magnitude]
        | float y =>
            have told := apart.resolve_left Bool.false_ne_true.symm
            exact decimal_eq_iff_of_writtenApart told.2 n
    | float x =>
        cases right with
        | integer m =>
            have told := apart.resolve_left Bool.false_ne_true
            rw [eq_comm, decimal_eq_iff_of_writtenApart told.1 m, eq_comm]
        | float y => exact Binary64.shortest_eq_iff
  rw [magnitudes]

end Json.Numeral

namespace Operand

open Json

variable {kind matcher : String} {target credentials : Json} {left right : Numeral}

theorem agree_of_resolve? {value other : Json} (resolved : resolve? kind credentials = some value)
    (resolved' : resolve? matcher target = some other) :
    agree kind matcher target credentials = true ↔
      value.comparisonText = other.comparisonText := by
  rw [agree, resolved, resolved', beq_iff_eq]

/-- **Agreement of numbers.** Operands that are numbers agree exactly when they are written
with the same value. For two integers, for two floats, and for an integer and a float that
is small, larger than every integer, or written exactly, that is when they are the same
number. -/
theorem agree_iff_same_number (resolved : resolve? kind credentials = some (.number left))
    (resolved' : resolve? matcher target = some (.number right))
    (left_plain : left ≠ .negativeZero) (right_plain : right ≠ .negativeZero) :
    (agree kind matcher target credentials = true ↔ left.written = right.written) ∧
      (left.isInteger = right.isInteger ∨ left.WrittenApart ∧ right.WrittenApart →
        (agree kind matcher target credentials = true ↔ left.value = right.value)) := by
  have written : agree kind matcher target credentials = true ↔ left.written = right.written := by
    rw [agree_of_resolve? resolved resolved', Numeral.comparisonText_eq_iff,
      Numeral.written_eq_iff left_plain right_plain]
  exact ⟨written, fun apart =>
    written.trans (Numeral.written_eq_iff_value_eq left_plain right_plain apart)⟩

/-- An object with a number under the key `n`. -/
def onlyNumber (number : Numeral) : Json :=
  .object [("n", .number number)]

theorem resolve?_onlyNumber (number : Numeral) :
    resolve? (template "n") (onlyNumber number) = some (.number number) :=
  resolve?_template_number (by decide) rfl

/-- The float `2 ^ 53`, whose shortest decimal is exact, and the integer `2 ^ 53`. -/
def evenFloat : Numeral :=
  .float ⟨false, 2 ^ 52, 1, by decide⟩

def evenInteger : Numeral :=
  .integer ⟨2 ^ 53, by decide⟩

theorem agree_iff_same_number_even :
    (agree (template "n") (template "n") (onlyNumber evenInteger) (onlyNumber evenFloat) = true ↔
        evenFloat.written = evenInteger.written) ∧
      (agree (template "n") (template "n") (onlyNumber evenInteger) (onlyNumber evenFloat) = true ↔
        evenFloat.value = evenInteger.value) := by
  have small : evenFloat.WrittenApart := by
    refine .inl ?_
    norm_num [Binary64.magnitude, Binary64.unit]
  have plain : evenInteger ≠ .negativeZero := by
    intro same
    cases same
  have plain' : evenFloat ≠ .negativeZero := by
    intro same
    cases same
  obtain ⟨written, value⟩ := agree_iff_same_number (resolve?_onlyNumber evenFloat)
    (resolve?_onlyNumber evenInteger) plain' plain
  exact ⟨written, value (.inr ⟨small, trivial⟩)⟩

/-- The float `2 ^ 55`, which is written as `36028797018963970`. -/
def roundedFloat : Numeral :=
  .float ⟨false, 2 ^ 52, 3, by decide⟩

def sameInteger : Numeral :=
  .integer ⟨2 ^ 55, by decide⟩

def rounderInteger : Numeral :=
  .integer ⟨36028797018963970, by decide⟩

/-- A large float does not agree with the integer of the same value, and it agrees with
another integer. -/
theorem agree_with_another_number :
    (roundedFloat.value = sameInteger.value ∧
        agree (template "n") (template "n") (onlyNumber sameInteger) (onlyNumber roundedFloat) =
          false) ∧
      roundedFloat.value ≠ rounderInteger.value ∧
        agree (template "n") (template "n") (onlyNumber rounderInteger) (onlyNumber roundedFloat) =
          true := by
  have float : roundedFloat.value = 2 ^ 55 := by
    norm_num [Numeral.value, roundedFloat, Binary64.value, Binary64.magnitude, Binary64.unit]
  refine ⟨⟨?_, ?_⟩, ?_, ?_⟩
  · rw [float]
    norm_num [Numeral.value, sameInteger]
  · decide +kernel
  · rw [float]
    norm_num [Numeral.value, rounderInteger]
  · decide +kernel

end Operand

end AccessPolicy

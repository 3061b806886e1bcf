import AccessPolicy.Number.Layout
import AccessPolicy.Proofs.Number.Rounding
import Mathlib.Data.List.TakeWhile

/-! # Positional texts of decimals

A decimal that stands alone is written positionally. Its text reads back as its value, so
two decimals have the same text exactly when they have the same value; a whole number has
the text of its digits.
-/

namespace AccessPolicy.Number

/-- The value of the digits before and after a decimal point. -/
def pointValue (whole fraction : List Char) : ℚ :=
  Nat.ofDigitChars 10 (whole ++ fraction) 0 * 10 ^ (-(fraction.length : ℤ))

/-- The value of an unsigned positional text. -/
def positionalValue (text : List Char) : ℚ :=
  pointValue (text.takeWhile (· != '.')) (text.dropWhile (· != '.')).tail

theorem positionalValue_append_point {whole : List Char} (free : '.' ∉ whole)
    (fraction : List Char) :
    positionalValue (whole ++ '.' :: fraction) = pointValue whole fraction := by
  have inside : ∀ c ∈ whole, (c != '.') = true := fun c member =>
    bne_iff_ne.mpr fun point => free (point ▸ member)
  rw [positionalValue, List.takeWhile_append_of_pos inside, List.dropWhile_append_of_pos inside]
  simp

theorem positionalValue_of_notMem {whole : List Char} (free : '.' ∉ whole) :
    positionalValue whole = Nat.ofDigitChars 10 whole 0 := by
  have inside : ∀ c ∈ whole, (c != '.') = true := fun c member =>
    bne_iff_ne.mpr fun point => free (point ▸ member)
  rw [positionalValue, List.takeWhile_eq_self_iff.mpr inside, List.dropWhile_eq_nil_iff.mpr inside]
  simp [pointValue]

/-- A positional text reads back as its digits with the point at its place. -/
theorem positionalValue_positionalText {digits : List Char} (free : '.' ∉ digits) (point : ℤ) :
    positionalValue (positionalText false digits point) =
      Nat.ofDigitChars 10 digits 0 * 10 ^ (point - digits.length) := by
  unfold positionalText
  split
  · rename_i small
    have value : pointValue ['0'] (List.replicate (-point).toNat '0' ++ digits) =
        Nat.ofDigitChars 10 digits 0 * 10 ^ (point - digits.length) := by
      rw [pointValue, Nat.ofDigitChars_append, Nat.ofDigitChars_append]
      simp only [Nat.ofDigitChars_cons, Nat.ofDigitChars_nil, Nat.ofDigitChars_replicate_zero,
        List.length_append, List.length_replicate]
      congr 2
      push_cast
      omega
    rw [← value]
    exact positionalValue_append_point (show '.' ∉ ['0'] by decide) _
  · split
    · rename_i inside
      rw [positionalValue_append_point fun member => free (List.mem_of_mem_take member),
        pointValue, List.take_append_drop, List.length_drop]
      congr 2
      omega
    · rename_i beyond
      have padded : '.' ∉ digits ++ List.replicate (point.toNat - digits.length) '0' := by
        rw [List.mem_append, List.mem_replicate]
        rintro (member | ⟨-, zero⟩)
        · exact free member
        · exact absurd zero (by decide)
      rw [if_neg Bool.false_ne_true, List.append_nil, positionalValue_of_notMem padded,
        Nat.ofDigitChars_append, Nat.ofDigitChars_replicate_zero,
        show point - digits.length = (point.toNat - digits.length : ℕ) by omega, zpow_natCast]
      push_cast
      ring

/-! ## Digits and zeros -/

theorem toDigits_mul_ten_pow {n : ℕ} (positive : 0 < n) (zeros : ℕ) :
    Nat.toDigits 10 (n * 10 ^ zeros) = Nat.toDigits 10 n ++ List.replicate zeros '0' := by
  induction zeros with
  | zero => simp
  | succ zeros ih =>
      have next := Nat.toDigits_append_toDigits (b := 10) (n := n * 10 ^ zeros) (d := 0)
        (by norm_num) (by positivity) (by norm_num)
      rw [pow_succ, ← mul_assoc, mul_comm _ 10, ← Nat.add_zero (10 * _), ← next, ih,
        List.replicate_succ', ← List.append_assoc]
      rfl

theorem getLast?_toDigits (n : ℕ) :
    (Nat.toDigits 10 n).getLast? = some (Nat.digitChar (n % 10)) := by
  rw [Nat.toDigits_eq_if (by norm_num)]
  split
  · rename_i small
    rw [Nat.mod_eq_of_lt small]
    rfl
  · rw [List.getLast?_append, List.getLast?_singleton, Option.some_or]

/-- The zeros at the end of a number are not significant. -/
theorem significantDigits_mul_ten_pow {n : ℕ} (last : n % 10 ≠ 0) (zeros : ℕ) :
    significantDigits (n * 10 ^ zeros) = Nat.toDigits 10 n := by
  have positive : 0 < n := Nat.pos_of_ne_zero fun zero => last (by rw [zero])
  have nonzero : (Nat.digitChar (n % 10) == '0') = false := by simp [last]
  have kept : (Nat.toDigits 10 n).reverse.dropWhile (· == '0') = (Nat.toDigits 10 n).reverse := by
    have first := getLast?_toDigits n
    rw [← List.head?_reverse] at first
    cases reversed : (Nat.toDigits 10 n).reverse with
    | nil => rfl
    | cons c rest =>
        rw [reversed, List.head?_cons, Option.some.injEq] at first
        rw [List.dropWhile_cons_of_neg (by rw [first, nonzero]; exact Bool.false_ne_true)]
  rw [significantDigits, toDigits_mul_ten_pow positive, List.reverse_append,
    List.reverse_replicate, List.dropWhile_append_of_pos, kept, List.reverse_reverse]
  intro c member
  rw [List.eq_of_mem_replicate member]
  rfl

/-- A positive number is a number without a last zero, followed by zeros. -/
theorem exists_significant {n : ℕ} (positive : 0 < n) :
    ∃ significant zeros : ℕ, significant % 10 ≠ 0 ∧ n = significant * 10 ^ zeros := by
  induction n using Nat.strongRecOn with
  | ind n ih =>
      by_cases last : n % 10 = 0
      · obtain ⟨significant, zeros, other, same⟩ := ih (n / 10) (by omega) (by omega)
        refine ⟨significant, zeros + 1, other, ?_⟩
        rw [pow_succ, ← mul_assoc, ← same]
        omega
      · exact ⟨n, 0, last, by rw [pow_zero, mul_one]⟩

theorem notMem_toDigits {c : Char} (other : c.isDigit = false) (n : ℕ) :
    c ∉ Nat.toDigits 10 n := fun member => by
  have digit := Nat.isDigit_of_mem_toDigits (by norm_num) le_rfl member
  rw [other] at digit
  exact Bool.false_ne_true digit

namespace Decimal

/-! ## Texts and values -/

theorem chars_bare_zero (exponent : ℤ) : (⟨0, exponent⟩ : Decimal).chars .bare = ['0'] := rfl

/-- A decimal is written with its significant digits. -/
theorem chars_bare_of_significant {significant : ℕ} (last : significant % 10 ≠ 0) (zeros : ℕ)
    (exponent : ℤ) :
    (⟨significant * 10 ^ zeros, exponent⟩ : Decimal).chars .bare =
      positionalText false (Nat.toDigits 10 significant)
        (exponent + zeros + (Nat.toDigits 10 significant).length) := by
  have positive : 0 < significant := Nat.pos_of_ne_zero fun zero => last (by rw [zero])
  have nonzero : significant * 10 ^ zeros ≠ 0 := by positivity
  rw [chars, if_neg nonzero, significantDigits_mul_ten_pow last, toDigits_mul_ten_pow positive]
  simp only [Layout.bare, List.length_append, List.length_replicate]
  congr 1
  push_cast
  ring

theorem value_of_significant (significant zeros : ℕ) (exponent : ℤ) :
    (⟨significant * 10 ^ zeros, exponent⟩ : Decimal).value =
      significant * 10 ^ (exponent + zeros) := by
  rw [value, zpow_add₀ (by norm_num), zpow_natCast]
  push_cast
  ring

/-- The text of a decimal reads back as its value. -/
theorem positionalValue_chars (decimal : Decimal) :
    positionalValue (decimal.chars .bare) = decimal.value := by
  obtain ⟨digits, exponent⟩ := decimal
  rcases Nat.eq_zero_or_pos digits with rfl | positive
  · rw [chars_bare_zero, positionalValue_of_notMem (by decide), value]
    simp [Nat.ofDigitChars_cons]
  · obtain ⟨significant, zeros, last, rfl⟩ := exists_significant positive
    rw [chars_bare_of_significant last, value_of_significant,
      positionalValue_positionalText (notMem_toDigits rfl significant),
      Nat.ofDigitChars_ten_toDigits, add_sub_cancel_right]

/-- The exponent is not the smaller one where there is no last zero. -/
theorem significant_eq_of_le {first second : ℕ} {p q : ℤ} (last : first % 10 ≠ 0) (order : p ≤ q)
    (same : (first * 10 ^ p : ℚ) = second * 10 ^ q) : first = second ∧ p = q := by
  obtain ⟨zeros, rfl⟩ : ∃ zeros : ℕ, q = p + zeros := ⟨(q - p).toNat, by omega⟩
  rw [zpow_add₀ (by norm_num), zpow_natCast, mul_comm (10 ^ p), ← mul_assoc] at same
  have whole : first = second * 10 ^ zeros := by
    exact_mod_cast mul_right_cancel₀ (ten_zpow_pos p).ne' same
  cases zeros with
  | zero => exact ⟨by rw [whole, pow_zero, mul_one], by rw [Nat.cast_zero, add_zero]⟩
  | succ zeros =>
      rw [pow_succ, ← mul_assoc] at whole
      omega

/-- Significant digits and their exponent are determined by the value. -/
theorem significant_unique {first second : ℕ} {p q : ℤ} (last : first % 10 ≠ 0)
    (last' : second % 10 ≠ 0) (same : (first * 10 ^ p : ℚ) = second * 10 ^ q) :
    first = second ∧ p = q := by
  rcases le_total p q with order | order
  · exact significant_eq_of_le last order same
  · obtain ⟨digits, exponents⟩ := significant_eq_of_le last' order same.symm
    exact ⟨digits.symm, exponents.symm⟩

theorem value_nonneg (decimal : Decimal) : 0 ≤ decimal.value :=
  mul_nonneg (Nat.cast_nonneg _) (ten_zpow_pos _).le

theorem value_eq_zero_iff {decimal : Decimal} : decimal.value = 0 ↔ decimal.digits = 0 := by
  simp [value, (ten_zpow_pos _).ne']

/-- Decimals of one value have one text. -/
theorem chars_bare_of_value_eq {left right : Decimal} (same : left.value = right.value) :
    left.chars .bare = right.chars .bare := by
  obtain ⟨first, p⟩ := left
  obtain ⟨second, q⟩ := right
  rcases Nat.eq_zero_or_pos first with rfl | positive
  · have zero : second = 0 := value_eq_zero_iff.mp (same.symm.trans (value_eq_zero_iff.mpr rfl))
    rw [zero, chars_bare_zero, chars_bare_zero]
  · have positive' : 0 < second := Nat.pos_of_ne_zero fun zero =>
      positive.ne' (value_eq_zero_iff.mp (same.trans (value_eq_zero_iff.mpr zero)))
    obtain ⟨significant, zeros, last, rfl⟩ := exists_significant positive
    obtain ⟨significant', zeros', last', rfl⟩ := exists_significant positive'
    rw [value_of_significant, value_of_significant] at same
    obtain ⟨rfl, exponents⟩ := significant_unique last last' same
    rw [chars_bare_of_significant last, chars_bare_of_significant last, exponents]

/-- **Texts of decimals.** Two decimals have the same text exactly when they have the same
value. -/
theorem chars_bare_eq_iff (left right : Decimal) :
    left.chars .bare = right.chars .bare ↔ left.value = right.value := by
  refine ⟨fun same => ?_, chars_bare_of_value_eq⟩
  rw [← positionalValue_chars, same, positionalValue_chars]

/-- A whole number has the text of its digits. -/
theorem chars_bare_whole (n : ℕ) : (⟨n, 0⟩ : Decimal).chars .bare = Nat.toDigits 10 n := by
  rcases Nat.eq_zero_or_pos n with rfl | positive
  · rfl
  · obtain ⟨significant, zeros, last, rfl⟩ := exists_significant positive
    have some_digit : 0 < (Nat.toDigits 10 significant).length := Nat.length_toDigits_pos
    have significant_pos : 0 < significant := Nat.pos_of_ne_zero fun zero => last (by rw [zero])
    rw [chars_bare_of_significant last, toDigits_mul_ten_pow significant_pos, positionalText,
      if_neg (by omega), if_neg (by omega), if_neg Bool.false_ne_true, List.append_nil]
    congr 2
    omega

theorem mem_positionalText {c : Char} {digits : List Char} {point : ℤ}
    (member : c ∈ positionalText false digits point) : c ∈ digits ∨ c = '0' ∨ c = '.' := by
  unfold positionalText at member
  split at member
  · simp only [List.mem_cons, List.mem_append, List.mem_replicate] at member
    tauto
  · split at member
    · rw [List.mem_append, List.mem_cons] at member
      rcases member with early | point | late
      · exact .inl (List.mem_of_mem_take early)
      · exact .inr (.inr point)
      · exact .inl (List.mem_of_mem_drop late)
    · simp only [Bool.false_eq_true, if_false, List.append_nil, List.mem_append,
        List.mem_replicate] at member
      tauto

/-- The text of a decimal has no sign. -/
theorem notMem_chars_bare (decimal : Decimal) : '-' ∉ decimal.chars .bare := by
  obtain ⟨digits, exponent⟩ := decimal
  rcases Nat.eq_zero_or_pos digits with rfl | positive
  · rw [chars_bare_zero]
    decide
  · obtain ⟨significant, zeros, last, rfl⟩ := exists_significant positive
    rw [chars_bare_of_significant last]
    intro member
    rcases mem_positionalText member with digit | zero | point
    · exact notMem_toDigits rfl significant digit
    · exact absurd zero (by decide)
    · exact absurd point (by decide)

end Decimal

end AccessPolicy.Number

import AccessPolicy.Proofs.Number.Shortest

/-! # Integral numbers

Below `2 ^ 54` the numbers lie so close that their shortest decimals tell whole numbers
apart: the shortest decimal of an integral number is that number, and no other number has a
whole number as its shortest decimal. From there on it may be a rounder whole number.
-/

namespace AccessPolicy.Number.Binary64

variable {x : Binary64} {n : ℕ}

theorem unitBelow_le (x : Binary64) : x.unitBelow ≤ x.unit := by
  have := x.unit_pos
  unfold unitBelow
  split <;> linarith

/-- What rounds to a number is at most half a unit away. -/
theorem Rounds.abs_sub_le {quantity : ℚ} (rounds : x.Rounds quantity) :
    |quantity - x.magnitude| ≤ x.unit / 2 := by
  have := x.unitBelow_le
  rw [abs_le]
  constructor
  · rcases rounds.lower with beyond | ⟨on, -⟩ <;> linarith
  · rcases rounds.upper with under | ⟨on, -⟩ <;> linarith

/-- A whole number is the only one that rounds to a number whose unit is a fraction of
one. -/
theorem magnitude_eq_of_rounds (fractional : x.exponent ≤ 0) (rounds : x.Rounds n) :
    x.magnitude = n := by
  obtain ⟨places, exponent⟩ : ∃ places : ℕ, x.exponent = -places :=
    ⟨(-x.exponent).toNat, by omega⟩
  have pos := x.unit_pos
  have whole : (n : ℚ) = (n * 2 ^ places : ℕ) * x.unit := by
    rw [unit, exponent, zpow_neg, zpow_natCast]
    push_cast
    field_simp
  obtain ⟨under, beyond⟩ := abs_le.mp rounds.abs_sub_le
  rw [whole, magnitude] at under beyond ⊢
  generalize n * 2 ^ places = point at under beyond ⊢
  have lower : x.significand < point + 1 := by
    have : (x.significand : ℚ) < point + 1 := by
      by_contra above
      nlinarith
    exact_mod_cast this
  have upper : point < x.significand + 1 := by
    have : (point : ℚ) < x.significand + 1 := by
      by_contra above
      nlinarith
    exact_mod_cast this
  rw [show x.significand = point by omega]

theorem exponent_le_one (small : x.magnitude < 2 ^ 54) : x.exponent ≤ 1 := by
  by_contra large
  have wide : (2 ^ 52 : ℚ) ≤ x.significand := by exact_mod_cast x.significand_ge (by omega)
  have unit : (2 : ℚ) ^ (2 : ℤ) ≤ x.unit := zpow_le_zpow_right₀ one_le_two (by omega)
  have : (2 ^ 52 * 4 : ℚ) ≤ x.magnitude :=
    mul_le_mul wide (by norm_num at unit ⊢; exact unit) (by norm_num) (Nat.cast_nonneg _)
  norm_num at this small
  linarith

/-- An even number rounds to an integral number below `2 ^ 54` only if it is that number. -/
theorem eq_of_rounds_even {point : ℕ} (integral : x.magnitude = n) (small : x.magnitude < 2 ^ 54)
    (even : point % 2 = 0) (rounds : x.Rounds point) : point = n := by
  rcases Int.lt_or_le 0 x.exponent with coarse | fine
  · have exponent : x.exponent = 1 := by
      have := exponent_le_one small
      omega
    have unit : x.unit = 2 := by rw [unit, exponent, zpow_one]
    have double : n = 2 * x.significand := by
      rw [magnitude, unit, mul_comm] at integral
      exact_mod_cast integral.symm
    obtain ⟨under, beyond⟩ := abs_le.mp rounds.abs_sub_le
    rw [unit, integral] at under beyond
    have lower : n ≤ point + 1 := by
      have : (n : ℚ) ≤ point + 1 := by linarith
      exact_mod_cast this
    have upper : point ≤ n + 1 := by
      have : (point : ℚ) ≤ n + 1 := by linarith
      exact_mod_cast this
    omega
  · have same := magnitude_eq_of_rounds fine rounds
    rw [integral] at same
    exact_mod_cast same.symm

/-- On the grid of the whole numbers an integral number finds itself. -/
theorem onGrid?_whole (present : x.significand ≠ 0) (integral : x.magnitude = n) (tie : Tie) :
    x.onGrid? tie 0 = some n := by
  have onGrid : x.magnitude = n * 10 ^ (0 : ℤ) := by rw [integral, zpow_zero, mul_one]
  obtain ⟨floor, nearest⟩ := nearestOnGrid_of_magnitude_eq onGrid tie
  have holds : x.holds n 0 = true := by
    rw [holds_eq_true_iff present, ← onGrid]
    exact x.rounds_magnitude
  simp only [onGrid?, floor, nearest, holds]
  cases x.holds (n + 1) 0 <;> rfl

/-- From a grid of whole numbers down to the finest one, an integral number finds no other
number. -/
theorem value_refine {tie : Tie} (present : x.significand ≠ 0) (integral : x.magnitude = n)
    (small : x.magnitude < 2 ^ 54) (steps exponent : ℕ) (reaches : exponent ≤ steps) :
    (x.refine tie steps exponent).value = n := by
  induction steps generalizing exponent with
  | zero =>
      obtain rfl : exponent = 0 := by omega
      have onGrid : x.magnitude = n * 10 ^ (0 : ℤ) := by rw [integral, zpow_zero, mul_one]
      have nearest := (nearestOnGrid_of_magnitude_eq onGrid tie).2
      simp [refine, Decimal.value, nearest]
  | succ steps ih =>
      rw [refine]
      cases exponent with
      | zero =>
          rw [Nat.cast_zero, onGrid?_whole present integral]
          simp [Decimal.value]
      | succ exponent =>
          cases hit : x.onGrid? tie (exponent + 1 : ℕ) with
          | some digits =>
              have rounds := rounds_of_onGrid? present hit
              have whole : (digits : ℚ) * 10 ^ ((exponent + 1 : ℕ) : ℤ) =
                  (digits * 10 ^ (exponent + 1) : ℕ) := by
                rw [zpow_natCast]
                push_cast
                rfl
              rw [whole] at rounds
              rw [Decimal.value, whole]
              congr 1
              refine eq_of_rounds_even integral small ?_ rounds
              rw [pow_succ, ← mul_assoc]
              omega
          | none =>
              rw [show ((exponent + 1 : ℕ) : ℤ) - 1 = exponent by push_cast; ring]
              exact ih exponent (by omega)

/-- The first digit of an integral number below `2 ^ 54` has one of seventeen places. -/
theorem leadingPlace_mem (present : x.significand ≠ 0) (integral : x.magnitude = n)
    (small : x.magnitude < 2 ^ 54) : 0 ≤ x.leadingPlace ∧ x.leadingPlace ≤ 16 := by
  obtain ⟨lower, upper⟩ := leadingPlace_spec present
  constructor
  · by_contra fraction
    have below : (10 : ℚ) ^ (x.leadingPlace + 1) ≤ 10 ^ (0 : ℤ) :=
      zpow_le_zpow_right₀ (by norm_num) (by omega)
    have none : n < 1 := by
      rw [zpow_zero] at below
      have : (n : ℚ) < 1 := by linarith
      exact_mod_cast this
    have zero : x.magnitude = 0 := by rw [integral, Nat.lt_one_iff.mp none, Nat.cast_zero]
    exact present (magnitude_eq_zero_iff.mp zero)
  · by_contra long
    have above : (10 : ℚ) ^ (17 : ℤ) ≤ 10 ^ x.leadingPlace :=
      zpow_le_zpow_right₀ (by norm_num) (by omega)
    norm_num at above small
    linarith

/-- The shortest decimal of an integral number below `2 ^ 54` is that number. -/
theorem value_shortest_of_integral (integral : x.magnitude = n) (small : x.magnitude < 2 ^ 54)
    (tie : Tie) : (x.shortest tie).value = n := by
  unfold shortest
  split
  · rename_i zero
    rw [magnitude_eq_zero_iff.mpr zero] at integral
    simp [Decimal.value, ← integral]
  · rename_i present
    obtain ⟨least, greatest⟩ := leadingPlace_mem present integral small
    obtain ⟨place, leading⟩ := Int.eq_ofNat_of_zero_le least
    rw [leading]
    exact value_refine present integral small 16 place (by omega)

/-- **Whole numbers.** Below `2 ^ 54` a number has a whole number as its shortest decimal only
if it is that number. -/
theorem value_shortest_eq_iff (small : x.magnitude < 2 ^ 54) (tie : Tie) (n : ℕ) :
    (x.shortest tie).value = n ↔ x.magnitude = n := by
  refine ⟨fun same => ?_, fun integral => value_shortest_of_integral integral small tie⟩
  rcases Int.lt_or_le 0 x.exponent with coarse | fine
  · -- A number of units that are two is integral, so its own decimal is that number.
    have exponent : x.exponent = 1 := by
      have := exponent_le_one small
      omega
    have integral : x.magnitude = (x.significand * 2 : ℕ) := by
      rw [magnitude, unit, exponent, zpow_one]
      push_cast
      rfl
    rw [integral, ← value_shortest_of_integral integral small tie, same]
  · exact magnitude_eq_of_rounds fine (same ▸ x.rounds_shortest tie)

/-! ## Beyond the integers of 64 bits -/

/-- The number `2 ^ 64`. -/
def afterWords : Binary64 :=
  ⟨false, 2 ^ 52, 12, by decide⟩

theorem magnitude_afterWords : afterWords.magnitude = 2 ^ 64 := by
  norm_num [magnitude, unit, afterWords]

theorem shortest_afterWords : afterWords.shortest .up = ⟨18446744073709552, 3⟩ := by
  decide +kernel

/-- A number from `2 ^ 64` on is not written like an integer below. -/
theorem le_value_shortest (large : 2 ^ 64 ≤ x.magnitude) : 2 ^ 64 ≤ (x.shortest .up).value := by
  rw [← magnitude_afterWords] at large
  rcases large.lt_or_eq with greater | same
  · have rounds := x.rounds_shortest .up
    rw [← magnitude_afterWords]
    exact (afterWords.rounds_magnitude.lt_of_lt rounds greater).le
  · rw [← shortest_eq_iff.mpr same, shortest_afterWords, Decimal.value]
    norm_num

end AccessPolicy.Number.Binary64

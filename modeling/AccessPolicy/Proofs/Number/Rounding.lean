import AccessPolicy.Number.Shortest
import Mathlib.Algebra.Order.Field.Power
import Mathlib.Data.Rat.Cast.Order
import Mathlib.Tactic.FieldSimp
import Mathlib.Tactic.Linarith
import Mathlib.Tactic.NormNum
import Mathlib.Tactic.Positivity
import Mathlib.Tactic.Ring

/-! # Rounding to binary64 numbers

A magnitude rounds to a number when it lies between the midpoints to the neighbours of that
number; a midpoint itself rounds to the neighbour with the even significand. What is beyond
the midpoint above the largest number rounds to none. So a magnitude rounds to one number
at most, and to no other is it nearer.
-/

namespace AccessPolicy.Number

def Decimal.value (decimal : Decimal) : ℚ :=
  decimal.digits * 10 ^ decimal.exponent

theorem two_zpow_pos (exponent : ℤ) : (0 : ℚ) < 2 ^ exponent :=
  zpow_pos two_pos exponent

theorem ten_zpow_pos (exponent : ℤ) : (0 : ℚ) < 10 ^ exponent :=
  zpow_pos (by norm_num) exponent

/-- A power by a natural exponent is the product of the powers by an integer exponent and by
the part of it that is missing. -/
theorem zpow_mul_pow_toNat {base : ℚ} (nonzero : base ≠ 0) (exponent : ℤ) :
    base ^ exponent * base ^ (-exponent).toNat = base ^ exponent.toNat := by
  rw [← zpow_natCast, ← zpow_natCast, ← zpow_add₀ nonzero]
  congr 1
  omega

/-- A quotient is its floor and a fraction, which is the rest of the division. -/
theorem exists_fraction (numerator : ℕ) {denominator : ℕ} (positive : 0 < denominator) :
    ∃ fraction : ℚ, 0 ≤ fraction ∧ fraction < 1 ∧
      (numerator / denominator : ℚ) = (numerator / denominator : ℕ) + fraction ∧
      fraction * denominator = (numerator % denominator : ℕ) := by
  have cast_pos : (0 : ℚ) < denominator := by exact_mod_cast positive
  refine ⟨(numerator % denominator : ℕ) / denominator, by positivity, ?_, ?_,
    div_mul_cancel₀ _ cast_pos.ne'⟩
  · rw [div_lt_one cast_pos]
    exact_mod_cast Nat.mod_lt numerator positive
  · rw [div_eq_iff cast_pos.ne', add_mul, div_mul_cancel₀ _ cast_pos.ne', mul_comm]
    exact_mod_cast (Nat.div_add_mod numerator denominator).symm

namespace Binary64

/-- A unit in the last place of the significand. -/
def unit (x : Binary64) : ℚ :=
  2 ^ x.exponent

/-- The exact magnitude of a number. -/
def magnitude (x : Binary64) : ℚ :=
  x.significand * x.unit

/-- The exact value of a number. -/
def value (x : Binary64) : ℚ :=
  if x.negative then -x.magnitude else x.magnitude

/-- The distance to the next number below. Below a power of two the numbers lie twice as
close, unless they are subnormal. -/
def unitBelow (x : Binary64) : ℚ :=
  if x.significand = 2 ^ 52 ∧ -1074 < x.exponent then x.unit / 2 else x.unit

/-- A magnitude rounds to the magnitude of a number, a half going to the even
significand. -/
structure Rounds (x : Binary64) (quantity : ℚ) : Prop where
  lower : x.magnitude - x.unitBelow / 2 < quantity ∨
    x.magnitude - x.unitBelow / 2 = quantity ∧ x.significand % 2 = 0
  upper : quantity < x.magnitude + x.unit / 2 ∨
    quantity = x.magnitude + x.unit / 2 ∧ x.significand % 2 = 0

variable {x y : Binary64} {quantity : ℚ}

theorem unit_pos (x : Binary64) : 0 < x.unit :=
  two_zpow_pos x.exponent

theorem unitBelow_pos (x : Binary64) : 0 < x.unitBelow := by
  have := x.unit_pos
  unfold unitBelow
  split <;> linarith

theorem magnitude_nonneg (x : Binary64) : 0 ≤ x.magnitude :=
  mul_nonneg (Nat.cast_nonneg _) x.unit_pos.le

theorem rounds_magnitude (x : Binary64) : x.Rounds x.magnitude where
  lower := .inl (by linarith [x.unitBelow_pos])
  upper := .inl (by linarith [x.unit_pos])

theorem magnitude_eq_zero_iff : x.magnitude = 0 ↔ x.significand = 0 := by
  rw [magnitude, mul_eq_zero, or_iff_left x.unit_pos.ne', Nat.cast_eq_zero]

theorem rounds_zero (negative : Bool) : (zero negative).Rounds 0 := by
  have none : (zero negative).magnitude = 0 := magnitude_eq_zero_iff.mpr rfl
  exact none ▸ (zero negative).rounds_magnitude

/-! ## Neighbours -/

/-- Above the least exponent a significand has all its bits. -/
theorem significand_ge (normal : -1074 < x.exponent) : 2 ^ 52 ≤ x.significand := by
  by_contra narrow
  have least := x.canonical.2.1 (Nat.not_le.mp narrow)
  omega

/-- The unit at a larger exponent is a multiple of that at a smaller one. -/
theorem exists_unit_eq (order : x.exponent ≤ y.exponent) :
    ∃ shift : ℕ, y.exponent = x.exponent + shift ∧ y.unit = 2 ^ shift * x.unit := by
  obtain ⟨shift, exponent⟩ : ∃ shift : ℕ, y.exponent = x.exponent + shift :=
    ⟨(y.exponent - x.exponent).toNat, by omega⟩
  refine ⟨shift, exponent, ?_⟩
  rw [unit, unit, exponent, zpow_add₀ two_ne_zero, zpow_natCast, mul_comm]

/-- A number at a larger exponent is larger. -/
theorem lt_of_exponent_lt (above : x.exponent < y.exponent) : x.magnitude < y.magnitude := by
  obtain ⟨shift, exponent, unit⟩ := exists_unit_eq above.le
  have wide : (2 ^ 52 : ℚ) ≤ y.significand := by
    exact_mod_cast y.significand_ge (x.canonical.2.2.1.trans_lt above)
  have bound : (x.significand : ℚ) < 2 ^ 53 := by exact_mod_cast x.canonical.1
  have double : (2 : ℚ) ≤ 2 ^ shift := by
    obtain ⟨steps, rfl⟩ := Nat.exists_eq_add_of_lt (show 0 < shift by omega)
    rw [Nat.zero_add, pow_succ]
    have : (1 : ℚ) ≤ 2 ^ steps := one_le_pow₀ one_le_two
    linarith
  calc x.magnitude < 2 ^ 52 * 2 * x.unit := by
        rw [magnitude]
        exact mul_lt_mul_of_pos_right (by linarith) x.unit_pos
    _ ≤ y.significand * 2 ^ shift * x.unit := by
        refine mul_le_mul_of_nonneg_right ?_ x.unit_pos.le
        exact mul_le_mul wide double zero_le_two (Nat.cast_nonneg _)
    _ = y.magnitude := by rw [magnitude, unit, mul_assoc]

/-- A smaller number has the smaller significand in the same units. -/
theorem exists_unit_eq_of_lt (less : x.magnitude < y.magnitude) :
    ∃ shift : ℕ, y.exponent = x.exponent + shift ∧ y.unit = 2 ^ shift * x.unit ∧
      x.significand < y.significand * 2 ^ shift := by
  have order : x.exponent ≤ y.exponent := by
    by_contra above
    exact lt_asymm less (lt_of_exponent_lt (Int.not_le.mp above))
  obtain ⟨shift, exponent, unit⟩ := exists_unit_eq order
  refine ⟨shift, exponent, unit, ?_⟩
  rw [magnitude, magnitude, unit, ← mul_assoc, mul_lt_mul_iff_left₀ x.unit_pos] at less
  exact_mod_cast less

/-- A number is at least a unit above every smaller one. -/
theorem add_unit_le (less : x.magnitude < y.magnitude) : x.magnitude + x.unit ≤ y.magnitude := by
  obtain ⟨shift, -, unit, below⟩ := exists_unit_eq_of_lt less
  have next : (x.significand : ℚ) + 1 ≤ y.significand * 2 ^ shift := by exact_mod_cast below
  calc x.magnitude + x.unit = (x.significand + 1) * x.unit := by rw [magnitude]; ring
    _ ≤ y.significand * 2 ^ shift * x.unit := mul_le_mul_of_nonneg_right next x.unit_pos.le
    _ = y.magnitude := by rw [magnitude, unit]; ring

/-- A number is at most the smaller unit below every larger one. -/
theorem add_unitBelow_le (less : x.magnitude < y.magnitude) :
    x.magnitude + y.unitBelow ≤ y.magnitude := by
  obtain ⟨shift, exponent, unit, below⟩ := exists_unit_eq_of_lt less
  have pos := x.unit_pos
  cases shift with
  | zero =>
      -- With the same exponent only the significands differ.
      have whole : y.unitBelow ≤ x.unit := by
        rw [unitBelow, unit, pow_zero, one_mul]
        split <;> linarith
      linarith [add_unit_le less]
  | succ shift =>
      have normal : -1074 < y.exponent := by
        have := x.canonical.2.2.1
        omega
      have bound : (x.significand : ℚ) + 1 ≤ 2 ^ 53 := by exact_mod_cast x.canonical.1
      have shifted : (1 : ℚ) ≤ 2 ^ shift := one_le_pow₀ one_le_two
      have scaled : (2 ^ 53 - 1) * x.unit ≤ (2 ^ 53 - 1) * (2 ^ shift * x.unit) := by
        nlinarith
      have small : x.magnitude ≤ (2 ^ 53 - 1) * x.unit := by
        rw [magnitude]
        nlinarith
      rw [pow_succ] at unit
      rw [unitBelow]
      split
      · rename_i power
        have exact : y.magnitude = 2 ^ 52 * (2 ^ shift * 2 * x.unit) := by
          rw [magnitude, power.1, unit]
          norm_num
        rw [exact, unit]
        linarith
      · rename_i other
        have wider : (2 ^ 52 + 1 : ℚ) ≤ y.significand := by
          have : 2 ^ 52 ≠ y.significand := fun same => other ⟨same.symm, normal⟩
          exact_mod_cast Nat.lt_of_le_of_ne (y.significand_ge normal) this
        have above : (2 ^ 52 + 1) * y.unit ≤ y.magnitude :=
          mul_le_mul_of_nonneg_right wider y.unit_pos.le
        rw [unit] at above ⊢
        nlinarith

/-- Of two numbers a unit apart one has an odd significand. -/
theorem odd_of_add_unit_eq (adjacent : x.magnitude + x.unit = y.magnitude) :
    x.significand % 2 = 1 ∨ y.significand % 2 = 1 := by
  have less : x.magnitude < y.magnitude := by linarith [x.unit_pos]
  obtain ⟨shift, -, unit, -⟩ := exists_unit_eq_of_lt less
  have next : x.significand + 1 = y.significand * 2 ^ shift := by
    have same : ((x.significand : ℚ) + 1) * x.unit = y.significand * 2 ^ shift * x.unit := by
      rw [magnitude, magnitude, unit] at adjacent
      linarith
    exact_mod_cast mul_right_cancel₀ x.unit_pos.ne' same
  cases shift with
  | zero =>
      rw [pow_zero, mul_one] at next
      omega
  | succ shift =>
      rw [pow_succ, ← mul_assoc] at next
      omega

/-! ## What rounds to a number -/

/-- What rounds to a number is not above what rounds to a larger one, and it is not the
same. -/
theorem Rounds.lt_of_lt {other : ℚ} (first : x.Rounds quantity) (second : y.Rounds other)
    (less : x.magnitude < y.magnitude) : quantity < other := by
  have above := add_unit_le less
  have below := add_unitBelow_le less
  rcases first.upper with under | ⟨top, even⟩ <;> rcases second.lower with beyond | ⟨bottom, even'⟩
  · linarith
  · linarith
  · linarith
  · rcases eq_or_lt_of_le above with adjacent | apart
    · rcases odd_of_add_unit_eq adjacent with odd | odd <;> omega
    · linarith

/-- A magnitude rounds to one number at most. -/
theorem Rounds.magnitude_eq (first : x.Rounds quantity) (second : y.Rounds quantity) :
    x.magnitude = y.magnitude := by
  rcases lt_trichotomy x.magnitude y.magnitude with less | same | greater
  · exact absurd (first.lt_of_lt second less) (lt_irrefl _)
  · exact same
  · exact absurd (second.lt_of_lt first greater) (lt_irrefl _)

/-- No number is nearer to a magnitude than the one it rounds to. -/
theorem Rounds.nearest (rounds : x.Rounds quantity) (y : Binary64) :
    |x.magnitude - quantity| ≤ |y.magnitude - quantity| := by
  have lower : x.magnitude - x.unitBelow / 2 ≤ quantity := by
    rcases rounds.lower with beyond | ⟨bottom, -⟩ <;> linarith
  have upper : quantity ≤ x.magnitude + x.unit / 2 := by
    rcases rounds.upper with under | ⟨top, -⟩ <;> linarith
  rcases lt_trichotomy x.magnitude y.magnitude with less | same | greater
  · have above := add_unit_le less
    have := x.unit_pos
    rw [abs_of_nonneg (a := y.magnitude - quantity) (by linarith)]
    exact abs_le.mpr ⟨by linarith [x.unitBelow_pos], by linarith⟩
  · rw [same]
  · have below := add_unitBelow_le greater
    have := x.unitBelow_pos
    rw [abs_of_nonpos (a := y.magnitude - quantity) (by linarith)]
    exact abs_le.mpr ⟨by linarith, by linarith⟩

/-- A number is determined by its sign and its magnitude. -/
theorem eq_of_magnitude_eq (sign : x.negative = y.negative) (same : x.magnitude = y.magnitude) :
    x = y := by
  have exponent : x.exponent = y.exponent := by
    rcases lt_trichotomy x.exponent y.exponent with below | same_exponent | above
    · exact absurd same (lt_of_exponent_lt below).ne
    · exact same_exponent
    · exact absurd same (lt_of_exponent_lt above).ne'
  have significand : x.significand = y.significand := by
    rw [magnitude, magnitude, unit, unit, exponent] at same
    exact_mod_cast mul_right_cancel₀ (two_zpow_pos _).ne' same
  obtain ⟨_, _, _, _⟩ := x
  obtain ⟨_, _, _, _⟩ := y
  cases sign
  cases exponent
  cases significand
  rfl

/-- The midpoint above the largest number. -/
def limit : ℚ :=
  (2 ^ 53 - 1 / 2) * 2 ^ (971 : ℤ)

/-- What rounds to a number is below the limit. -/
theorem Rounds.lt_limit (rounds : x.Rounds quantity) : quantity < limit := by
  have unit : x.unit ≤ 2 ^ (971 : ℤ) := zpow_le_zpow_right₀ one_le_two x.canonical.2.2.2
  have pos := x.unit_pos
  have upper : x.magnitude + x.unit / 2 = (x.significand + 1 / 2) * x.unit := by
    rw [magnitude]
    ring
  have top : ∀ bound : ℚ, x.significand + 1 / 2 ≤ bound → 0 ≤ bound →
      (x.significand + 1 / 2) * x.unit ≤ bound * 2 ^ (971 : ℤ) :=
    fun bound below nonneg => mul_le_mul below unit pos.le nonneg
  rcases rounds.upper with under | ⟨on, even⟩
  · have bound : (x.significand : ℚ) + 1 ≤ 2 ^ 53 := by exact_mod_cast x.canonical.1
    exact under.trans_le (upper.trans_le (top _ (by linarith) (by norm_num)))
  · -- The largest significand is odd.
    have bound : (x.significand : ℚ) + 2 ≤ 2 ^ 53 := by
      have : x.significand < 2 ^ 53 := x.canonical.1
      exact_mod_cast (show x.significand + 2 ≤ 2 ^ 53 by omega)
    rw [on, upper]
    refine (top (2 ^ 53 - 3 / 2) (by linarith) (by norm_num)).trans_lt ?_
    exact mul_lt_mul_of_pos_right (by norm_num) (two_zpow_pos _)

end Binary64

end AccessPolicy.Number

import AccessPolicy.Proofs.Number.Rounding

/-! # Shortest decimals round to their numbers

The decimal that is taken for a number rounds to it: a hit on a coarse grid is tested, and
on the grid of seventeen digits the nearer of two neighbours is nearer than any midpoint.
-/

namespace AccessPolicy.Number.Binary64

variable {x : Binary64}

theorem cmp_natCast (a b : ℕ) : cmp (a : ℚ) b = compare a b := by
  rw [(Nat.strictMono_cast : StrictMono (Nat.cast : ℕ → ℚ)).cmp_map_eq, cmp_eq_compare]

/-- Comparing natural numbers compares the decimal with the binary number. -/
theorem compareDecimal_eq (a : ℕ) (p : ℤ) (b : ℕ) (q : ℤ) :
    compareDecimal a p b q = cmp (a * 10 ^ p : ℚ) (b * 2 ^ q) := by
  have scale : (0 : ℚ) < 10 ^ (-p).toNat * 2 ^ (-q).toNat := by positivity
  have left : (a * 10 ^ p : ℚ) * (10 ^ (-p).toNat * 2 ^ (-q).toNat) =
      ((a * 10 ^ p.toNat * 2 ^ (-q).toNat : ℕ) : ℚ) := by
    push_cast
    rw [← zpow_mul_pow_toNat (by norm_num) p]
    ring
  have right : (b * 2 ^ q : ℚ) * (10 ^ (-p).toNat * 2 ^ (-q).toNat) =
      ((b * 2 ^ q.toNat * 10 ^ (-p).toNat : ℕ) : ℚ) := by
    push_cast
    rw [← zpow_mul_pow_toNat two_ne_zero q]
    ring
  rw [← cmp_mul_pos_right scale, left, right, cmp_natCast]
  rfl

theorem compareDecimal_eq_gt_iff {a b : ℕ} {p q : ℤ} :
    compareDecimal a p b q = .gt ↔ (b * 2 ^ q : ℚ) < a * 10 ^ p := by
  rw [compareDecimal_eq, cmp_eq_gt_iff]

theorem compareDecimal_eq_eq_iff {a b : ℕ} {p q : ℤ} :
    compareDecimal a p b q = .eq ↔ (a * 10 ^ p : ℚ) = b * 2 ^ q := by
  rw [compareDecimal_eq, cmp_eq_eq_iff]

theorem compareDecimal_eq_lt_iff {a b : ℕ} {p q : ℤ} :
    compareDecimal a p b q = .lt ↔ (a * 10 ^ p : ℚ) < b * 2 ^ q := by
  rw [compareDecimal_eq, cmp_eq_lt_iff]

theorem unit_eq_quarters (x : Binary64) : x.unit = 4 * 2 ^ (x.exponent - 2) := by
  rw [unit, show x.exponent = 2 + (x.exponent - 2) by ring, zpow_add₀ two_ne_zero]
  norm_num

theorem upperQuarters_eq (x : Binary64) :
    (x.upperQuarters : ℚ) * 2 ^ (x.exponent - 2) = x.magnitude + x.unit / 2 := by
  rw [magnitude, unit_eq_quarters, upperQuarters, quarters]
  push_cast
  ring

theorem lowerQuarters_eq (present : x.significand ≠ 0) :
    (x.lowerQuarters : ℚ) * 2 ^ (x.exponent - 2) = x.magnitude - x.unitBelow / 2 := by
  have power : (Nat.pow 2 52 : ℕ) = 2 ^ 52 := rfl
  rw [magnitude, unitBelow, unit_eq_quarters, lowerQuarters, quarters, power]
  split
  · rw [Nat.cast_sub (by omega)]
    push_cast
    ring
  · rw [Nat.cast_sub (by omega)]
    push_cast
    ring

/-- The test on a decimal tells whether it rounds to the number. -/
theorem holds_eq_true_iff (present : x.significand ≠ 0) (digits : ℕ) (exponent : ℤ) :
    x.holds digits exponent = true ↔ x.Rounds (digits * 10 ^ exponent) := by
  simp only [holds, Bool.and_eq_true, Bool.or_eq_true, beq_iff_eq, compareDecimal_eq_gt_iff,
    compareDecimal_eq_eq_iff, compareDecimal_eq_lt_iff, upperQuarters_eq, lowerQuarters_eq present]
  constructor
  · rintro ⟨lower, upper⟩
    exact ⟨lower.imp_right fun on => ⟨on.1.symm, on.2⟩, upper⟩
  · rintro ⟨lower, upper⟩
    exact ⟨lower.imp_right fun on => ⟨on.1.symm, on.2⟩, upper⟩

/-! ## The grid points around a number -/

theorem quotient_eq (x : Binary64) :
    0 < x.quotient.2 ∧ (x.quotient.1 : ℚ) / x.quotient.2 = x.magnitude := by
  have positive : 0 < (2 : ℕ) ^ (-x.exponent).toNat := Nat.two_pow_pos _
  refine ⟨positive, ?_⟩
  change ((x.significand * 2 ^ x.exponent.toNat : ℕ) : ℚ) / ((2 ^ (-x.exponent).toNat : ℕ) : ℚ) = _
  rw [div_eq_iff (by exact_mod_cast positive.ne')]
  push_cast
  rw [magnitude, unit, mul_assoc, zpow_mul_pow_toNat two_ne_zero]

/-- A number lies less than a step above its floor on a grid. -/
theorem gridFloor_spec (x : Binary64) (exponent : ℤ) :
    ∃ rest : ℚ, 0 ≤ rest ∧ rest < 1 ∧
      x.magnitude = ((x.gridFloor exponent).1 + rest) * 10 ^ exponent ∧
      (x.gridFloor exponent).2 = cmp rest (1 / 2) := by
  obtain ⟨positive, ratio⟩ := x.quotient_eq
  generalize numerator_eq : x.quotient.1 = numerator at ratio
  generalize denominator_eq : x.quotient.2 = denominator at positive ratio
  have floor_eq : x.gridFloor exponent =
      ((numerator * 10 ^ (-exponent).toNat) / (denominator * 10 ^ exponent.toNat),
        compare (2 * ((numerator * 10 ^ (-exponent).toNat) % (denominator * 10 ^ exponent.toNat)))
          (denominator * 10 ^ exponent.toNat)) := by
    rw [← numerator_eq, ← denominator_eq]
    rfl
  have scaled : (x.magnitude : ℚ) / 10 ^ exponent =
      ((numerator * 10 ^ (-exponent).toNat : ℕ) : ℚ) /
        ((denominator * 10 ^ exponent.toNat : ℕ) : ℚ) := by
    have := ten_zpow_pos exponent
    have : (denominator : ℚ) ≠ 0 := by exact_mod_cast positive.ne'
    push_cast
    rw [← ratio, ← zpow_mul_pow_toNat (by norm_num) exponent]
    field_simp
  rw [floor_eq]
  have widened : 0 < denominator * 10 ^ exponent.toNat := by positivity
  generalize numerator * 10 ^ (-exponent).toNat = above at scaled
  generalize denominator * 10 ^ exponent.toNat = below at scaled widened
  have cast_pos : (0 : ℚ) < below := by exact_mod_cast widened
  obtain ⟨fraction, nonneg, less, split, rest⟩ := exists_fraction above widened
  refine ⟨fraction, nonneg, less, ?_, ?_⟩
  · rw [← split, ← scaled, div_mul_cancel₀ _ (ten_zpow_pos _).ne']
  · have double : (0 : ℚ) < 2 * below := by positivity
    have twice : ((2 * (above % below) : ℕ) : ℚ) = fraction * (2 * below) := by
      rw [Nat.cast_mul, ← rest]
      push_cast
      ring
    have whole : (below : ℚ) = 1 / 2 * (2 * below) := by ring
    rw [← cmp_mul_pos_right double, ← cmp_natCast, twice, ← whole]

/-- The nearer grid point is the floor unless the number is more than half a step above it,
and the next one unless it is less. -/
theorem nearestOnGrid_cases (x : Binary64) (tie : Tie) (exponent : ℤ) :
    x.nearestOnGrid tie exponent = (x.gridFloor exponent).1 ∧ (x.gridFloor exponent).2 ≠ .gt ∨
      x.nearestOnGrid tie exponent = (x.gridFloor exponent).1 + 1 ∧
        (x.gridFloor exponent).2 ≠ .lt := by
  unfold nearestOnGrid
  rcases x.gridFloor exponent with ⟨floor, side⟩
  cases side with
  | lt => exact .inl ⟨rfl, nofun⟩
  | gt => exact .inr ⟨rfl, nofun⟩
  | eq =>
      cases tie with
      | even =>
          rcases Nat.mod_two_eq_zero_or_one floor with even | odd
          · exact .inl ⟨congrArg (floor + ·) even, nofun⟩
          · exact .inr ⟨congrArg (floor + ·) odd, nofun⟩
      | up => exact .inr ⟨rfl, nofun⟩

/-- The nearer grid point is at most half a step away. -/
theorem abs_nearestOnGrid_le (x : Binary64) (tie : Tie) (exponent : ℤ) :
    |(x.nearestOnGrid tie exponent : ℚ) * 10 ^ exponent - x.magnitude| ≤ 10 ^ exponent / 2 := by
  obtain ⟨rest, nonneg, below, exact, side⟩ := x.gridFloor_spec exponent
  have step := ten_zpow_pos exponent
  rw [abs_le, exact]
  rcases x.nearestOnGrid_cases tie exponent with ⟨floor, notAbove⟩ | ⟨next, notBelow⟩
  · rw [side, ne_eq, cmp_eq_gt_iff, not_lt] at notAbove
    rw [floor]
    constructor <;> nlinarith
  · rw [side, ne_eq, cmp_eq_lt_iff, not_lt] at notBelow
    rw [next, Nat.cast_add, Nat.cast_one]
    constructor <;> nlinarith

/-- On a grid that contains the number, the nearer grid point is the number itself. -/
theorem nearestOnGrid_of_magnitude_eq {exponent : ℤ} {point : ℕ}
    (exact : x.magnitude = point * 10 ^ exponent) (tie : Tie) :
    (x.gridFloor exponent).1 = point ∧ x.nearestOnGrid tie exponent = point := by
  obtain ⟨rest, nonneg, below, position, side⟩ := x.gridFloor_spec exponent
  rw [exact] at position
  have same := mul_right_cancel₀ (ten_zpow_pos exponent).ne' position
  have floor : (x.gridFloor exponent).1 = point := by
    have upper : (x.gridFloor exponent).1 < point + 1 := by
      have : ((x.gridFloor exponent).1 : ℚ) < point + 1 := by linarith
      exact_mod_cast this
    have lower : point < (x.gridFloor exponent).1 + 1 := by
      have : (point : ℚ) < (x.gridFloor exponent).1 + 1 := by linarith
      exact_mod_cast this
    omega
  refine ⟨floor, ?_⟩
  rcases x.nearestOnGrid_cases tie exponent with ⟨nearest, -⟩ | ⟨-, notBelow⟩
  · exact nearest.trans floor
  · rw [floor] at same
    rw [side, ne_eq, cmp_eq_lt_iff] at notBelow
    exact absurd (show rest < 1 / 2 by linarith) notBelow

/-- A grid point that is taken rounds to the number. -/
theorem rounds_of_onGrid? {tie : Tie} {exponent : ℤ} {digits : ℕ} (present : x.significand ≠ 0)
    (hit : x.onGrid? tie exponent = some digits) : x.Rounds (digits * 10 ^ exponent) := by
  rw [← holds_eq_true_iff present]
  simp only [onGrid?] at hit
  split at hit
  · rename_i lower upper
    cases hit
    rcases x.nearestOnGrid_cases tie exponent with ⟨floor, -⟩ | ⟨next, -⟩
    · rw [floor]
      exact lower
    · rw [next]
      exact upper
  · rename_i lower _
    cases hit
    exact lower
  · rename_i _ upper
    cases hit
    exact upper
  · contradiction

/-! ## From coarse to fine grids -/

/-- What is found on some grid rounds to the number if the nearer point of the finest grid
does. -/
theorem rounds_refine {tie : Tie} (present : x.significand ≠ 0) (steps : ℕ) (exponent : ℤ)
    (finest : x.Rounds (x.nearestOnGrid tie (exponent - steps) * 10 ^ (exponent - steps))) :
    x.Rounds (x.refine tie steps exponent).value := by
  induction steps generalizing exponent with
  | zero => simpa [refine, Decimal.value] using finest
  | succ steps ih =>
      rw [refine]
      cases hit : x.onGrid? tie exponent with
      | some digits => exact rounds_of_onGrid? present hit
      | none =>
          apply ih
          rw [show exponent - 1 - (steps : ℤ) = exponent - (steps + 1 : ℕ) by push_cast; ring]
          exact finest

/-- A positive number has as many digits as it takes to exceed it. -/
theorem length_toDigits_spec {n : ℕ} (positive : 0 < n) :
    10 ^ ((Nat.toDigits 10 n).length - 1) ≤ n ∧ n < 10 ^ (Nat.toDigits 10 n).length := by
  have digits : 0 < (Nat.toDigits 10 n).length := Nat.length_toDigits_pos
  refine ⟨?_, (Nat.length_toDigits_le_iff (by norm_num) digits).mp le_rfl⟩
  by_contra less
  rcases Nat.eq_zero_or_pos ((Nat.toDigits 10 n).length - 1) with single | several
  · rw [single] at less
    omega
  · have := (Nat.length_toDigits_le_iff (by norm_num) several).mpr (Nat.not_le.mp less)
    omega

/-- The leading place of a number is that of its first decimal digit. -/
theorem leadingPlace_spec (present : x.significand ≠ 0) :
    10 ^ x.leadingPlace ≤ x.magnitude ∧ x.magnitude < 10 ^ (x.leadingPlace + 1) := by
  obtain ⟨positive, ratio⟩ := x.quotient_eq
  have numerator_pos : 0 < x.quotient.1 :=
    Nat.mul_pos (Nat.pos_of_ne_zero present) (Nat.two_pow_pos _)
  have place : x.leadingPlace =
      if x.quotient.2 ≤ x.quotient.1 then
        ((Nat.toDigits 10 (x.quotient.1 / x.quotient.2)).length : ℤ) - 1
      else -((Nat.toDigits 10 ((x.quotient.2 - 1) / x.quotient.1)).length : ℤ) := rfl
  rw [place, ← ratio]
  generalize x.quotient.1 = above at numerator_pos
  generalize x.quotient.2 = below at positive
  have above_cast : (0 : ℚ) < above := by exact_mod_cast numerator_pos
  have below_cast : (0 : ℚ) < below := by exact_mod_cast positive
  rw [le_div_iff₀ below_cast, div_lt_iff₀ below_cast]
  split
  · rename_i large
    obtain ⟨least, greatest⟩ := length_toDigits_spec (Nat.div_pos large positive)
    generalize length : (Nat.toDigits 10 (above / below)).length = count at least greatest
    obtain ⟨digits, rfl⟩ : ∃ digits, count = digits + 1 :=
      ⟨count - 1, by have := length ▸ Nat.length_toDigits_pos; omega⟩
    rw [show ((digits + 1 : ℕ) : ℤ) - 1 = digits by push_cast; ring, ← Nat.cast_succ,
      zpow_natCast, zpow_natCast]
    constructor
    · exact_mod_cast (Nat.le_div_iff_mul_le positive).mp least
    · exact_mod_cast (Nat.div_lt_iff_lt_mul positive).mp greatest
  · rename_i small
    have quotient_pos : 0 < (below - 1) / above := Nat.div_pos (by omega) numerator_pos
    obtain ⟨least, greatest⟩ := length_toDigits_spec quotient_pos
    generalize length : (Nat.toDigits 10 ((below - 1) / above)).length = count at least greatest
    obtain ⟨digits, rfl⟩ : ∃ digits, count = digits + 1 :=
      ⟨count - 1, by have := length ▸ Nat.length_toDigits_pos; omega⟩
    have lower := (Nat.le_div_iff_mul_le numerator_pos).mp least
    have upper := (Nat.div_lt_iff_lt_mul numerator_pos).mp greatest
    rw [show -((digits + 1 : ℕ) : ℤ) + 1 = -(digits : ℤ) by push_cast; ring, zpow_neg, zpow_neg,
      zpow_natCast, zpow_natCast, inv_mul_le_iff₀ (by positivity), lt_inv_mul_iff₀ (by positivity)]
    constructor
    · exact_mod_cast (show below ≤ 10 ^ (digits + 1) * above by omega)
    · rw [Nat.add_sub_cancel] at lower
      exact_mod_cast (show 10 ^ digits * above < below by omega)

/-- On the grid of seventeen digits the nearer point rounds to the number. -/
theorem rounds_seventeenDigits (present : x.significand ≠ 0) (tie : Tie) :
    x.Rounds (x.nearestOnGrid tie (x.leadingPlace - 16) * 10 ^ (x.leadingPlace - 16)) := by
  obtain ⟨under, beyond⟩ := abs_le.mp (x.abs_nearestOnGrid_le tie (x.leadingPlace - 16))
  have lead := (leadingPlace_spec present).1
  have sixteen : (10 : ℚ) ^ x.leadingPlace = 10 ^ 16 * 10 ^ (x.leadingPlace - 16) := by
    rw [zpow_sub₀ (by norm_num)]
    field_simp
  rw [sixteen] at lead
  have positive := ten_zpow_pos (x.leadingPlace - 16)
  generalize (10 : ℚ) ^ (x.leadingPlace - 16) = step at under beyond lead positive ⊢
  have unit := x.unit_pos
  have bound : (x.significand : ℚ) < 2 ^ 53 := by exact_mod_cast x.canonical.1
  have below : x.magnitude < 2 ^ 53 * x.unit := mul_lt_mul_of_pos_right bound unit
  have narrow : step < x.unitBelow := by
    rw [unitBelow]
    split
    · rename_i power
      rw [magnitude, power.1] at lead
      push_cast at lead
      linarith
    · linarith
  exact ⟨.inl (by linarith), .inl (by linarith)⟩

/-- **Shortest decimals.** The decimal that is taken for a number rounds to it. -/
theorem rounds_shortest (x : Binary64) (tie : Tie) : x.Rounds (x.shortest tie).value := by
  unfold shortest
  split
  · rename_i zero
    have same := x.rounds_magnitude
    rw [magnitude_eq_zero_iff.mpr zero] at same
    simpa [Decimal.value] using same
  · rename_i present
    exact rounds_refine present 16 _ (rounds_seventeenDigits present tie)

/-- Only zero has zero as its shortest decimal. -/
theorem value_shortest_eq_zero_iff {tie : Tie} :
    (x.shortest tie).value = 0 ↔ x.magnitude = 0 := by
  constructor
  · intro none
    have rounds := x.rounds_shortest tie
    rw [none] at rounds
    exact (rounds.magnitude_eq (rounds_zero false)).trans (magnitude_eq_zero_iff.mpr rfl)
  · intro none
    rw [shortest, if_pos (magnitude_eq_zero_iff.mp none), Decimal.value, Nat.cast_zero, zero_mul]

theorem refine_setNegative (negative : Bool) (tie : Tie) (steps : ℕ) (exponent : ℤ) :
    refine { x with negative } tie steps exponent = x.refine tie steps exponent := by
  induction steps generalizing exponent with
  | zero => rfl
  | succ steps ih =>
      rw [refine, refine, ih]
      rfl

/-- The shortest decimal does not depend on the sign. -/
theorem shortest_setNegative (negative : Bool) (tie : Tie) :
    shortest { x with negative } tie = x.shortest tie := by
  rw [shortest, shortest, refine_setNegative]
  rfl

/-- Numbers have the same shortest decimal exactly when they have the same magnitude. -/
theorem shortest_eq_iff {y : Binary64} {tie : Tie} :
    (x.shortest tie).value = (y.shortest tie).value ↔ x.magnitude = y.magnitude := by
  constructor
  · intro same
    exact (same ▸ x.rounds_shortest tie).magnitude_eq (y.rounds_shortest tie)
  · intro same
    have turned : { x with negative := y.negative } = y := eq_of_magnitude_eq rfl same
    rw [← turned]
    exact congrArg Decimal.value (shortest_setNegative _ _).symm

end AccessPolicy.Number.Binary64

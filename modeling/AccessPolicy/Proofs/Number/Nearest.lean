import AccessPolicy.Proofs.Number.Rounding

/-! # Decimals are rounded to the nearest number

A decimal is rounded by a division in whole numbers at the exponent that leaves a full
significand. The outcome is the number that the decimal rounds to; there is none exactly
when the decimal is not below the limit.
-/

namespace AccessPolicy.Number.Binary64

variable {numerator denominator : ℕ} {negative : Bool} {x : Binary64}

/-! ## Whole quotients -/

/-- The whole number nearest to a quantity, the even one of two. -/
structure IsNearest (whole : ℕ) (quantity : ℚ) : Prop where
  lower : whole - 1 / 2 < quantity ∨ whole - 1 / 2 = quantity ∧ whole % 2 = 0
  upper : quantity < whole + 1 / 2 ∨ quantity = whole + 1 / 2 ∧ whole % 2 = 0

theorem isNearest_roundQuotient (numerator : ℕ) (positive : 0 < denominator) :
    IsNearest (roundQuotient numerator denominator) (numerator / denominator) := by
  have cast_pos : (0 : ℚ) < denominator := by exact_mod_cast positive
  obtain ⟨rest, nonneg, below, exact, rest_eq⟩ := exists_fraction numerator positive
  rw [exact]
  unfold roundQuotient
  generalize numerator / denominator = floor
  generalize numerator % denominator = left at rest_eq
  dsimp only
  split
  · rename_i low
    have : rest < 1 / 2 := by
      have : (2 * left : ℚ) < denominator := by exact_mod_cast low
      nlinarith
    exact ⟨.inl (by linarith), .inl (by linarith)⟩
  · rename_i notLow
    split
    · rename_i high
      have : 1 / 2 < rest := by
        have : (denominator : ℚ) < 2 * left := by exact_mod_cast high
        nlinarith
      refine ⟨.inl ?_, .inl ?_⟩ <;> push_cast <;> linarith
    · rename_i notHigh
      have half : rest = 1 / 2 := by
        have : (2 * left : ℚ) = denominator := by
          exact_mod_cast (show 2 * left = denominator by omega)
        nlinarith
      rw [half]
      rcases Nat.mod_two_eq_zero_or_one floor with even | odd
      · rw [even, Nat.add_zero]
        exact ⟨.inl (by linarith), .inr ⟨rfl, even⟩⟩
      · rw [odd]
        refine ⟨.inr ⟨?_, by omega⟩, .inl ?_⟩
        · push_cast
          ring
        · push_cast
          linarith

/-- A scaled quotient is the quotient divided by the power. -/
theorem scaled_spec (numerator : ℕ) (positive : 0 < denominator) (exponent : ℤ) :
    0 < (scaled numerator denominator exponent).2 ∧
      ((scaled numerator denominator exponent).1 / (scaled numerator denominator exponent).2 : ℚ) =
        numerator / denominator / 2 ^ exponent := by
  have power := two_zpow_pos exponent
  have cast_pos : (0 : ℚ) < denominator := by exact_mod_cast positive
  refine ⟨Nat.mul_pos positive (Nat.two_pow_pos _), ?_⟩
  change ((numerator * 2 ^ (-exponent).toNat : ℕ) : ℚ) / (denominator * 2 ^ exponent.toNat : ℕ) = _
  push_cast
  rw [← zpow_mul_pow_toNat two_ne_zero exponent]
  field_simp

/-! ## The exponent of a quotient -/

/-- The logarithms of its parts tell the size of a quotient. -/
theorem quotient_bounds (numerator_pos : 0 < numerator) (denominator_pos : 0 < denominator) :
    (2 : ℚ) ^ ((numerator.log2 : ℤ) - denominator.log2 - 1) < numerator / denominator ∧
      (numerator / denominator : ℚ) < 2 ^ ((numerator.log2 : ℤ) - denominator.log2 + 1) := by
  have cast_pos : (0 : ℚ) < denominator := by exact_mod_cast denominator_pos
  have numerator_ge : (2 : ℚ) ^ numerator.log2 ≤ numerator := by
    exact_mod_cast Nat.log2_self_le numerator_pos.ne'
  have numerator_lt : (numerator : ℚ) < 2 ^ (numerator.log2 + 1) := by
    exact_mod_cast Nat.lt_log2_self
  have denominator_ge : (2 : ℚ) ^ denominator.log2 ≤ denominator := by
    exact_mod_cast Nat.log2_self_le denominator_pos.ne'
  have denominator_lt : (denominator : ℚ) < 2 ^ (denominator.log2 + 1) := by
    exact_mod_cast Nat.lt_log2_self
  have power := two_zpow_pos ((numerator.log2 : ℤ) - denominator.log2)
  have split : (2 : ℚ) ^ ((numerator.log2 : ℤ) - denominator.log2) * 2 ^ denominator.log2 =
      2 ^ numerator.log2 := by
    rw [← zpow_natCast, ← zpow_natCast, ← zpow_add₀ two_ne_zero, sub_add_cancel]
  rw [zpow_sub_one₀ two_ne_zero, zpow_add_one₀ two_ne_zero, lt_div_iff₀ cast_pos,
    div_lt_iff₀ cast_pos]
  rw [pow_succ] at numerator_lt denominator_lt
  constructor <;> nlinarith

/-- At the exponent of a quotient there is a significand of 53 bits, and all of them count
above the least exponent. -/
theorem exponentOf_spec (numerator_pos : 0 < numerator) (denominator_pos : 0 < denominator) :
    -1074 ≤ exponentOf numerator denominator ∧
      (numerator / denominator / 2 ^ exponentOf numerator denominator : ℚ) < 2 ^ 53 ∧
      (-1074 < exponentOf numerator denominator →
        (2 ^ 52 : ℚ) ≤ numerator / denominator / 2 ^ exponentOf numerator denominator) := by
  obtain ⟨beyond, under⟩ := quotient_bounds numerator_pos denominator_pos
  have exponent_eq : exponentOf numerator denominator =
      if (scaled numerator denominator (max (-1074) (numerator.log2 - denominator.log2 - 53))).1 /
          (scaled numerator denominator (max (-1074) (numerator.log2 - denominator.log2 - 53))).2 <
        2 ^ 53
      then max (-1074) ((numerator.log2 : ℤ) - denominator.log2 - 53)
      else max (-1074) ((numerator.log2 : ℤ) - denominator.log2 - 53) + 1 := rfl
  rw [exponent_eq]
  generalize below_eq : max (-1074) ((numerator.log2 : ℤ) - denominator.log2 - 53) = below
  obtain ⟨scaled_pos, ratio⟩ := scaled_spec numerator denominator_pos below
  have cast_pos : (0 : ℚ) < (scaled numerator denominator below).2 := by exact_mod_cast scaled_pos
  have power := two_zpow_pos below
  split
  · rename_i fits
    rw [Nat.div_lt_iff_lt_mul scaled_pos] at fits
    refine ⟨by omega, ?_, fun normal => ?_⟩
    · rw [← ratio, div_lt_iff₀ cast_pos]
      exact_mod_cast fits
    · rw [show (numerator.log2 : ℤ) - denominator.log2 - 1 = 52 + below by omega,
        zpow_add₀ two_ne_zero] at beyond
      rw [le_div_iff₀ power]
      exact beyond.le
  · rename_i wide
    rw [Nat.div_lt_iff_lt_mul scaled_pos] at wide
    refine ⟨by omega, ?_, fun _ => ?_⟩
    · have bound :
          (2 : ℚ) ^ ((numerator.log2 : ℤ) - denominator.log2 + 1) ≤ 2 ^ (53 + (below + 1)) :=
        zpow_le_zpow_right₀ one_le_two (by omega)
      rw [zpow_add₀ two_ne_zero 53] at bound
      rw [div_lt_iff₀ (two_zpow_pos _)]
      exact under.trans_le bound
    · have large : (2 ^ 53 : ℚ) ≤ numerator / denominator / 2 ^ below := by
        rw [← ratio, le_div_iff₀ cast_pos]
        exact_mod_cast Nat.not_lt.mp wide
      rw [zpow_add_one₀ two_ne_zero, ← div_div, le_div_iff₀ two_pos]
      linarith

/-! ## Rounded quotients -/

theorem ofParts?_eq_some {significand : ℕ} {exponent : ℤ}
    (made : ofParts? negative significand exponent = some x) :
    ∃ canonical, x = ⟨negative, significand, exponent, canonical⟩ := by
  rw [ofParts?] at made
  split at made
  · rename_i canonical
    exact ⟨canonical, (Option.some.inj made).symm⟩
  · contradiction

theorem ofParts?_ne_none {significand : ℕ} {exponent : ℤ}
    (canonical : IsCanonical significand exponent) :
    ofParts? negative significand exponent ≠ none := by
  rw [ofParts?, dif_pos canonical]
  exact Option.some_ne_none _

/-- A significand nearest to a quotient makes the number that the scaled quotient rounds
to. -/
theorem rounds_of_isNearest {significand : ℕ} {exponent : ℤ} {quantity : ℚ}
    (canonical : IsCanonical significand exponent) (nearest : IsNearest significand quantity)
    (full : -1074 < exponent → 2 ^ 52 ≤ quantity) :
    (⟨negative, significand, exponent, canonical⟩ : Binary64).Rounds (quantity * 2 ^ exponent) := by
  have power := two_zpow_pos exponent
  constructor
  · simp only [magnitude, unitBelow, unit]
    split
    · rename_i least
      have := full least.2
      left
      rw [least.1]
      push_cast
      nlinarith
    · rcases nearest.lower with beyond | ⟨on, even⟩
      · left
        nlinarith
      · right
        exact ⟨by rw [← on]; ring, even⟩
  · simp only [magnitude, unit]
    rcases nearest.upper with under | ⟨on, even⟩
    · left
      nlinarith
    · right
      exact ⟨by rw [on]; ring, even⟩

/-- A quotient that is rounded up to one bit more makes the next power of two. -/
theorem rounds_of_carry {exponent : ℤ} {quantity : ℚ} (least : -1074 ≤ exponent)
    (canonical : IsCanonical (2 ^ 52) (exponent + 1)) (nearest : IsNearest (2 ^ 53) quantity)
    (under : quantity < 2 ^ 53) :
    (⟨negative, 2 ^ 52, exponent + 1, canonical⟩ : Binary64).Rounds (quantity * 2 ^ exponent) := by
  have power := two_zpow_pos exponent
  have next : (⟨negative, 2 ^ 52, exponent + 1, canonical⟩ : Binary64).unit = 2 * 2 ^ exponent := by
    rw [unit, zpow_add_one₀ two_ne_zero, mul_comm]
  have below :
      (⟨negative, 2 ^ 52, exponent + 1, canonical⟩ : Binary64).unitBelow = 2 ^ exponent := by
    rw [unitBelow, if_pos ⟨rfl, show -1074 < exponent + 1 by omega⟩, next]
    ring
  have size : (⟨negative, 2 ^ 52, exponent + 1, canonical⟩ : Binary64).magnitude =
      2 ^ 53 * 2 ^ exponent := by
    rw [magnitude, next]
    push_cast
    ring
  constructor
  · rw [below, size]
    rcases nearest.lower with beyond | ⟨on, -⟩
    · left
      push_cast at beyond
      nlinarith
    · right
      push_cast at on
      exact ⟨by rw [← on]; ring, show 2 ^ 52 % 2 = 0 by norm_num⟩
  · left
    rw [next, size]
    nlinarith

/-- A quotient is brought to a full significand and rounded to a whole one. -/
theorem exists_isNearest (negative : Bool) (numerator_pos : 0 < numerator)
    (denominator_pos : 0 < denominator) :
    ∃ (significand : ℕ) (exponent : ℤ) (quantity : ℚ),
      (numerator / denominator : ℚ) = quantity * 2 ^ exponent ∧ IsNearest significand quantity ∧
      -1074 ≤ exponent ∧ quantity < 2 ^ 53 ∧ (-1074 < exponent → 2 ^ 52 ≤ quantity) ∧
      ofQuotient? negative numerator denominator =
        if significand = 2 ^ 53 then ofParts? negative (2 ^ 52) (exponent + 1)
        else ofParts? negative significand exponent := by
  obtain ⟨least, under, full⟩ := exponentOf_spec numerator_pos denominator_pos
  obtain ⟨scaled_pos, ratio⟩ :=
    scaled_spec numerator denominator_pos (exponentOf numerator denominator)
  have nearest := isNearest_roundQuotient
    (scaled numerator denominator (exponentOf numerator denominator)).1 scaled_pos
  rw [ratio] at nearest
  exact ⟨_, _, _, (div_mul_cancel₀ _ (two_zpow_pos _).ne').symm, nearest, least, under, full, rfl⟩

/-- A quotient rounds to the number it makes. -/
theorem rounds_of_ofQuotient? (numerator_pos : 0 < numerator) (denominator_pos : 0 < denominator)
    (made : ofQuotient? negative numerator denominator = some x) :
    x.negative = negative ∧ x.Rounds (numerator / denominator) := by
  obtain ⟨significand, exponent, quantity, whole, nearest, least, under, full, parts⟩ :=
    exists_isNearest negative numerator_pos denominator_pos
  rw [parts] at made
  rw [whole]
  split at made
  · rename_i carry
    obtain ⟨canonical, rfl⟩ := ofParts?_eq_some made
    exact ⟨rfl, rounds_of_carry least canonical (carry ▸ nearest) under⟩
  · obtain ⟨canonical, rfl⟩ := ofParts?_eq_some made
    exact ⟨rfl, rounds_of_isNearest canonical nearest full⟩

/-! ## Quotients beyond the largest number -/

theorem IsNearest.le {whole : ℕ} {quantity : ℚ} (nearest : IsNearest whole quantity) {bound : ℕ}
    (above : (bound : ℚ) ≤ quantity) : bound ≤ whole := by
  have : (bound : ℚ) < whole + 1 := by
    rcases nearest.upper with under | ⟨on, -⟩ <;> linarith
  exact Nat.lt_succ_iff.mp (by exact_mod_cast this)

theorem IsNearest.ge {whole : ℕ} {quantity : ℚ} (nearest : IsNearest whole quantity) {bound : ℕ}
    (below : quantity < bound) : whole ≤ bound := by
  have : (whole : ℚ) < bound + 1 := by
    rcases nearest.lower with beyond | ⟨on, -⟩ <;> linarith
  exact Nat.lt_succ_iff.mp (by exact_mod_cast this)

/-- A quotient makes no number only from the limit on. -/
theorem limit_le_of_ofQuotient? (numerator_pos : 0 < numerator)
    (denominator_pos : 0 < denominator)
    (unmade : ofQuotient? negative numerator denominator = none) :
    limit ≤ numerator / denominator := by
  obtain ⟨significand, exponent, quantity, whole, nearest, least, under, full, parts⟩ :=
    exists_isNearest negative numerator_pos denominator_pos
  rw [parts] at unmade
  rw [whole, limit]
  split at unmade
  · rename_i carry
    have large : ¬ exponent + 1 ≤ 971 := fun fits =>
      ofParts?_ne_none ⟨by norm_num, by norm_num, by omega, fits⟩ unmade
    have top : (2 ^ 53 - 1 / 2 : ℚ) ≤ quantity := by
      rw [carry] at nearest
      have lower := nearest.lower
      push_cast at lower
      rcases lower with beyond | ⟨on, -⟩ <;> linarith
    have power : (2 : ℚ) ^ (971 : ℤ) ≤ 2 ^ exponent := zpow_le_zpow_right₀ one_le_two (by omega)
    exact mul_le_mul top power (two_zpow_pos _).le (by linarith)
  · rename_i other
    have bound : significand ≤ 2 ^ 53 := nearest.ge (by exact_mod_cast under)
    have large : ¬ exponent ≤ 971 := fun fits => by
      refine ofParts?_ne_none ⟨Nat.lt_of_le_of_ne bound other, fun narrow => ?_, least, fits⟩ unmade
      by_contra normal
      have wide : 2 ^ 52 ≤ significand := nearest.le (by exact_mod_cast full (by omega))
      exact absurd narrow (Nat.not_lt.mpr wide)
    have wide : (2 ^ 52 : ℚ) ≤ quantity := full (by omega)
    have power : (2 : ℚ) ^ (972 : ℤ) ≤ 2 ^ exponent := zpow_le_zpow_right₀ one_le_two (by omega)
    calc (2 ^ 53 - 1 / 2 : ℚ) * 2 ^ (971 : ℤ) ≤ 2 ^ 53 * 2 ^ (971 : ℤ) :=
          mul_le_mul_of_nonneg_right (by linarith) (two_zpow_pos _).le
      _ = 2 ^ 52 * 2 ^ (972 : ℤ) := by
          rw [show (972 : ℤ) = 971 + 1 by norm_num, zpow_add_one₀ two_ne_zero]
          ring
      _ ≤ quantity * 2 ^ exponent :=
          mul_le_mul wide power (two_zpow_pos _).le (le_trans (by norm_num) wide)

/-! ## Decimals -/

variable {digits : ℕ} {exponent : ℤ}

theorem decimal_eq_quotient (digits : ℕ) (exponent : ℤ) :
    (digits * 10 ^ exponent : ℚ) =
      (digits * Nat.pow 10 exponent.toNat : ℕ) / (Nat.pow 10 (-exponent).toNat : ℕ) := by
  have power : (10 : ℚ) ^ (-exponent).toNat ≠ 0 := by positivity
  change _ = ((digits * 10 ^ exponent.toNat : ℕ) : ℚ) / ((10 ^ (-exponent).toNat : ℕ) : ℚ)
  push_cast
  rw [eq_div_iff power, mul_assoc, zpow_mul_pow_toNat (by norm_num)]

/-- Decimals with a large exponent are beyond the limit. -/
theorem limit_le_of_large (present : digits ≠ 0) (large : 400 < exponent) :
    limit ≤ digits * 10 ^ exponent := by
  have one : (1 : ℚ) ≤ digits := by exact_mod_cast Nat.pos_of_ne_zero present
  have words : (2 : ℚ) ^ (53 + 971 : ℤ) ≤ 10 ^ (401 : ℤ) :=
    calc (2 : ℚ) ^ (53 + 971 : ℤ) ≤ 2 ^ (3 * 401 : ℤ) :=
          zpow_le_zpow_right₀ one_le_two (by norm_num)
      _ = 8 ^ (401 : ℕ) := by
          rw [zpow_mul]
          norm_num
      _ ≤ 10 ^ (401 : ℕ) := pow_le_pow_left₀ (by norm_num) (by norm_num) _
      _ = 10 ^ (401 : ℤ) := (zpow_natCast _ _).symm
  calc limit ≤ 2 ^ 53 * 2 ^ (971 : ℤ) :=
        mul_le_mul_of_nonneg_right (by linarith) (two_zpow_pos _).le
    _ = 2 ^ (53 + 971 : ℤ) := (zpow_add₀ two_ne_zero 53 971).symm
    _ ≤ 10 ^ (401 : ℤ) := words
    _ ≤ 10 ^ exponent := zpow_le_zpow_right₀ (by norm_num) (by omega)
    _ ≤ digits * 10 ^ exponent := le_mul_of_one_le_left (ten_zpow_pos _).le one

/-- Decimals with a small exponent round to zero. -/
theorem rounds_of_small (small : (digits.log2 : ℤ) + 1 + 3 * exponent < -1100) :
    (zero negative).Rounds (digits * 10 ^ exponent) := by
  obtain ⟨places, rfl⟩ : ∃ places : ℕ, exponent = -places := ⟨(-exponent).toNat, by omega⟩
  have digits_lt : (digits : ℚ) < 2 ^ ((digits.log2 : ℤ) + 1) := by
    exact_mod_cast Nat.lt_log2_self
  have tens : (10 : ℚ) ^ (-(places : ℤ)) ≤ 2 ^ (3 * -(places : ℤ)) := by
    rw [mul_neg, zpow_neg, zpow_neg, zpow_mul, zpow_natCast, zpow_natCast]
    exact inv_anti₀ (by positivity) (pow_le_pow_left₀ (by norm_num) (by norm_num) _)
  have tiny : (digits * 10 ^ (-(places : ℤ)) : ℚ) < 2 ^ (-1075 : ℤ) :=
    calc (digits * 10 ^ (-(places : ℤ)) : ℚ)
        < 2 ^ ((digits.log2 : ℤ) + 1) * 2 ^ (3 * -(places : ℤ)) :=
          mul_lt_mul digits_lt tens (ten_zpow_pos _) (two_zpow_pos _).le
      _ = 2 ^ ((digits.log2 : ℤ) + 1 + 3 * -(places : ℤ)) := (zpow_add₀ two_ne_zero _ _).symm
      _ ≤ 2 ^ (-1075 : ℤ) := zpow_le_zpow_right₀ one_le_two (by omega)
  have nonneg : (0 : ℚ) ≤ digits * 10 ^ (-(places : ℤ)) :=
    mul_nonneg (Nat.cast_nonneg _) (ten_zpow_pos _).le
  have none : (zero negative).magnitude = 0 := magnitude_eq_zero_iff.mpr rfl
  have half : (zero negative).unit / 2 = 2 ^ (-1075 : ℤ) := by
    rw [unit, show (-1075 : ℤ) = -1074 - 1 by norm_num, zpow_sub_one₀ two_ne_zero]
    rfl
  have below := (zero negative).unitBelow_pos
  exact ⟨.inl (by rw [none]; linarith), .inl (by rw [none, half]; linarith)⟩

/-- The number made of a decimal has its sign, and the decimal rounds to it. -/
theorem rounds_of_ofDecimal? (made : ofDecimal? negative digits exponent = some x) :
    x.negative = negative ∧ x.Rounds (digits * 10 ^ exponent) := by
  rw [ofDecimal?] at made
  split at made
  · rename_i absent
    cases made
    refine ⟨rfl, ?_⟩
    rw [absent, Nat.cast_zero, zero_mul]
    exact rounds_zero negative
  · rename_i present
    split at made
    · contradiction
    · split at made
      · rename_i small
        cases made
        exact ⟨rfl, rounds_of_small small⟩
      · rw [decimal_eq_quotient]
        exact rounds_of_ofQuotient?
          (Nat.mul_pos (Nat.pos_of_ne_zero present) (Nat.pow_pos (by norm_num)))
          (Nat.pow_pos (by norm_num)) made

/-- No number is made of a decimal only from the limit on. -/
theorem limit_le_of_ofDecimal? (unmade : ofDecimal? negative digits exponent = none) :
    limit ≤ digits * 10 ^ exponent := by
  rw [ofDecimal?] at unmade
  split at unmade
  · contradiction
  · rename_i present
    split at unmade
    · rename_i large
      exact limit_le_of_large present large
    · split at unmade
      · contradiction
      · rw [decimal_eq_quotient]
        exact limit_le_of_ofQuotient?
          (Nat.mul_pos (Nat.pos_of_ne_zero present) (Nat.pow_pos (by norm_num)))
          (Nat.pow_pos (by norm_num)) unmade

/-- **Rounding of decimals.** The number made of a decimal is the one with its sign that the
decimal rounds to. -/
theorem ofDecimal?_eq_some_iff :
    ofDecimal? negative digits exponent = some x ↔
      x.negative = negative ∧ x.Rounds (digits * 10 ^ exponent) := by
  refine ⟨rounds_of_ofDecimal?, fun ⟨sign, rounds⟩ => ?_⟩
  cases made : ofDecimal? negative digits exponent with
  | none => exact absurd rounds.lt_limit (not_lt.mpr (limit_le_of_ofDecimal? made))
  | some y =>
      obtain ⟨sign', rounds'⟩ := rounds_of_ofDecimal? made
      rw [eq_of_magnitude_eq (sign'.trans sign.symm) (rounds'.magnitude_eq rounds)]

end AccessPolicy.Number.Binary64

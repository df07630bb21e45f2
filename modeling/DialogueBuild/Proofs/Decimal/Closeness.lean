import DialogueBuild.Proofs.Decimal.Arithmetic
/-!
How far a double is from the numbers that belong to it.

Results:

1. `Covers.abs_sub_le`        a number is at most half a last binary digit away from its double;
2. `Covers.within`            that is a small part of it, if the mantissa has all its binary digits;
3. `abs_sub_le_of_covers`     numbers that are close to each other belong to doubles that are.
-/
namespace DialogueBuild.Decimal

variable {a b : Binary} {q r v w : ℚ}

/-! ## Factors -/

/-- A number is off another one by a factor. -/
structure Within (low high v q : ℚ) : Prop where
  low_le : low * q ≤ v
  le_high : v ≤ high * q

section Factors

variable {low low' high high' : ℚ}

theorem Within.mul (h : Within low high v q) (h' : Within low' high' w r) (hlow : 0 ≤ low)
    (hlow' : 0 ≤ low') (hq : 0 ≤ q) (hr : 0 ≤ r) :
    Within (low * low') (high * high') (v * w) (q * r) := by
  have hv : 0 ≤ v := (mul_nonneg hlow hq).trans h.low_le
  have hw : 0 ≤ w := (mul_nonneg hlow' hr).trans h'.low_le
  constructor
  · calc low * low' * (q * r) = low * q * (low' * r) := by ring
      _ ≤ v * w := mul_le_mul h.low_le h'.low_le (mul_nonneg hlow' hr) hv
  · calc v * w ≤ high * q * (high' * r) :=
          mul_le_mul h.le_high h'.le_high hw (hv.trans h.le_high)
      _ = high * high' * (q * r) := by ring

theorem Within.div (h : Within low high v q) (h' : Within low' high' w r) (hlow : 0 ≤ low)
    (hlow' : 0 < low') (hq : 0 ≤ q) (hr : 0 < r) :
    Within (low / high') (high / low') (v / w) (q / r) := by
  have hlowest : 0 < low' * r := mul_pos hlow' hr
  have hw : 0 < w := hlowest.trans_le h'.low_le
  have hv : 0 ≤ v := (mul_nonneg hlow hq).trans h.low_le
  constructor
  · calc low / high' * (q / r) = low * q / (high' * r) := by rw [div_mul_div_comm]
      _ ≤ v / w := div_le_div₀ hv h.low_le hw h'.le_high
  · calc v / w ≤ high * q / (low' * r) :=
          div_le_div₀ (hv.trans h.le_high) h.le_high hlowest h'.low_le
      _ = high / low' * (q / r) := by rw [div_mul_div_comm]

theorem Within.trans (h : Within low high v q) (h' : Within low' high' w v) (hlow' : 0 ≤ low')
    (hhigh' : 0 ≤ high') : Within (low * low') (high * high') w q := by
  constructor
  · calc low * low' * q = low' * (low * q) := by ring
      _ ≤ low' * v := mul_le_mul_of_nonneg_left h.low_le hlow'
      _ ≤ w := h'.low_le
  · calc w ≤ high' * v := h'.le_high
      _ ≤ high' * (high * q) := mul_le_mul_of_nonneg_left h.le_high hhigh'
      _ = high * high' * q := by ring

/-- Factors near one keep a number near to itself. -/
theorem Within.abs_sub_le {δ : ℚ} (h : Within low high v q) (hlow : 1 - δ ≤ low)
    (hhigh : high ≤ 1 + δ) (hq : 0 ≤ q) : |v - q| ≤ δ * q := by
  have hbelow := (mul_le_mul_of_nonneg_right hlow hq).trans h.low_le
  have habove := h.le_high.trans (mul_le_mul_of_nonneg_right hhigh hq)
  rw [abs_le]
  constructor <;> linarith

end Factors

/-! ## One double -/

/-- The last binary digit of a double. -/
def Binary.unit (b : Binary) : ℚ := 2 ^ b.exponent

theorem Binary.unit_pos (b : Binary) : 0 < b.unit := by
  unfold unit
  positivity

theorem Binary.unit_eq (b : Binary) : b.unit = 4 * b.quarter := by
  unfold unit quarter
  rw [zpow_sub₀ (by norm_num)]
  ring

/-- A number is at most half a last binary digit away from its double. -/
theorem Binary.Covers.abs_sub_le (h : b.Covers q) : |q - b.value| ≤ b.unit / 2 := by
  have hlow := h.low_le
  have hhigh := h.le_high
  have hquarter := b.quarter_pos
  have hends : (4 * b.mantissa : ℕ) - (2 : ℚ) ≤ b.lowQuarters := by
    have : (4 * b.mantissa : ℕ) ≤ b.lowQuarters + 2 := by
      unfold lowQuarters
      split <;> omega
    have : ((4 * b.mantissa : ℕ) : ℚ) ≤ (b.lowQuarters + 2 : ℕ) := by exact_mod_cast this
    push_cast at this ⊢
    linarith
  have hlow' := (mul_le_mul_of_nonneg_right hends hquarter.le).trans hlow
  unfold highQuarters at hhigh
  rw [b.unit_eq, abs_le, value]
  push_cast at *
  constructor <;> linarith

/-- The part by which rounding is off at most. -/
def unitError : ℚ := 1 / (2 ^ 53 - 1)

theorem one_sub_unitError_pos : 0 < 1 - unitError := by norm_num [unitError]

/-- A mantissa with all its binary digits makes half the last one a small part of the double. -/
theorem Binary.half_unit_le (h : 2 ^ 52 ≤ b.mantissa) : b.unit / 2 ≤ b.value / 2 ^ 53 := by
  have hm : (2 : ℚ) ^ 52 ≤ b.mantissa := by exact_mod_cast h
  have hunit := b.unit_pos
  rw [show b.value = b.mantissa * b.unit from b.value_eq, le_div_iff₀ (by norm_num)]
  nlinarith

/-- A double with all its binary digits is off by a small part of the number. -/
theorem Binary.Covers.within (h : b.Covers q) (hfull : 2 ^ 52 ≤ b.mantissa) :
    Within (1 - unitError) (1 + unitError) b.value q := by
  have hsub := abs_le.mp (h.abs_sub_le.trans (half_unit_le hfull))
  have hvalue : 0 ≤ b.value := by
    unfold value
    have := b.quarter_pos
    positivity
  unfold unitError
  constructor
  · norm_num at *
    linarith
  · norm_num at *
    linarith

/-- A double is off by a small part of the number, or by half the least binary digit. -/
theorem Binary.Covers.within_or (h : b.Covers q) (hb : b.IsDouble) :
    Within (1 - unitError) (1 + unitError) b.value q ∨ |q - b.value| ≤ 2 ^ (-1075 : ℤ) := by
  rcases hb.exponent_ge.eq_or_lt with he | he
  · right
    refine h.abs_sub_le.trans (le_of_eq ?_)
    unfold unit
    rw [← he, show (-1074 : ℤ) = -1075 + 1 by norm_num, zpow_add₀ (by norm_num), zpow_one]
    ring
  · exact .inl (h.within (hb.mantissa_ge he))

/-- A mantissa has at most 53 binary digits. -/
theorem value_le_mul_unit (hb : b.IsDouble) : b.value ≤ (2 ^ 53 - 1) * b.unit := by
  have hm : (b.mantissa : ℚ) ≤ 2 ^ 53 - 1 := by
    have : ((b.mantissa + 1 : ℕ) : ℚ) ≤ (2 ^ 53 : ℕ) := by exact_mod_cast hb.mantissa_lt
    push_cast at this
    linarith
  rw [show b.value = b.mantissa * b.unit from b.value_eq]
  exact mul_le_mul_of_nonneg_right hm b.unit_pos.le

/-! ## Two doubles -/

/-- A double of a number not far behind another double has no unit much larger. -/
theorem exponent_le_of_covers (ha : a.IsDouble) (hb : b.IsDouble) (hr : b.Covers r)
    (hlt : r < (2 ^ 54 - 1) * a.unit) : b.exponent ≤ a.exponent + 1 := by
  by_contra hlarge
  rw [not_le] at hlarge
  have hge := ha.exponent_ge
  have hlow := hb.le_cast_lowQuarters (by omega)
  have hunit : a.unit ≤ b.quarter := by
    unfold Binary.unit Binary.quarter
    exact zpow_le_zpow_right₀ (by norm_num) (by omega)
  have hends := mul_le_mul hlow hunit a.unit_pos.le (by positivity)
  exact absurd (hends.trans hr.low_le) (not_le.mpr hlt)

/-- Numbers that are close to each other belong to doubles that are. -/
theorem abs_sub_le_of_covers (ha : a.IsDouble) (hb : b.IsDouble) (hq : a.Covers q)
    (hr : b.Covers r) {c : ℚ} (hc : c ≤ 2 ^ 52) (hclose : |r - q| ≤ c * a.unit) :
    |b.value - a.value| ≤ (c + 3 / 2) * a.unit := by
  have hunit := a.unit_pos
  have hq' := abs_le.mp hq.abs_sub_le
  have hclose' := abs_le.mp hclose
  have hvalue := value_le_mul_unit ha
  have hexponent := exponent_le_of_covers ha hb hr (by nlinarith)
  have hunits : b.unit ≤ 2 * a.unit := by
    unfold Binary.unit
    calc (2 : ℚ) ^ b.exponent ≤ 2 ^ (a.exponent + 1) := zpow_le_zpow_right₀ (by norm_num) hexponent
      _ = 2 * 2 ^ a.exponent := by rw [zpow_add₀ (by norm_num), zpow_one, mul_comm]
  have hr' := abs_le.mp hr.abs_sub_le
  rw [abs_le]
  constructor <;> linarith [hq'.1, hq'.2, hr'.1, hr'.2, hclose'.1, hclose'.2]

end DialogueBuild.Decimal

import DialogueBuild.Json.Numeral
import DialogueBuild.Proofs.Decimal.Nearest
import DialogueBuild.Proofs.Decimal.Range
/-!
Digits multiplied or divided by powers of ten.

The digits, the power of ten and the result are rounded one after the other, and a power that is too
large is divided by in two parts. So what is rounded last is a number near the exact one.

Results:

1. `within_nearest`, `within_powerOfTen`   how far digits and powers of ten are rounded;
2. `scale_spec`                            digits are scaled to the double of a number near the
                                           exact one, and of that one itself if nothing was rounded
                                           before;
3. `RoundsNear.close`                      so the double is a few last binary digits away from the
                                           one that the exact number belongs to.
-/
namespace DialogueBuild.Json

open Decimal

variable {x y : Float} {n k : Nat} {e : ℤ} {a b : Binary} {q r low high : ℚ}

/-! ## Doubles without a minus -/

/-- A finite double without a minus. -/
structure IsUnsigned (x : Float) : Prop where
  isFinite : x.isFinite
  signOf_eq : signOf x = .positive

theorem IsUnsigned.mul (hx : IsUnsigned x) (hy : IsUnsigned y)
    (hlt : magnitude x * magnitude y < limit) :
    IsUnsigned (x * y) ∧ (Binary.ofFloat (x * y)).Covers (magnitude x * magnitude y) := by
  have h := rounds_mul hx.isFinite hy.isFinite
  have hfinite := h.isFinite hlt
  refine ⟨⟨hfinite, ?_⟩, h.covers hfinite⟩
  rw [h.signOf_eq, hx.signOf_eq, hy.signOf_eq]
  rfl

theorem IsUnsigned.div (hx : IsUnsigned x) (hy : IsUnsigned y) (hpos : 0 < magnitude y)
    (hlt : magnitude x / magnitude y < limit) :
    IsUnsigned (x / y) ∧ (Binary.ofFloat (x / y)).Covers (magnitude x / magnitude y) := by
  have h := rounds_div hx.isFinite hy.isFinite hpos
  have hfinite := h.isFinite hlt
  refine ⟨⟨hfinite, ?_⟩, h.covers hfinite⟩
  rw [h.signOf_eq, hx.signOf_eq, hy.signOf_eq]
  rfl

theorem isUnsigned_nearest (h : (n : ℚ) < limit) : IsUnsigned (nearest n) :=
  ⟨(covers_nearest h).1, (covers_nearest h).2.1⟩

/-- A whole number is rounded to a double that is off by a small part of it. -/
theorem within_nearest (hpos : 0 < n) (h : (n : ℚ) < limit) :
    Within (1 - unitError) (1 + unitError) (magnitude (nearest n)) n := by
  unfold magnitude
  rw [(nearest_spec hpos.ne' h).2.2]
  exact (wholeParts_spec hpos.ne').2.within (mantissa_wholeParts hpos.ne')

/-! ## Powers of ten -/

theorem cast_pow_lt_limit (h : k ≤ 308) : ((10 ^ k : ℕ) : ℚ) < limit := by
  rw [Nat.cast_pow]
  exact pow_lt_limit h

theorem isUnsigned_powerOfTen (h : k ≤ 308) : IsUnsigned (powerOfTen k) :=
  isUnsigned_nearest (cast_pow_lt_limit h)

theorem within_powerOfTen (h : k ≤ 308) :
    Within (1 - unitError) (1 + unitError) (magnitude (powerOfTen k)) (10 ^ k) := by
  have hwithin := within_nearest (n := 10 ^ k) (by positivity) (cast_pow_lt_limit h)
  push_cast at hwithin
  exact hwithin

theorem powerOfTen_pos (h : k ≤ 308) : 0 < magnitude (powerOfTen k) := by
  refine lt_of_lt_of_le ?_ (within_powerOfTen h).low_le
  exact mul_pos one_sub_unitError_pos (by positivity)

theorem nine_le_powerOfTen (hpos : 0 < k) (h : k ≤ 308) : 9 ≤ magnitude (powerOfTen k) := by
  have hten : (10 : ℚ) ≤ 10 ^ k := le_self_pow₀ (by norm_num) hpos.ne'
  have hlow := (within_powerOfTen h).low_le
  unfold unitError at hlow
  norm_num at hlow
  linarith

/-- The powers of ten that fit into a double. -/
theorem magnitude_powerOfTen (h : k ≤ 22) : magnitude (powerOfTen k) = 10 ^ k := by
  have hheld : ∀ k ≤ 22, Held (10 ^ k) := by decide +kernel
  have hvalue := magnitude_nearest_of_held (hheld k h) (cast_pow_lt_limit (by omega))
  push_cast at hvalue
  exact hvalue

/-! ## Numbers near the exact one -/

/-- How far the number that is rounded last may be from the exact one. -/
def slack (q : ℚ) : ℚ := 41 / 10 / 2 ^ 53 * q + 2 ^ (-1075 : ℤ) / 9

/-- A double is what a number near another one is rounded to. -/
structure RoundsNear (q : ℚ) (exact : Prop) (y : Float) : Prop where
  isUnsigned : IsUnsigned y
  near : ∃ t, (Binary.ofFloat y).Covers t ∧ |t - q| ≤ slack q ∧ (exact → t = q)

theorem RoundsNear.imp {p p' : Prop} (h : RoundsNear q p y) (himp : p' → p) :
    RoundsNear q p' y := by
  obtain ⟨hunsigned, t, hcovers, hnear, hexact⟩ := h
  exact ⟨hunsigned, t, hcovers, hnear, hexact ∘ himp⟩

theorem abs_sub_le_slack (h : Within low high r q) (hlow : 1 - 41 / 10 / 2 ^ 53 ≤ low)
    (hhigh : high ≤ 1 + 41 / 10 / 2 ^ 53) (hq : 0 ≤ q) : |r - q| ≤ slack q := by
  have hpos : (0 : ℚ) ≤ 2 ^ (-1075 : ℤ) / 9 := by positivity
  exact (h.abs_sub_le hlow hhigh hq).trans (le_add_of_nonneg_right hpos)

theorem lt_limit_of_near (h : |r - q| ≤ slack q) (hq : q ≤ 10 ^ 17) : r < limit := by
  have hlimit := pow_lt_limit (show 18 ≤ 308 by decide)
  have htiny : (2 : ℚ) ^ (-1075 : ℤ) ≤ 1 := zpow_le_one_of_nonpos₀ (by norm_num) (by decide)
  have habove := (abs_le.mp h).2
  unfold slack at habove
  generalize (2 : ℚ) ^ (-1075 : ℤ) = tiny at *
  norm_num at *
  linarith

theorem digits_lt_limit (hdigits : n ≤ 10 ^ 17) : (n : ℚ) < limit := by
  have hle : (n : ℚ) ≤ 10 ^ 17 := by exact_mod_cast hdigits
  exact hle.trans_lt (pow_lt_limit (by decide))

theorem quotient_le (hdigits : n ≤ 10 ^ 17) (k : Nat) : (n : ℚ) / 10 ^ k ≤ 10 ^ 17 := by
  have hle : (n : ℚ) ≤ 10 ^ 17 := by exact_mod_cast hdigits
  exact (div_le_self (by positivity) (one_le_pow₀ (by norm_num))).trans hle

/-- The quotient of a rounded quotient is near the exact one. Where the first quotient is so small
that it has lost binary digits, the divisor makes up for what is missing. -/
theorem near_of_covers (hcovers : (Binary.ofFloat x).Covers r)
    (hwithin : Within ((1 - unitError) / (1 + unitError)) ((1 + unitError) / (1 - unitError)) r q)
    (hq : 0 ≤ q) (hk : 0 < k) (hk' : k ≤ 308) :
    |magnitude x / magnitude (powerOfTen k) - q / 10 ^ k| ≤ slack (q / 10 ^ k) := by
  have hpower := within_powerOfTen hk'
  have hpos := one_sub_unitError_pos
  have hquotient : 0 ≤ q / 10 ^ k := by positivity
  rcases hcovers.within_or (isDouble_ofFloat x) with hfull | hlost
  · have htotal := (hwithin.trans hfull hpos.le (by norm_num [unitError])).div hpower
      (by norm_num [unitError]) hpos hq (by positivity)
    exact abs_sub_le_slack htotal (by norm_num [unitError]) (by norm_num [unitError]) hquotient
  · have htotal : |r / magnitude (powerOfTen k) - q / 10 ^ k| ≤ 41 / 10 / 2 ^ 53 * (q / 10 ^ k) :=
      (hwithin.div hpower (by norm_num [unitError]) hpos hq (by positivity)).abs_sub_le
        (by norm_num [unitError]) (by norm_num [unitError]) hquotient
    have hmissing : |magnitude x / magnitude (powerOfTen k) - r / magnitude (powerOfTen k)|
        ≤ 2 ^ (-1075 : ℤ) / 9 := by
      rw [← sub_div, abs_div, abs_sub_comm, abs_of_pos (powerOfTen_pos hk')]
      exact div_le_div₀ (by positivity) hlost (by norm_num) (nine_le_powerOfTen hk hk')
    unfold slack
    rw [add_comm]
    exact (abs_sub_le _ _ _).trans (add_le_add hmissing htotal)

section Digits

variable (hpos : 0 < n) (hdigits : n ≤ 10 ^ 17)
include hpos hdigits

/-- Multiplying by a power of ten. -/
theorem roundsNear_mul (hk : k ≤ 308) (hlt : (n : ℚ) * 10 ^ k * (1 + unitError) ^ 2 < limit) :
    RoundsNear (n * 10 ^ k) (Held n ∧ k ≤ 22) (nearest n * powerOfTen k) := by
  have hn := digits_lt_limit hdigits
  have hlow := one_sub_unitError_pos.le
  have hwithin := (within_nearest hpos hn).mul (within_powerOfTen hk) hlow hlow (by positivity)
    (by positivity)
  have hproduct : magnitude (nearest n) * magnitude (powerOfTen k) < limit := by
    refine hwithin.le_high.trans_lt ?_
    rw [← sq, mul_comm]
    exact hlt
  obtain ⟨hunsigned, hcovers⟩ := (isUnsigned_nearest hn).mul (isUnsigned_powerOfTen hk) hproduct
  refine ⟨hunsigned, _, hcovers, ?_, ?_⟩
  · exact abs_sub_le_slack hwithin (by norm_num [unitError]) (by norm_num [unitError])
      (by positivity)
  · rintro ⟨hheld, hfew⟩
    rw [magnitude_nearest_of_held hheld hn, magnitude_powerOfTen hfew]

theorem within_quotient (hk : k ≤ 308) :
    Within ((1 - unitError) / (1 + unitError)) ((1 + unitError) / (1 - unitError))
      (magnitude (nearest n) / magnitude (powerOfTen k)) (n / 10 ^ k) :=
  (within_nearest hpos (digits_lt_limit hdigits)).div (within_powerOfTen hk)
    one_sub_unitError_pos.le one_sub_unitError_pos (by positivity) (by positivity)

/-- Dividing by a power of ten. -/
theorem roundsNear_div (hk : k ≤ 308) :
    RoundsNear (n / 10 ^ k) (Held n ∧ k ≤ 22) (nearest n / powerOfTen k) := by
  have hn := digits_lt_limit hdigits
  have hnear := abs_sub_le_slack (within_quotient hpos hdigits hk) (by norm_num [unitError])
    (by norm_num [unitError]) (by positivity)
  obtain ⟨hunsigned, hcovers⟩ := (isUnsigned_nearest hn).div (isUnsigned_powerOfTen hk)
    (powerOfTen_pos hk) (lt_limit_of_near hnear (quotient_le hdigits k))
  refine ⟨hunsigned, _, hcovers, hnear, ?_⟩
  rintro ⟨hheld, hfew⟩
  rw [magnitude_nearest_of_held hheld hn, magnitude_powerOfTen hfew]

/-- Dividing twice. -/
theorem roundsNear_div_div (hk : 0 < k) (hk' : k ≤ 308) :
    RoundsNear (n / 10 ^ 308 / 10 ^ k) False (nearest n / powerOfTen 308 / powerOfTen k) := by
  have hfirst := within_quotient hpos hdigits (le_refl 308)
  have hnear := abs_sub_le_slack hfirst (by norm_num [unitError]) (by norm_num [unitError])
    (by positivity)
  obtain ⟨hunsigned, hcovers⟩ := (isUnsigned_nearest (digits_lt_limit hdigits)).div
    (isUnsigned_powerOfTen le_rfl) (powerOfTen_pos le_rfl)
    (lt_limit_of_near hnear (quotient_le hdigits 308))
  have hnear' := near_of_covers hcovers hfirst (by positivity) hk hk'
  have hsmall : (n : ℚ) / 10 ^ 308 / 10 ^ k ≤ 10 ^ 17 :=
    (div_le_self (by positivity) (one_le_pow₀ (by norm_num))).trans (quotient_le hdigits 308)
  obtain ⟨hunsigned', hcovers'⟩ := hunsigned.div (isUnsigned_powerOfTen hk') (powerOfTen_pos hk')
    (lt_limit_of_near hnear' hsmall)
  exact ⟨hunsigned', _, hcovers', hnear', False.elim⟩

end Digits

/-! ## Scaling -/

theorem divideByPower_eq (h : k ≤ 308) : divideByPower x k = x / powerOfTen k := by
  rw [divideByPower, if_pos h]

theorem divideByPower_add (hx : (x == 0) = false) (hpos : 0 < k) (h : k ≤ 308) :
    divideByPower x (308 + k) = x / powerOfTen 308 / powerOfTen k := by
  rw [divideByPower, if_neg (by omega), hx, if_neg Bool.false_ne_true, Nat.add_sub_cancel_left,
    divideByPower_eq h]

theorem beq_zero_of_pos (h : 0 < magnitude x) : (x == 0) = false := by
  by_contra hzero
  obtain ⟨hfield, hfraction⟩ := (beq_zero_iff x).mp (Bool.eq_true_of_not_eq_false hzero)
  rw [magnitude, Binary.value_eq, ofFloat_eq, if_pos hfield, hfraction, Nat.cast_zero, zero_mul]
    at h
  exact lt_irrefl _ h

/-- Digits are scaled to a double of a number near the exact one, unless that one is too large. -/
theorem scale_spec (hpos : 0 < n) (hdigits : n ≤ 10 ^ 17) (hlow : -616 ≤ e)
    (hlt : (n : ℚ) * 10 ^ e * (1 + unitError) ^ 2 < limit) :
    ∃ y, scale? n e = some y ∧ RoundsNear (n * 10 ^ e) (Held n ∧ e.natAbs ≤ 22) y := by
  cases e with
  | ofNat k =>
    rw [Int.ofNat_eq_natCast, zpow_natCast] at hlt ⊢
    have hpower : (10 : ℚ) ^ k ≤ n * 10 ^ k * (1 + unitError) ^ 2 := by
      have hn : (1 : ℚ) ≤ n := by exact_mod_cast hpos
      have hfactor : 1 ≤ (1 + unitError) ^ 2 := by norm_num [unitError]
      calc (10 : ℚ) ^ k = 1 * 10 ^ k * 1 := by ring
        _ ≤ n * 10 ^ k * (1 + unitError) ^ 2 := by gcongr
    have hk : k ≤ 308 := by
      by_contra hk
      exact lt_asymm (hpower.trans_lt hlt) (limit_lt_pow (by omega))
    have hnear := roundsNear_mul hpos hdigits hk hlt
    refine ⟨_, ?_, hnear.imp fun h => ⟨h.1, ?_⟩⟩
    · show (if k ≤ 308 then _ else _) = _
      rw [if_pos hk]
      simp only [isInf_of_isFinite hnear.isUnsigned.isFinite, Bool.false_eq_true, if_false]
    · have := h.2
      omega
  | negSucc k =>
    have hquotient : (n : ℚ) * 10 ^ Int.negSucc k = n / 10 ^ (k + 1) := by
      rw [zpow_negSucc, div_eq_mul_inv]
    rw [hquotient]
    refine ⟨_, rfl, ?_⟩
    rcases Nat.lt_or_ge 308 (k + 1) with hmany | hfew
    · obtain ⟨j, hj⟩ : ∃ j, k + 1 = 308 + j := ⟨k + 1 - 308, by omega⟩
      have hx : 0 < magnitude (nearest n) :=
        lt_of_lt_of_le (mul_pos one_sub_unitError_pos (by exact_mod_cast hpos))
          (within_nearest hpos (digits_lt_limit hdigits)).low_le
      rw [hj, divideByPower_add (beq_zero_of_pos hx) (by omega) (by omega), pow_add, ← div_div]
      exact (roundsNear_div_div hpos hdigits (by omega) (by omega)).imp fun h => by omega
    · rw [divideByPower_eq hfew]
      exact (roundsNear_div hpos hdigits hfew).imp fun h => ⟨h.1, by omega⟩

/-! ## Back to the double -/

/-- What is near a number is a few last binary digits away from its double. -/
theorem slack_le (ha : a.IsDouble) (hq : a.Covers q) : slack q ≤ 9 / 2 * a.unit := by
  have hsub := abs_le.mp hq.abs_sub_le
  have hvalue : a.value ≤ (2 ^ 53 - 1) * a.unit := value_le_mul_unit ha
  have hunit : 2 * 2 ^ (-1075 : ℤ) ≤ a.unit := by
    calc (2 : ℚ) * 2 ^ (-1075 : ℤ) = 2 ^ (-1074 : ℤ) := by
          rw [show (-1074 : ℤ) = 1 + -1075 by decide, zpow_add₀ (by norm_num), zpow_one]
      _ ≤ a.unit := zpow_le_zpow_right₀ (by norm_num) ha.exponent_ge
  unfold slack
  generalize (2 : ℚ) ^ (-1075 : ℤ) = tiny at *
  norm_num at *
  linarith

theorem RoundsNear.close {p : Prop} (h : RoundsNear q p y) (ha : a.IsDouble) (hq : a.Covers q) :
    |magnitude y - a.value| ≤ 6 * a.unit ∧ (p → Binary.ofFloat y = a) := by
  obtain ⟨-, t, hcovers, hnear, hexact⟩ := h
  constructor
  · have hclose := abs_sub_le_of_covers ha (isDouble_ofFloat y) hq hcovers (by norm_num)
      (hnear.trans (slack_le ha hq))
    norm_num at hclose
    exact hclose
  · intro hp
    rw [hexact hp] at hcovers
    exact Binary.covers_unique (isDouble_ofFloat y) ha hcovers hq

end DialogueBuild.Json

import DialogueBuild.Proofs.Decimal.Interval
/-!
Rounding to the nearest double.

Arithmetic on doubles cuts an exact result off at a whole mantissa and remembers on which side of
the middle it lies. Shifting the mantissa keeps that knowledge, so that a single rounding at the end
gives the double that the exact result belongs to.

Results:

1. `Lies.shiftRight`            shifting keeps what is known of the number;
2. `Lies.nearest`               the rounded mantissa is a nearest whole number, the even one of two;
3. `exists_roundWithAccuracy`   what is rounded to a double belongs to it.
-/
namespace DialogueBuild.Decimal

open Float.Model UnpackedFloat

variable {m n : Nat} {r : ℚ} {accuracy : Accuracy} {em : ExtendedMantissa}

/-! ## Where a number lies -/

/-- A number is a whole number, or lies on one side of the middle behind it, or in the middle. -/
inductive Lies (m : Nat) (r : ℚ) : Accuracy → Prop
  | exact (h : r = m) : Lies m r .exact
  | below (hlow : m < r) (hhigh : r < m + 1 / 2) : Lies m r (.inexact .lt)
  | middle (h : r = m + 1 / 2) : Lies m r (.inexact .eq)
  | above (hlow : m + 1 / 2 < r) (hhigh : r < m + 1) : Lies m r (.inexact .gt)

theorem Lies.le (h : Lies m r accuracy) : (m : ℚ) ≤ r := by
  cases h <;> linarith

theorem Lies.lt (h : Lies m r accuracy) : r < m + 1 := by
  cases h <;> linarith

/-- A number lies where an extended mantissa says. -/
def LiesAt (em : ExtendedMantissa) (r : ℚ) : Prop := Lies em.mantissa r em.accuracy

theorem liesAt_ofMantissaAndAccuracy (h : Lies m r accuracy) :
    LiesAt (.ofMantissaAndAccuracy m accuracy) r := by
  cases h with
  | exact h => exact .exact h
  | below hlow hhigh => exact .below hlow hhigh
  | middle h => exact .middle h
  | above hlow hhigh => exact .above hlow hhigh

theorem LiesAt.shiftRightOne (h : LiesAt em r) : LiesAt em.shiftRightOne (r / 2) := by
  obtain ⟨m, roundBit, stickyBit⟩ := em
  have hsplit : (m : ℚ) = 2 * (m / 2 : ℕ) + (m % 2 : ℕ) := by
    exact_mod_cast (Nat.div_add_mod m 2).symm
  have hbit : m % 2 = 0 ∨ m % 2 = 1 := by omega
  unfold LiesAt ExtendedMantissa.shiftRightOne at *
  -- the last binary digit becomes the round bit, and what was behind it the sticky bit
  rcases hbit with hbit | hbit <;> rw [hbit] at hsplit ⊢ <;> push_cast at hsplit
  · cases roundBit <;> cases stickyBit <;> cases h
    · exact .exact (by linarith)
    · exact .below (by linarith) (by linarith)
    · exact .below (by linarith) (by linarith)
    · exact .below (by linarith) (by linarith)
  · cases roundBit <;> cases stickyBit <;> cases h
    · exact .middle (by linarith)
    · exact .above (by linarith) (by linarith)
    · exact .above (by linarith) (by linarith)
    · exact .above (by linarith) (by linarith)

/-- Shifting keeps what is known of the number. -/
theorem LiesAt.shiftRight (h : LiesAt em r) (k : Nat) : LiesAt (em >>> k) (r / 2 ^ k) := by
  change LiesAt (k.repeat ExtendedMantissa.shiftRightOne em) _
  induction k with
  | zero => simpa [Nat.repeat] using h
  | succ k ih =>
    rw [Nat.repeat, pow_succ, ← div_div]
    exact ih.shiftRightOne

theorem mantissa_shiftRight (em : ExtendedMantissa) (k : Nat) :
    (em >>> k).mantissa = em.mantissa / 2 ^ k := by
  change (k.repeat ExtendedMantissa.shiftRightOne em).mantissa = _
  induction k with
  | zero => simp [Nat.repeat]
  | succ k ih =>
    rw [Nat.repeat, Nat.pow_succ, ← Nat.div_div_eq_div_mul, ← ih]
    rfl

/-! ## Nearest whole numbers -/

/-- A whole number is nearest to a number; of two it is the even one. -/
structure Nearest (n : Nat) (r : ℚ) : Prop where
  ge : n - 1 / 2 ≤ r
  le : r ≤ n + 1 / 2
  even_of_low : r = n - 1 / 2 → n % 2 = 0
  even_of_high : r = n + 1 / 2 → n % 2 = 0

theorem Lies.nearest (h : Lies m r accuracy) : Nearest (accuracy.roundToNearestEven m) r := by
  cases h with
  | exact h =>
    refine ⟨?_, ?_, fun hlow => ?_, fun hhigh => ?_⟩ <;>
      simp only [Accuracy.roundToNearestEven] at * <;> linarith
  | below hlow hhigh =>
    refine ⟨?_, ?_, fun hlow => ?_, fun hhigh => ?_⟩ <;>
      simp only [Accuracy.roundToNearestEven] at * <;> linarith
  | middle h =>
    have hbit : m % 2 = 0 ∨ m % 2 = 1 := by omega
    have heven : (m + m % 2) % 2 = 0 := by omega
    refine ⟨?_, ?_, fun _ => heven, fun _ => heven⟩ <;>
      simp only [Accuracy.roundToNearestEven] <;> rcases hbit with hbit | hbit <;> rw [hbit] <;>
      push_cast <;> linarith
  | above hlow hhigh =>
    refine ⟨?_, ?_, fun hlow => ?_, fun hhigh => ?_⟩ <;>
      simp only [Accuracy.roundToNearestEven] at * <;> push_cast at * <;> linarith

theorem roundToNearestEven_le (m : Nat) (accuracy : Accuracy) :
    m ≤ accuracy.roundToNearestEven m ∧ accuracy.roundToNearestEven m ≤ m + 1 := by
  cases accuracy with
  | exact => simp [Accuracy.roundToNearestEven]
  | inexact o => cases o <;> simp only [Accuracy.roundToNearestEven] <;> omega

/-! ## Doubles by their parts -/

/-- The double with this mantissa and this power of two. -/
def Binary.of (m : Nat) (e : ℤ) : Binary := ⟨m, e, decide (m = 2 ^ 52 ∧ -1074 < e)⟩

theorem isDouble_of {e : ℤ} (hm : m < 2 ^ 53) (he : -1074 ≤ e) (hfull : -1074 < e → 2 ^ 52 ≤ m) :
    (Binary.of m e).IsDouble :=
  ⟨hm, he, hfull, decide_eq_true_iff⟩

/-- A double is all of its parts. -/
theorem Binary.IsDouble.eq_of {b : Binary} (h : b.IsDouble) : b = .of b.mantissa b.exponent := by
  have hclose : b.closeBelow = decide (b.mantissa = 2 ^ 52 ∧ -1074 < b.exponent) := by
    rw [Bool.eq_iff_iff, h.closeBelow_iff, decide_eq_true_iff]
  unfold Binary.of
  rw [← hclose]

/-- A number in quarters belongs to a double by its place among the ends. -/
theorem covers_mul_quarter {b : Binary} (hlow : b.lowQuarters ≤ r) (hhigh : r ≤ b.highQuarters)
    (heven : r = b.lowQuarters ∨ r = b.highQuarters → b.mantissa % 2 = 0) :
    b.Covers (r * b.quarter) := by
  have hquarter := b.quarter_pos
  unfold Binary.Covers
  split
  · exact ⟨mul_le_mul_of_nonneg_right hlow hquarter.le,
      mul_le_mul_of_nonneg_right hhigh hquarter.le⟩
  · rename_i hodd
    have hne := not_or.mp (mt heven hodd)
    exact ⟨mul_lt_mul_of_pos_right (lt_of_le_of_ne hlow (Ne.symm hne.1)) hquarter,
      mul_lt_mul_of_pos_right (lt_of_le_of_ne hhigh hne.2) hquarter⟩

/-- What is nearest to a double's mantissa belongs to it, when the last binary digit is its unit. -/
theorem Nearest.covers {e : ℤ} (h : Nearest m r) (hnonneg : 0 ≤ r)
    (hfull : -1074 < e → 2 ^ 52 ≤ r) : (Binary.of m e).Covers (r * 2 ^ e) := by
  have hquarter : r * 2 ^ e = 4 * r * (Binary.of m e).quarter := by
    unfold Binary.quarter Binary.of
    rw [zpow_sub₀ (by norm_num)]
    ring
  rw [hquarter]
  obtain ⟨hge, hle, hlow, hhigh⟩ := h
  have hhighest : ((Binary.of m e).highQuarters : ℚ) = 4 * m + 2 := by
    unfold Binary.highQuarters Binary.of
    push_cast
    ring
  by_cases hclose : m = 2 ^ 52 ∧ -1074 < e
  · -- the next smaller double is nearer, but a number this large was not cut off
    have hlowest : ((Binary.of m e).lowQuarters : ℚ) = 4 * m - 1 := by
      unfold Binary.lowQuarters Binary.of
      rw [if_pos (decide_eq_true hclose), hclose.1]
      norm_num
    have hr := hfull hclose.2
    have hm : (m : ℚ) = 2 ^ 52 := by exact_mod_cast hclose.1
    refine covers_mul_quarter (by rw [hlowest]; linarith) (by rw [hhighest]; linarith) ?_
    rintro -
    show m % 2 = 0
    rw [hclose.1]
    rfl
  · have hlowest : ((Binary.of m e).lowQuarters : ℚ) ≤ 4 * r
        ∧ (4 * r = (Binary.of m e).lowQuarters → m % 2 = 0) := by
      unfold Binary.lowQuarters Binary.of
      rw [if_neg (by simpa using hclose)]
      rcases Nat.eq_zero_or_pos m with rfl | hpos
      · exact ⟨by simpa using hnonneg, fun _ => rfl⟩
      · rw [Nat.cast_sub (show 2 ≤ 4 * m by omega)]
        push_cast
        exact ⟨by linarith, fun heq => hlow (by linarith)⟩
    refine covers_mul_quarter hlowest.1 (by rw [hhighest]; linarith) ?_
    rintro (heq | heq)
    · exact hlowest.2 heq
    · rw [hhighest] at heq
      exact hhigh (by linarith)

/-- Where a mantissa gets a digit too many, the next power of two starts. -/
theorem covers_of_carry {e : ℤ} (h : Nearest (2 ^ 53) r) (hlt : r < 2 ^ 53) (he : -1074 ≤ e) :
    (Binary.of (2 ^ 52) (e + 1)).Covers (r * 2 ^ e) := by
  have hquarter : r * 2 ^ e = 2 * r * (Binary.of (2 ^ 52) (e + 1)).quarter := by
    unfold Binary.quarter Binary.of
    rw [show e + 1 - 2 = e - 1 by ring, zpow_sub₀ (by norm_num)]
    ring
  have hclose : (Binary.of (2 ^ 52) (e + 1)).closeBelow = true :=
    decide_eq_true ⟨rfl, by omega⟩
  have hlow : ((Binary.of (2 ^ 52) (e + 1)).lowQuarters : ℚ) = 2 ^ 54 - 1 := by
    unfold Binary.lowQuarters
    rw [if_pos hclose]
    norm_num [Binary.of]
  have hhigh : ((Binary.of (2 ^ 52) (e + 1)).highQuarters : ℚ) = 2 ^ 54 + 2 := by
    norm_num [Binary.highQuarters, Binary.of]
  have hge := h.ge
  push_cast at hge
  rw [hquarter]
  refine covers_mul_quarter (by rw [hlow]; linarith) (by rw [hhigh]; linarith) ?_
  norm_num [Binary.of]

/-! ## Rounding -/

/-- A double as it is before it is packed into bits. -/
def Binary.unpacked (sign : Sign) (b : Binary) : UnpackedFloat :=
  if h : b.mantissa = 0 then .zero sign
  else .finite sign b.mantissa b.exponent (Nat.pos_of_ne_zero h)

/-- How far a mantissa is shifted. -/
def shiftOf (m : Nat) (e : ℤ) : Nat := (max (m.log2 + 1 + e - 53) (-1074) - e).toNat

theorem shiftToTargetExponent_eq (m : Nat) (e : ℤ) (accuracy : Accuracy) :
    shiftToTargetExponent .binary64 m e accuracy
      = (ExtendedMantissa.ofMantissaAndAccuracy m accuracy >>> shiftOf m e, e + shiftOf m e) :=
  rfl

/-- What is left of a mantissa is that of a double. -/
theorem shiftOf_spec {e : ℤ} (h : e ≤ -1074 ∨ 2 ^ 52 ≤ m) :
    -1074 ≤ e + shiftOf m e ∧ m / 2 ^ shiftOf m e < 2 ^ 53
      ∧ (-1074 < e + shiftOf m e → 2 ^ 52 ≤ m / 2 ^ shiftOf m e) := by
  have hlog : m.log2 ≤ 52 + shiftOf m e := by
    unfold shiftOf
    omega
  refine ⟨?_, ?_, fun hlarge => ?_⟩
  · unfold shiftOf
    omega
  · rw [Nat.div_lt_iff_lt_mul (by positivity), ← Nat.pow_add]
    exact Nat.lt_log2_self.trans_le (Nat.pow_le_pow_right (by decide) (by omega))
  · have hm : m ≠ 0 := by
      rintro rfl
      unfold shiftOf at hlarge
      simp only [Nat.log2_zero] at hlarge
      omega
    have hfull : 2 ^ 52 ≤ m → 52 ≤ m.log2 := (Nat.le_log2 hm).mpr
    have hexact : m.log2 = 52 + shiftOf m e := by
      unfold shiftOf at hlarge ⊢
      omega
    rw [Nat.le_div_iff_mul_le (by positivity), ← Nat.pow_add, ← hexact]
    exact Nat.log2_self_le hm

theorem shiftOf_of_lt {e : ℤ} (hm : m < 2 ^ 53) (he : -1074 ≤ e) : shiftOf m e = 0 := by
  have hlog : m.log2 < 53 := by
    rcases Nat.eq_zero_or_pos m with rfl | hpos
    · simp
    · exact (Nat.log2_lt hpos.ne').mpr hm
  unfold shiftOf
  omega

theorem shiftOf_carry {e : ℤ} (he : -1074 ≤ e) : shiftOf (2 ^ 53) e = 1 := by
  unfold shiftOf
  rw [Nat.log2_two_pow]
  omega

theorem roundWithAccuracy_unpacked (sign : Sign) (m : Nat) (e : ℤ) (accuracy : Accuracy) :
    roundWithAccuracy .binary64 sign m e accuracy
      = let (em, e₁) := shiftToTargetExponent .binary64 m e accuracy
        let (last, e₂) := shiftToTargetExponent .binary64 em.roundedMantissa e₁ .exact
        (Binary.of last.mantissa e₂).unpacked sign := rfl

/-- A rounded mantissa is a double, or gets one digit too many. -/
theorem roundWithAccuracy_eq {sign : Sign} {e e₁ : ℤ} {rounded : Nat}
    (hshift : shiftToTargetExponent .binary64 m e accuracy = (em, e₁))
    (hrounded : em.roundedMantissa = rounded) (he : -1074 ≤ e₁) (hle : rounded ≤ 2 ^ 53) :
    roundWithAccuracy .binary64 sign m e accuracy
      = if rounded < 2 ^ 53 then (Binary.of rounded e₁).unpacked sign
        else (Binary.of (2 ^ 52) (e₁ + 1)).unpacked sign := by
  rw [roundWithAccuracy_unpacked, hshift]
  dsimp only
  rw [hrounded]
  by_cases hlt : rounded < 2 ^ 53
  · have hagain : shiftToTargetExponent .binary64 rounded e₁ .exact
        = (⟨rounded, false, false⟩, e₁) := by
      rw [shiftToTargetExponent_eq, shiftOf_of_lt hlt he, Nat.cast_zero, add_zero]
      rfl
    rw [hagain, if_pos hlt]
  · have hcarry : rounded = 2 ^ 53 := by omega
    have hagain : shiftToTargetExponent .binary64 (2 ^ 53) e₁ .exact
        = (⟨2 ^ 52, false, false⟩, e₁ + 1) := by
      rw [shiftToTargetExponent_eq, shiftOf_carry he]
      rfl
    rw [hcarry, hagain, if_neg (lt_irrefl _)]

/-- What is rounded to a double belongs to it, unless binary digits were missing. -/
theorem exists_roundWithAccuracy {e : ℤ} (sign : Sign) (h : Lies m r accuracy)
    (hdigits : e ≤ -1074 ∨ 2 ^ 52 ≤ m) :
    ∃ b : Binary, b.IsDouble ∧ b.Covers (r * 2 ^ e)
      ∧ roundWithAccuracy .binary64 sign m e accuracy = b.unpacked sign := by
  obtain ⟨he, hlt, hfull⟩ := shiftOf_spec hdigits
  have hshift := shiftToTargetExponent_eq m e accuracy
  have hlies := (liesAt_ofMantissaAndAccuracy h).shiftRight (shiftOf m e)
  have hmantissa := mantissa_shiftRight (.ofMantissaAndAccuracy m accuracy) (shiftOf m e)
  have hstart : (ExtendedMantissa.ofMantissaAndAccuracy m accuracy).mantissa = m := by
    cases h <;> rfl
  rw [hstart] at hmantissa
  have hvalue : r * 2 ^ e = r / 2 ^ shiftOf m e * 2 ^ (e + shiftOf m e) := by
    rw [zpow_add₀ (by norm_num), zpow_natCast]
    field_simp
  rw [hvalue]
  generalize r / 2 ^ shiftOf m e = q at hlies
  generalize ExtendedMantissa.ofMantissaAndAccuracy m accuracy >>> shiftOf m e = shifted
    at hshift hlies hmantissa
  generalize e + shiftOf m e = e₁ at *
  rw [← hmantissa] at hlt hfull
  have hnearest : Nearest shifted.roundedMantissa q := Lies.nearest hlies
  have hbounds := roundToNearestEven_le shifted.mantissa shifted.accuracy
  have hround : roundWithAccuracy .binary64 sign m e accuracy = _ :=
    roundWithAccuracy_eq hshift rfl he (hbounds.2.trans hlt)
  have hq : (shifted.mantissa : ℚ) ≤ q := Lies.le hlies
  by_cases hcarry : shifted.roundedMantissa < 2 ^ 53
  · rw [if_pos hcarry] at hround
    refine ⟨_, isDouble_of hcarry he fun hlarge => (hfull hlarge).trans hbounds.1,
      hnearest.covers (le_trans (by positivity) hq) fun hlarge => ?_, hround⟩
    exact le_trans (by exact_mod_cast hfull hlarge) hq
  · rw [if_neg hcarry] at hround
    have hrounded : shifted.roundedMantissa = 2 ^ 53 :=
      le_antisymm (hbounds.2.trans hlt) (by omega)
    have hqlt : q < 2 ^ 53 := by
      refine (Lies.lt hlies).trans_le ?_
      exact_mod_cast hlt
    rw [hrounded] at hnearest
    exact ⟨_, isDouble_of (by decide) (by omega) fun _ => le_rfl,
      covers_of_carry hnearest hqlt he, hround⟩

end DialogueBuild.Decimal

import DialogueBuild.Proofs.Decimal.Arithmetic
/-!
Whole numbers rounded to doubles.

Results:

1. `toBits_ofBits`               bits that are no NaN are kept;
2. `nearest_spec`                a whole number is rounded to the double with its parts;
3. `covers_nearest`              and belongs to it;
4. `magnitude_nearest_of_held`   a whole number that fits is not changed.
-/
namespace DialogueBuild.Decimal

open Float.Model UnpackedFloat

/-! ## Bits -/

/-- Bits whose power of two is not the largest one are those of a double. -/
theorem toBits_ofBits {a : UInt64} (h : a.toNat / 2 ^ 52 % 2 ^ 11 ≠ 2047) :
    (Float.ofBits a).toBits = a := by
  have hexponent : (@unpackExponent Format.binary64 a.toBitVec).toNat
      = a.toNat / 2 ^ 52 % 2 ^ 11 := by
    simp [unpackExponent, BitVec.extractLsb, Nat.shiftRight_eq_div_pow]
  have hvalid : Format.binary64.Valid a.toBitVec := by
    refine ⟨fun heq => absurd ?_ h⟩
    rw [← hexponent, heq]
    rfl
  obtain ⟨x, hx⟩ : ∃ x : Float, x.toBits = a := ⟨.ofModel ⟨a, hvalid⟩, rfl⟩
  have hfinite : x.isFinite := by
    rw [isFinite_iff, fieldOf, hx]
    exact h
  have hbits : Float.ofBits a = ofUnpacked ((Binary.ofFloat x).unpacked (signOf x)) := by
    rw [← unpack_of_isFinite hfinite, ← hx]
    rfl
  obtain ⟨hsign, -, hparts⟩ := ofUnpacked_spec (isDouble_ofFloat x) (signOf x)
  rw [← hbits] at hsign hparts
  rw [← hx]
  congr 1
  rw [hx]
  exact eq_of_parts hsign (hparts (exponent_le_of_isFinite hfinite))

/-! ## Rounding whole numbers -/

/-- Shifting with rounding is rounding a quotient. -/
theorem shiftRightRounded_eq (n shift : Nat) :
    shiftRightRounded n shift
      = (accuracyOfFraction (n % 2 ^ shift) (2 ^ shift)).roundToNearestEven (n / 2 ^ shift) := by
  have hpos : 0 < 2 ^ shift := by positivity
  unfold shiftRightRounded accuracyOfFraction
  simp only [Nat.pow_eq]
  generalize n % 2 ^ shift = rest
  generalize 2 ^ shift = divisor at *
  rcases lt_trichotomy (2 * rest) divisor with hcompare | hcompare | hcompare
  · rw [if_pos hcompare, Nat.compare_eq_lt.mpr hcompare]
    split <;> rfl
  · rw [if_neg (by omega), if_neg (by omega), if_neg (show ¬ rest = 0 by omega),
      Nat.compare_eq_eq.mpr hcompare]
    rfl
  · rw [if_neg (by omega), if_pos hcompare, if_neg (show ¬ rest = 0 by omega),
      Nat.compare_eq_gt.mpr hcompare]
    rfl

theorem nearest_shiftRightRounded (n shift : Nat) :
    Nearest (shiftRightRounded n shift) ((n : ℚ) / 2 ^ shift) := by
  have h := (lies_div n (show 0 < 2 ^ shift by positivity)).nearest
  rw [shiftRightRounded_eq]
  push_cast at h
  exact h

theorem lt_two_pow_bitLength (n : Nat) : n < 2 ^ bitLength n := by
  unfold bitLength
  split
  · rename_i hzero
    rw [hzero]
    decide
  · exact Nat.lt_log2_self

theorem two_pow_bitLength_le {n : Nat} (h : n ≠ 0) :
    ∃ k, bitLength n = k + 1 ∧ 2 ^ k ≤ n := by
  refine ⟨n.log2, ?_, Nat.log2_self_le h⟩
  rw [bitLength, if_neg h]

/-- The mantissa that a whole number is rounded to, with all its binary digits. -/
def wholeMantissa (n : Nat) : Nat :=
  if bitLength n ≤ 53 then n * 2 ^ (53 - bitLength n)
  else shiftRightRounded n (bitLength n - 53)

theorem wholeMantissa_spec {n : Nat} (h : n ≠ 0) :
    ∃ r : ℚ, (n : ℚ) = r * 2 ^ ((bitLength n : ℤ) - 53) ∧ 2 ^ 52 ≤ r ∧ r < 2 ^ 53
      ∧ Nearest (wholeMantissa n) r := by
  obtain ⟨k, hk, hle⟩ := two_pow_bitLength_le h
  have hlt := lt_two_pow_bitLength n
  have hle' : (2 : ℚ) ^ k ≤ n := by exact_mod_cast hle
  have hlt' : (n : ℚ) < 2 ^ (k + 1) := by rw [← hk]; exact_mod_cast hlt
  refine ⟨n / 2 ^ ((bitLength n : ℤ) - 53), ?_, ?_, ?_, ?_⟩
  · rw [div_mul_cancel₀ _ (by positivity)]
  · rw [le_div_iff₀ (by positivity), ← zpow_natCast, ← zpow_add₀ (by norm_num)]
    refine le_trans ?_ hle'
    rw [← zpow_natCast]
    exact zpow_le_zpow_right₀ (by norm_num) (by push_cast; omega)
  · rw [div_lt_iff₀ (by positivity), ← zpow_natCast (2 : ℚ) 53, ← zpow_add₀ (by norm_num)]
    refine lt_of_lt_of_le hlt' ?_
    rw [← zpow_natCast]
    exact zpow_le_zpow_right₀ (by norm_num) (by push_cast; omega)
  · unfold wholeMantissa
    split
    · rename_i hfew
      have hexact : (n : ℚ) / 2 ^ ((bitLength n : ℤ) - 53) = (n * 2 ^ (53 - bitLength n) : ℕ) := by
        rw [div_eq_iff (by positivity)]
        push_cast
        rw [mul_assoc, ← zpow_natCast, ← zpow_add₀ (by norm_num), Nat.cast_sub hfew]
        norm_num
      exact (Lies.exact hexact).nearest
    · rename_i hmany
      have hshift : ((bitLength n : ℤ) - 53) = ((bitLength n - 53 : ℕ) : ℤ) := by omega
      rw [hshift, zpow_natCast]
      exact nearest_shiftRightRounded n _

/-- The parts of the double that a whole number is rounded to. -/
def wholeParts (n : Nat) : Binary :=
  if wholeMantissa n < 2 ^ 53 then .of (wholeMantissa n) ((bitLength n : ℤ) - 53)
  else .of (2 ^ 52) ((bitLength n : ℤ) - 53 + 1)

theorem wholeMantissa_bounds {n : Nat} (h : n ≠ 0) :
    2 ^ 52 ≤ wholeMantissa n ∧ wholeMantissa n ≤ 2 ^ 53 := by
  obtain ⟨r, -, hge, hlt, hnearest⟩ := wholeMantissa_spec h
  have hlow := hnearest.le
  have hhigh := hnearest.ge
  constructor
  · have : ((2 ^ 52 : ℕ) : ℚ) < (wholeMantissa n + 1 : ℕ) := by
      push_cast
      linarith
    exact Nat.lt_succ_iff.mp (by exact_mod_cast this)
  · have : ((wholeMantissa n : ℕ) : ℚ) < (2 ^ 53 + 1 : ℕ) := by
      push_cast
      linarith
    exact Nat.lt_succ_iff.mp (by exact_mod_cast this)

/-- A whole number belongs to the double with these parts. -/
theorem wholeParts_spec {n : Nat} (h : n ≠ 0) :
    (wholeParts n).IsDouble ∧ (wholeParts n).Covers n := by
  obtain ⟨r, hr, hge, hlt, hnearest⟩ := wholeMantissa_spec h
  obtain ⟨hlow, hhigh⟩ := wholeMantissa_bounds h
  rw [hr]
  unfold wholeParts
  split
  · rename_i hfits
    exact ⟨isDouble_of hfits (by omega) fun _ => hlow,
      hnearest.covers (le_trans (by norm_num) hge) fun _ => hge⟩
  · rename_i hcarry
    have hm : wholeMantissa n = 2 ^ 53 := by omega
    rw [hm] at hnearest
    exact ⟨isDouble_of (by decide) (by omega) fun _ => le_rfl,
      covers_of_carry hnearest hlt (by omega)⟩

theorem mantissa_wholeParts {n : Nat} (h : n ≠ 0) : 2 ^ 52 ≤ (wholeParts n).mantissa := by
  unfold wholeParts
  split
  · exact (wholeMantissa_bounds h).1
  · exact le_rfl

theorem nearest_eq {n : Nat} (h : n ≠ 0) :
    nearest n = Float.ofBits (UInt64.ofNat
      (min ((bitLength n + 1022) * 2 ^ 52 + (wholeMantissa n - 2 ^ 52)) 0x7FF0000000000000)) := by
  unfold nearest
  rw [if_neg h]
  rfl

/-- A whole number that is not too large is rounded to a finite double with its parts. -/
theorem nearest_spec {n : Nat} (h : n ≠ 0) (hlimit : (n : ℚ) < limit) :
    (nearest n).isFinite ∧ signOf (nearest n) = .positive
      ∧ Binary.ofFloat (nearest n) = wholeParts n := by
  obtain ⟨hdouble, hcovers⟩ := wholeParts_spec h
  obtain ⟨hlow, hhigh⟩ := wholeMantissa_bounds h
  have htop : (wholeParts n).exponent ≤ topExponent := by
    by_contra htop
    exact absurd (limit_le_of_covers hdouble hcovers (not_le.mp htop)) (not_le.mpr hlimit)
  have hexponent : (wholeParts n).exponent
      = if wholeMantissa n < 2 ^ 53 then (bitLength n : ℤ) - 53
        else (bitLength n : ℤ) - 53 + 1 := by
    unfold wholeParts
    split <;> rfl
  have hmantissa : (wholeParts n).mantissa
      = if wholeMantissa n < 2 ^ 53 then wholeMantissa n else 2 ^ 52 := by
    unfold wholeParts
    split <;> rfl
  generalize hbits : (bitLength n + 1022) * 2 ^ 52 + (wholeMantissa n - 2 ^ 52) = bits
  unfold topExponent at htop
  rw [hexponent] at htop
  have hsmall : bits < 0x7FF0000000000000 := by
    rw [← hbits]
    split at htop <;> omega
  have hnearest : nearest n = Float.ofBits (UInt64.ofNat bits) := by
    rw [nearest_eq h, hbits, min_eq_left hsmall.le]
  have htoNat : (UInt64.ofNat bits).toNat = bits := by
    rw [UInt64.toNat_ofNat']
    omega
  have htoBits : (nearest n).toBits.toNat = bits := by
    rw [hnearest, toBits_ofBits (by rw [htoNat]; omega), htoNat]
  have hfield : fieldOf (nearest n)
      = if 2 ^ 52 ≤ (wholeParts n).mantissa then ((wholeParts n).exponent + 1075).toNat else 0 := by
    rw [if_pos (mantissa_wholeParts h), fieldOf, htoBits, hexponent, ← hbits]
    split <;> omega
  have hfraction : fractionOf (nearest n) = (wholeParts n).mantissa % 2 ^ 52 := by
    rw [fractionOf, htoBits, hmantissa, ← hbits]
    split <;> omega
  refine ⟨?_, ?_, ofFloat_of_components hdouble hfield hfraction⟩
  · rw [isFinite_iff, fieldOf, htoBits]
    omega
  · rw [signOf, isNegative, htoBits, if_neg]
    rw [decide_eq_true_iff, not_le]
    exact lt_trans hsmall (by decide)

theorem nearest_zero_spec :
    (nearest 0).isFinite ∧ signOf (nearest 0) = .positive
      ∧ Binary.ofFloat (nearest 0) = .of 0 (-1074) := by
  have hbits : (nearest 0).toBits.toNat = 0 := rfl
  have hfield : fieldOf (nearest 0) = 0 := by rw [fieldOf, hbits]; rfl
  refine ⟨?_, ?_, ?_⟩
  · rw [isFinite_iff, hfield]
    decide
  · rw [signOf, isNegative, hbits]
    rfl
  · rw [ofFloat_eq, hfield, fractionOf, hbits]
    rfl

/-- A whole number that is not too large is rounded to a finite double, to which it belongs. -/
theorem covers_nearest {n : Nat} (hlimit : (n : ℚ) < limit) :
    (nearest n).isFinite ∧ signOf (nearest n) = .positive
      ∧ (Binary.ofFloat (nearest n)).Covers n := by
  rcases Nat.eq_zero_or_pos n with rfl | hpos
  · obtain ⟨hfinite, hsign, hparts⟩ := nearest_zero_spec
    refine ⟨hfinite, hsign, ?_⟩
    rw [hparts, Nat.cast_zero]
    exact Binary.covers_zero rfl
  · obtain ⟨hfinite, hsign, hparts⟩ := nearest_spec hpos.ne' hlimit
    refine ⟨hfinite, hsign, ?_⟩
    rw [hparts]
    exact (wholeParts_spec hpos.ne').2

/-! ## Whole numbers that fit -/

/-- The binary digits of a whole number fit into a mantissa: behind the first 53 there are but
zeros. -/
def Held (n : Nat) : Prop := 2 ^ (bitLength n - 53) ∣ n

instance (n : Nat) : Decidable (Held n) := inferInstanceAs (Decidable (_ ∣ _))

/-- The digits of a whole number that fits stay as they are. -/
theorem wholeMantissa_of_held {n : Nat} (h : Held n) :
    (wholeMantissa n : ℚ) * 2 ^ ((bitLength n : ℤ) - 53) = n ∧ wholeMantissa n < 2 ^ 53 := by
  have hlt := lt_two_pow_bitLength n
  unfold wholeMantissa
  split
  · rename_i hfew
    constructor
    · push_cast
      rw [mul_assoc, ← zpow_natCast, ← zpow_add₀ (by norm_num), Nat.cast_sub hfew]
      norm_num
    · calc n * 2 ^ (53 - bitLength n) < 2 ^ bitLength n * 2 ^ (53 - bitLength n) :=
          Nat.mul_lt_mul_of_pos_right hlt (by positivity)
        _ = 2 ^ 53 := by
          rw [← Nat.pow_add]
          congr 1
          omega
  · rename_i hmany
    obtain ⟨k, hk⟩ : ∃ k, bitLength n = k + 53 := ⟨bitLength n - 53, by omega⟩
    unfold Held at h
    rw [hk, Nat.add_sub_cancel] at h
    rw [hk] at hlt ⊢
    obtain ⟨m, hm⟩ := h
    have hround : shiftRightRounded n k = m := by
      rw [shiftRightRounded_eq, hm, Nat.mul_mod_right, Nat.mul_div_cancel_left _ (by positivity)]
      rfl
    rw [Nat.add_sub_cancel, hround]
    constructor
    · rw [hm]
      push_cast
      rw [add_sub_cancel_right, zpow_natCast, mul_comm]
    · rw [hm, Nat.add_comm, Nat.pow_add, Nat.mul_comm (2 ^ 53)] at hlt
      exact Nat.lt_of_mul_lt_mul_left hlt

/-- A whole number that fits is not changed. -/
theorem magnitude_nearest_of_held {n : Nat} (h : Held n) (hlimit : (n : ℚ) < limit) :
    magnitude (nearest n) = n := by
  unfold magnitude
  rcases Nat.eq_zero_or_pos n with rfl | hpos
  · rw [nearest_zero_spec.2.2, Binary.value_eq]
    simp [Binary.of]
  · obtain ⟨hvalue, hfits⟩ := wholeMantissa_of_held h
    rw [(nearest_spec hpos.ne' hlimit).2.2, Binary.value_eq, wholeParts, if_pos hfits]
    exact hvalue

end DialogueBuild.Decimal

import DialogueBuild.Proofs.Decimal.Rounding
import DialogueBuild.Proofs.Decimal.Shortest
/-!
Products and quotients of doubles.

A finite double is unpacked into its sign and its parts, and packing them gives the double back. In
between an exact product or quotient is rounded once, so that the result belongs to it.

Results:

1. `unpack_of_isFinite`   a finite double is unpacked into its sign and its parts;
2. `ofUnpacked_spec`      the parts of a double are packed to it, or are too large;
3. `Rounds.isFinite`, `Rounds.covers`
                          what follows for a double that a number is rounded to;
4. `rounds_mul`, `rounds_div`
                          products and quotients are rounded;
5. `neg_spec`             what changes the sign.
-/
namespace DialogueBuild.Decimal

open Float.Model UnpackedFloat
open DoubleLemmas

/-! ## Unpacking -/

/-- The sign of a double, also of a zero. -/
def signOf (x : Float) : Sign := if isNegative x then .negative else .positive

/-- The sign is the first bit. -/
theorem unpackSign_eq (bits : BitVec 64) :
    @unpackSign Format.binary64 bits = bits.extractLsb' 63 1 := rfl

theorem toNat_unpackSign (x : Float) :
    (@unpackSign Format.binary64 x.toBits.toBitVec).toNat = x.toBits.toNat / 2 ^ 63 := by
  have hlt := x.toBits.toNat_lt
  rw [unpackSign_eq, BitVec.extractLsb'_toNat, UInt64.toNat_toBitVec, Nat.shiftRight_eq_div_pow]
  omega

theorem unpackSign_eq_zero_iff (x : Float) :
    @unpackSign Format.binary64 x.toBits.toBitVec = 0#1 ↔ isNegative x = false := by
  have hlt := x.toBits.toNat_lt
  have hpow : Nat.pow 2 63 = 2 ^ 63 := rfl
  rw [← BitVec.toNat_inj, toNat_unpackSign, isNegative, decide_eq_false_iff_not, hpow]
  simp only [BitVec.toNat_ofNat]
  omega

theorem ofBitVec_unpackSign (x : Float) :
    Sign.ofBitVec (@unpackSign Format.binary64 x.toBits.toBitVec) = signOf x := by
  unfold Sign.ofBitVec signOf
  cases h : isNegative x with
  | false => rw [if_pos ((unpackSign_eq_zero_iff x).mpr h), if_neg Bool.false_ne_true]
  | true => rw [if_neg (by rw [unpackSign_eq_zero_iff, h]; exact Bool.true_eq_false.mp),
      if_pos rfl]

/-- A finite double is unpacked into its sign and its parts. -/
theorem unpack_of_isFinite {x : Float} (h : x.isFinite) :
    x.toModel.unpack = (Binary.ofFloat x).unpacked (signOf x) := by
  have htop := (isFinite_iff x).mp h
  have hmax := unpackExponent_eq_neg_one_iff x
  have hmin := unpackExponent_eq_zero_iff x
  have hmantissa := unpackMantissa_eq_zero_iff x
  have hfield := toNat_unpackExponent x
  have hfraction := toNat_unpackMantissa x
  have hsign := ofBitVec_unpackSign x
  unfold Float.Model.unpack UnpackedFloat.unpack
  dsimp only
  rw [toBits_toModel, if_neg (mt hmax.mp htop), hsign, ofFloat_eq]
  by_cases hbottom : fieldOf x = 0
  · rw [if_pos (hmin.mpr hbottom), if_pos hbottom]
    by_cases hzero : fractionOf x = 0
    · rw [dif_pos (hmantissa.mpr hzero)]
      unfold Binary.unpacked
      rw [dif_pos hzero]
    · rw [dif_neg (mt hmantissa.mp hzero)]
      unfold Binary.unpacked
      rw [dif_neg hzero]
      congr 1
      rw [hfield, hbottom]
      rfl
  · rw [if_neg (mt hmin.mp hbottom), if_neg hbottom]
    unfold Binary.unpacked
    rw [dif_neg (show ¬ 2 ^ 52 + fractionOf x = 0 by omega)]
    congr 1
    · rw [BitVec.toNat_append, ← Nat.shiftLeft_add_eq_or_of_lt (BitVec.isLt _), hfraction]
      rfl
    · rw [hfield]
      rfl

/-! ## Packing -/

theorem unpackSign_packComponents (sign : Sign) (e : BitVec 11) (m : BitVec 52) :
    @unpackSign Format.binary64 (packComponents .binary64 sign e m) = sign.toBitVec := by
  apply BitVec.eq_of_getLsbD_eq
  intro i hi
  obtain rfl : i = 0 := by omega
  rw [unpackSign_eq, BitVec.getLsbD_extractLsb']
  show (true && ((sign.toBitVec ++ e) ++ m).getLsbD 63) = _
  rw [Bool.true_and, BitVec.getLsbD_append, BitVec.getLsbD_append]
  rfl

/-- The double of some packed components has these components. -/
theorem components_of_packed {x : Float} {sign : Sign} {e : BitVec 11} {m : BitVec 52}
    (h : x.toBits.toBitVec = packComponents .binary64 sign e m) :
    fieldOf x = e.toNat ∧ fractionOf x = m.toNat ∧ signOf x = sign := by
  refine ⟨?_, ?_, ?_⟩
  · rw [← toNat_unpackExponent, h, unpackExponent_packComponents]
  · rw [← toNat_unpackMantissa, h, unpackMantissa_packComponents]
  · rw [← ofBitVec_unpackSign, h, unpackSign_packComponents]
    cases sign <;> rfl

/-- The double that is packed from its sign and its parts. -/
def ofUnpacked (u : UnpackedFloat) : Float := .ofModel (.pack u)

theorem toBits_ofUnpacked (u : UnpackedFloat) :
    (ofUnpacked u).toBits.toBitVec = UnpackedFloat.pack .binary64 u := rfl

/-- The largest power of two of a double. -/
def topExponent : ℤ := 971

theorem pack_of_double {b : Binary} (h : b.IsDouble) (hpos : 0 < b.mantissa) (sign : Sign) :
    UnpackedFloat.pack .binary64 (.finite sign b.mantissa b.exponent hpos)
      = if topExponent < b.exponent then packComponents .binary64 sign (-1#_) 0
        else packComponents .binary64 sign
          (if 2 ^ 52 ≤ b.mantissa then BitVec.ofNat 11 (b.exponent + 1075).toNat else 0#_)
          (BitVec.ofNat 52 b.mantissa) := by
  have hlog : b.mantissa.log2 + 1 = Format.binary64.mantissaBits ↔ 2 ^ 52 ≤ b.mantissa := by
    show b.mantissa.log2 + 1 = 53 ↔ _
    rw [← Nat.le_log2 hpos.ne']
    have hlt := (Nat.log2_lt hpos.ne').mpr h.mantissa_lt
    omega
  have hbias : b.exponent + (Format.binary64.exponentBias : ℤ)
      + (Format.binary64.mantissaBitsWithoutImplicit : ℤ) = b.exponent + 1075 := by
    show b.exponent + 1023 + 52 = _
    ring
  have hge := h.exponent_ge
  unfold UnpackedFloat.pack
  simp only [hbias]
  by_cases htop : topExponent < b.exponent
  · have hlarge : 2 ^ Format.binary64.exponentBits ≤ (b.exponent + 1075).toNat + 1 := by
      show 2048 ≤ _
      unfold topExponent at htop
      omega
    rw [if_pos hlarge, if_pos htop]
    rfl
  · have hsmall : ¬ 2 ^ Format.binary64.exponentBits ≤ (b.exponent + 1075).toNat + 1 := by
      show ¬ 2048 ≤ _
      unfold topExponent at htop
      omega
    rw [if_neg hsmall, if_neg htop]
    by_cases hfull : 2 ^ 52 ≤ b.mantissa
    · rw [if_pos (hlog.mpr hfull), if_pos hfull]
    · rw [if_neg (mt hlog.mp hfull), if_neg hfull]

theorem ofFloat_of_components {x : Float} {b : Binary} (h : b.IsDouble)
    (hfield : fieldOf x = if 2 ^ 52 ≤ b.mantissa then (b.exponent + 1075).toNat else 0)
    (hfraction : fractionOf x = b.mantissa % 2 ^ 52) : Binary.ofFloat x = b := by
  have hlt := h.mantissa_lt
  have hge := h.exponent_ge
  rw [(isDouble_ofFloat x).eq_of, h.eq_of, ofFloat_eq, hfraction]
  by_cases hfull : 2 ^ 52 ≤ b.mantissa
  · rw [if_pos hfull] at hfield
    rw [if_neg (by omega), hfield]
    congr 1
    · show 2 ^ 52 + b.mantissa % 2 ^ 52 = b.mantissa
      omega
    · show ((b.exponent + 1075).toNat : ℤ) - 1075 = b.exponent
      omega
  · rw [if_neg hfull] at hfield
    have hexponent : b.exponent = -1074 := by
      by_contra hne
      exact hfull (h.mantissa_ge (by omega))
    rw [if_pos hfield, hexponent, Nat.mod_eq_of_lt (Nat.not_le.mp hfull)]

/-- The parts of a double are packed to it; if its power of two is too large, to infinity. -/
theorem ofUnpacked_spec {b : Binary} (h : b.IsDouble) (sign : Sign) :
    signOf (ofUnpacked (b.unpacked sign)) = sign
      ∧ ((ofUnpacked (b.unpacked sign)).isFinite ↔ b.exponent ≤ topExponent)
      ∧ (b.exponent ≤ topExponent → Binary.ofFloat (ofUnpacked (b.unpacked sign)) = b) := by
  have hlt := h.mantissa_lt
  have hge := h.exponent_ge
  have hbits := toBits_ofUnpacked (b.unpacked sign)
  rw [isFinite_iff]
  unfold topExponent
  by_cases hzero : b.mantissa = 0
  · have hexponent : b.exponent = -1074 := by
      by_contra hne
      have hfull := h.mantissa_ge (by omega)
      omega
    unfold Binary.unpacked at *
    rw [dif_pos hzero] at hbits ⊢
    obtain ⟨hfield, hfraction, hsign⟩ := components_of_packed hbits
    change fieldOf _ = 0 at hfield
    change fractionOf _ = 0 at hfraction
    refine ⟨hsign, by omega, fun _ => ofFloat_of_components h ?_ ?_⟩
    · rw [hfield, if_neg (by omega)]
    · rw [hfraction, hzero, Nat.zero_mod]
  · unfold Binary.unpacked at *
    rw [dif_neg hzero] at hbits ⊢
    rw [pack_of_double h (Nat.pos_of_ne_zero hzero)] at hbits
    by_cases htop : topExponent < b.exponent
    · rw [if_pos htop] at hbits
      unfold topExponent at htop
      obtain ⟨hfield, -, hsign⟩ := components_of_packed hbits
      change fieldOf _ = 2047 at hfield
      exact ⟨hsign, by omega, fun hle => by omega⟩
    · rw [if_neg htop] at hbits
      unfold topExponent at htop
      obtain ⟨hfield, hfraction, hsign⟩ := components_of_packed hbits
      rw [BitVec.toNat_ofNat] at hfraction
      have hvalue : fieldOf (ofUnpacked (.finite sign b.mantissa b.exponent
          (Nat.pos_of_ne_zero hzero)))
            = if 2 ^ 52 ≤ b.mantissa then (b.exponent + 1075).toNat else 0 := by
        rw [hfield]
        split
        · rw [BitVec.toNat_ofNat]
          omega
        · rfl
      refine ⟨hsign, ?_, fun _ => ofFloat_of_components h hvalue hfraction⟩
      rw [hvalue]
      split <;> omega

/-! ## Rounded results -/

theorem Binary.value_eq (b : Binary) : b.value = b.mantissa * 2 ^ b.exponent := by
  unfold value quarter
  rw [zpow_sub₀ (by norm_num)]
  push_cast
  ring

/-- The absolute value of a double. -/
def magnitude (x : Float) : ℚ := (Binary.ofFloat x).value

/-- A double is what a number is rounded to, with a sign of its own. -/
def Rounds (q : ℚ) (sign : Sign) (x : Float) : Prop :=
  ∃ b : Binary, b.IsDouble ∧ b.Covers q ∧ x = ofUnpacked (b.unpacked sign)

/-- The numbers from here on are too large for a double. -/
def limit : ℚ := (2 ^ 54 - 1) * 2 ^ 970

variable {x y : Float} {q : ℚ} {sign : Sign}

theorem Rounds.signOf_eq (h : Rounds q sign x) : signOf x = sign := by
  obtain ⟨b, hb, -, rfl⟩ := h
  exact (ofUnpacked_spec hb sign).1

/-- What is rounded to a finite double belongs to it. -/
theorem Rounds.covers (h : Rounds q sign x) (hfinite : x.isFinite) :
    (Binary.ofFloat x).Covers q := by
  obtain ⟨b, hb, hcovers, rfl⟩ := h
  obtain ⟨-, hiff, hparts⟩ := ofUnpacked_spec hb sign
  rwa [hparts (hiff.mp hfinite)]

theorem limit_le_of_covers {b : Binary} (hb : b.IsDouble) (h : b.Covers q)
    (htop : topExponent < b.exponent) : limit ≤ q := by
  unfold topExponent at htop
  have hlow := hb.le_cast_lowQuarters (by omega)
  have hquarter : (2 : ℚ) ^ 970 ≤ b.quarter := by
    unfold Binary.quarter
    rw [← zpow_natCast]
    exact zpow_le_zpow_right₀ (by norm_num) (by push_cast; omega)
  calc limit ≤ b.lowQuarters * b.quarter := by
        unfold limit
        exact mul_le_mul hlow hquarter (by positivity) (by positivity)
    _ ≤ q := h.low_le

/-- What is not too large is rounded to a finite double. -/
theorem Rounds.isFinite (h : Rounds q sign x) (hq : q < limit) : x.isFinite := by
  obtain ⟨b, hb, hcovers, rfl⟩ := h
  refine (ofUnpacked_spec hb sign).2.1.mpr ?_
  by_contra htop
  exact absurd (limit_le_of_covers hb hcovers (not_le.mp htop)) (not_le.mpr hq)

/-- A double is determined by its sign and its parts. -/
theorem eq_of_parts (hsign : signOf x = signOf y) (h : Binary.ofFloat x = Binary.ofFloat y) :
    x = y := by
  refine eq_of_ofFloat_eq ?_ h
  unfold signOf at hsign
  revert hsign
  cases isNegative x <;> cases isNegative y <;> simp

/-! ## Products and quotients -/

theorem rounds_zero (sign : Sign) : Rounds 0 sign (ofUnpacked (.zero sign)) :=
  ⟨.of 0 (-1074), isDouble_of (by decide) le_rfl (by simp), Binary.covers_zero rfl, rfl⟩

theorem mul_eq (x y : Float) :
    x * y = ofUnpacked (UnpackedFloat.mul .binary64 x.toModel.unpack y.toModel.unpack) := rfl

theorem div_eq (x y : Float) :
    x / y = ofUnpacked (UnpackedFloat.div .binary64 x.toModel.unpack y.toModel.unpack) := rfl

/-- A product of doubles is rounded once. -/
theorem rounds_mul (hx : x.isFinite) (hy : y.isFinite) :
    Rounds (magnitude x * magnitude y) (signOf x * signOf y) (x * y) := by
  have hdx := isDouble_ofFloat x
  have hdy := isDouble_ofFloat y
  rw [mul_eq, unpack_of_isFinite hx, unpack_of_isFinite hy]
  unfold magnitude
  rw [Binary.value_eq, Binary.value_eq]
  generalize Binary.ofFloat x = a at *
  generalize Binary.ofFloat y = b at *
  unfold Binary.unpacked
  by_cases ha : a.mantissa = 0
  · rw [dif_pos ha, ha, Nat.cast_zero, zero_mul, zero_mul]
    by_cases hb : b.mantissa = 0
    · rw [dif_pos hb]
      exact rounds_zero _
    · rw [dif_neg hb]
      exact rounds_zero _
  by_cases hb : b.mantissa = 0
  · rw [dif_neg ha, dif_pos hb, hb, Nat.cast_zero, zero_mul, mul_zero]
    exact rounds_zero _
  rw [dif_neg ha, dif_neg hb]
  have hdigits : a.exponent + b.exponent ≤ -1074 ∨ 2 ^ 52 ≤ a.mantissa * b.mantissa := by
    have hae := hdx.exponent_ge
    have hbe := hdy.exponent_ge
    rcases hae.eq_or_lt with hae | hae
    · rcases hbe.eq_or_lt with hbe | hbe
      · exact .inl (by omega)
      · exact .inr ((hdy.mantissa_ge hbe).trans (Nat.le_mul_of_pos_left _ (Nat.pos_of_ne_zero ha)))
    · exact .inr ((hdx.mantissa_ge hae).trans (Nat.le_mul_of_pos_right _ (Nat.pos_of_ne_zero hb)))
  have hexact : Lies (a.mantissa * b.mantissa) (a.mantissa * b.mantissa : ℕ) .exact := .exact rfl
  obtain ⟨c, hc, hcovers, hround⟩ :=
    exists_roundWithAccuracy (signOf x * signOf y) hexact hdigits
  refine ⟨c, hc, ?_, congrArg ofUnpacked hround⟩
  rw [zpow_add₀ (by norm_num)] at hcovers
  push_cast at hcovers
  convert hcovers using 1
  ring

/-- A quotient lies where its remainder says. -/
theorem lies_div (m : Nat) {n : Nat} (hn : 0 < n) :
    Lies (m / n) ((m : ℚ) / n) (accuracyOfFraction (m % n) n) := by
  have hn' : (0 : ℚ) < n := by exact_mod_cast hn
  have hsplit : (m : ℚ) / n = (m / n : ℕ) + (m % n : ℕ) / n := by
    rw [div_eq_iff hn'.ne', add_mul, div_mul_cancel₀ _ hn'.ne', mul_comm]
    exact_mod_cast (Nat.div_add_mod m n).symm
  have hlt : (m % n : ℕ) / (n : ℚ) < 1 := by
    rw [div_lt_one hn']
    exact_mod_cast Nat.mod_lt m hn
  rw [hsplit]
  generalize m % n = k at *
  unfold accuracyOfFraction
  split
  · rename_i hzero
    exact .exact (by rw [hzero, Nat.cast_zero, zero_div, add_zero])
  · rename_i hpos
    have hpos' : 0 < (k : ℚ) / n := div_pos (by exact_mod_cast Nat.pos_of_ne_zero hpos) hn'
    have hhalf : (k : ℚ) / n < 1 / 2 ↔ 2 * k < n := by
      rw [div_lt_div_iff₀ hn' (by norm_num), one_mul, mul_comm]
      exact_mod_cast Iff.rfl
    have hmiddle : (k : ℚ) / n = 1 / 2 ↔ 2 * k = n := by
      rw [div_eq_div_iff hn'.ne' (by norm_num), one_mul, mul_comm]
      exact_mod_cast Iff.rfl
    rcases lt_trichotomy (2 * k) n with hcompare | hcompare | hcompare
    · rw [Nat.compare_eq_lt.mpr hcompare]
      have := hhalf.mpr hcompare
      exact .below (by linarith) (by linarith)
    · rw [Nat.compare_eq_eq.mpr hcompare]
      have := hmiddle.mpr hcompare
      exact .middle (by linarith)
    · rw [Nat.compare_eq_gt.mpr hcompare]
      have hge := mt hhalf.mp (by omega)
      have hne := mt hmiddle.mp (by omega)
      have := lt_of_le_of_ne (not_lt.mp hge) (Ne.symm hne)
      exact .above (by linarith) (by linarith)

/-- How many binary digits a dividend is given, and where its quotient then starts. -/
theorem divCore_eq (m : Nat) (e : ℤ) (n : Nat) (f : ℤ) :
    ∃ (shift : Nat) (target : ℤ), target = e - f - shift
      ∧ divCore .binary64 m e n f
        = (m * 2 ^ shift / n, target, accuracyOfFraction (m * 2 ^ shift % n) n)
      ∧ (0 < m → 0 < n → target ≤ -1074 ∨ 2 ^ 52 ≤ m * 2 ^ shift / n) := by
  obtain ⟨target, htarget⟩ : ∃ target : ℤ, target
      = min (e - f) (max (m.log2 + 1 + e - (n.log2 + 1 + f) - 53) (-1074)) := ⟨_, rfl⟩
  refine ⟨(e - f - target).toNat, target, by omega, ?_, fun hm hn => ?_⟩
  · rw [← Nat.shiftLeft_eq, htarget]
    rfl
  · by_contra hnot
    rw [not_or, not_le, not_le] at hnot
    obtain ⟨hlarge, hfew⟩ := hnot
    -- the shift makes up for the digits by which the divisor is longer
    have hlog : 53 + n.log2 ≤ m.log2 + (e - f - target).toNat := by omega
    have hn' : n < 2 ^ (n.log2 + 1) := Nat.lt_log2_self
    have hm' := Nat.log2_self_le hm.ne'
    refine absurd hfew (not_lt.mpr ((Nat.le_div_iff_mul_le hn).mpr ?_))
    calc 2 ^ 52 * n ≤ 2 ^ 52 * 2 ^ (n.log2 + 1) := Nat.mul_le_mul_left _ hn'.le
      _ = 2 ^ (53 + n.log2) := by rw [← Nat.pow_add]; congr 1; omega
      _ ≤ 2 ^ (m.log2 + (e - f - target).toNat) := Nat.pow_le_pow_right (by decide) hlog
      _ ≤ m * 2 ^ (e - f - target).toNat := by
        rw [Nat.pow_add]
        exact Nat.mul_le_mul_right _ hm'

/-- A quotient of doubles is rounded once. -/
theorem rounds_div (hx : x.isFinite) (hy : y.isFinite) (hzero : 0 < magnitude y) :
    Rounds (magnitude x / magnitude y) (signOf x / signOf y) (x / y) := by
  rw [div_eq, unpack_of_isFinite hx, unpack_of_isFinite hy]
  unfold magnitude at *
  rw [Binary.value_eq] at hzero ⊢
  rw [Binary.value_eq]
  generalize Binary.ofFloat x = a at *
  generalize Binary.ofFloat y = b at *
  have hb : b.mantissa ≠ 0 := by
    intro hb
    rw [hb, Nat.cast_zero, zero_mul] at hzero
    exact lt_irrefl _ hzero
  unfold Binary.unpacked
  rw [dif_neg hb]
  by_cases ha : a.mantissa = 0
  · rw [dif_pos ha, ha, Nat.cast_zero, zero_mul, zero_div]
    exact rounds_zero _
  rw [dif_neg ha]
  obtain ⟨shift, target, htarget, hcore, hdigits⟩ :=
    divCore_eq a.mantissa a.exponent b.mantissa b.exponent
  obtain ⟨c, hc, hcovers, hround⟩ := exists_roundWithAccuracy (signOf x / signOf y)
    (lies_div (a.mantissa * 2 ^ shift) (Nat.pos_of_ne_zero hb))
    (hdigits (Nat.pos_of_ne_zero ha) (Nat.pos_of_ne_zero hb))
  refine ⟨c, hc, ?_, ?_⟩
  · convert hcovers using 1
    rw [htarget, zpow_sub₀ (by norm_num), zpow_sub₀ (by norm_num), zpow_natCast]
    push_cast
    have hb' : (b.mantissa : ℚ) ≠ 0 := by exact_mod_cast hb
    field_simp
  · rw [← hround]
    unfold UnpackedFloat.div
    simp only [hcore]

/-! ## Signs -/

theorem exponent_le_of_isFinite (h : x.isFinite) : (Binary.ofFloat x).exponent ≤ topExponent := by
  have htop := (isFinite_iff x).mp h
  have hfield : fieldOf x < 2 ^ 11 := Nat.mod_lt _ (by decide)
  unfold topExponent
  rw [ofFloat_eq]
  split
  · simp only
    omega
  · simp only
    omega

/-- The other sign leaves the parts of a double as they are. -/
theorem neg_spec (h : x.isFinite) :
    (-x).isFinite ∧ Binary.ofFloat (-x) = Binary.ofFloat x ∧ signOf (-x) = -signOf x := by
  have hneg : -x = ofUnpacked ((Binary.ofFloat x).unpacked (-signOf x)) := by
    show ofUnpacked x.toModel.unpack.neg = _
    rw [unpack_of_isFinite h]
    unfold Binary.unpacked
    by_cases hzero : (Binary.ofFloat x).mantissa = 0
    · rw [dif_pos hzero, dif_pos hzero]
      rfl
    · rw [dif_neg hzero, dif_neg hzero]
      rfl
  obtain ⟨hsign, hfinite, hparts⟩ := ofUnpacked_spec (isDouble_ofFloat x) (-signOf x)
  rw [← hneg] at hsign hfinite hparts
  have htop := exponent_le_of_isFinite h
  exact ⟨hfinite.mpr htop, hparts htop, hsign⟩

end DialogueBuild.Decimal

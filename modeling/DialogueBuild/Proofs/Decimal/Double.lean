import DialogueBuild.Decimal.Binary
import Mathlib.Algebra.Group.Nat.Defs
/-!
Doubles and their bits: what a finite double is made of, and which doubles are zero.

Results:

1. `isFinite_iff`, `beq_zero_iff`     finiteness and zero are read off the bits;
2. `isDouble_ofFloat`                 the parts of a finite double are those of a double;
3. `eq_of_ofFloat_eq`                 a double is determined by its sign and its parts.
-/
namespace DialogueBuild.Decimal

open Float.Model

/-- The bits of a double that hold its power of two. -/
def fieldOf (x : Float) : Nat := x.toBits.toNat / 2 ^ 52 % 2 ^ 11

/-- The bits of a double that hold its fraction. -/
def fractionOf (x : Float) : Nat := x.toBits.toNat % 2 ^ 52

/-! ## Unpacked doubles -/

namespace DoubleLemmas

open UnpackedFloat

theorem toNat_unpackExponent (x : Float) :
    (@unpackExponent Format.binary64 x.toBits.toBitVec).toNat = fieldOf x := by
  simp [unpackExponent, fieldOf, BitVec.extractLsb, Nat.shiftRight_eq_div_pow]

theorem toNat_unpackMantissa (x : Float) :
    (@unpackMantissa Format.binary64 x.toBits.toBitVec).toNat = fractionOf x := by
  simp [unpackMantissa, fractionOf, BitVec.extractLsb, Nat.shiftRight_eq_div_pow]

theorem unpackExponent_eq_neg_one_iff (x : Float) :
    @unpackExponent Format.binary64 x.toBits.toBitVec = -1#_ ↔ fieldOf x = 2047 := by
  rw [← toNat_unpackExponent, ← BitVec.toNat_inj]
  simp

theorem unpackExponent_eq_zero_iff (x : Float) :
    @unpackExponent Format.binary64 x.toBits.toBitVec = 0#_ ↔ fieldOf x = 0 := by
  rw [← toNat_unpackExponent, ← BitVec.toNat_inj]
  simp

theorem unpackMantissa_eq_zero_iff (x : Float) :
    @unpackMantissa Format.binary64 x.toBits.toBitVec = 0#_ ↔ fractionOf x = 0 := by
  rw [← toNat_unpackMantissa, ← BitVec.toNat_inj]
  simp

theorem toBits_toModel (x : Float) : x.toModel.toBits = x.toBits := rfl

/-- The unpacking of a double, and what it says of the bits. -/
inductive Unpacked (x : Float) : UnpackedFloat → Prop
  | infinity (s : Sign) (h : fieldOf x = 2047) : Unpacked x (.infinity s)
  | notANumber (h : fieldOf x = 2047) : Unpacked x .notANumber
  | zero (s : Sign) (h : fieldOf x = 0) (hfraction : fractionOf x = 0) : Unpacked x (.zero s)
  | subnormal (s : Sign) (m : Nat) (e : Int) (hm : 0 < m) (h : fieldOf x = 0)
      (hfraction : fractionOf x ≠ 0) : Unpacked x (.finite s m e hm)
  | normal (s : Sign) (m : Nat) (e : Int) (hm : 0 < m) (htop : fieldOf x ≠ 2047)
      (h : fieldOf x ≠ 0) : Unpacked x (.finite s m e hm)

theorem unpacked (x : Float) : Unpacked x x.toModel.unpack := by
  have hmax := unpackExponent_eq_neg_one_iff x
  have hmin := unpackExponent_eq_zero_iff x
  have hmantissa := unpackMantissa_eq_zero_iff x
  unfold Float.Model.unpack UnpackedFloat.unpack
  dsimp only
  rw [toBits_toModel]
  by_cases htop : @unpackExponent Format.binary64 x.toBits.toBitVec = -1#_
  · rw [if_pos htop]
    by_cases hfraction : @unpackMantissa Format.binary64 x.toBits.toBitVec = 0#_
    · rw [if_pos hfraction]
      exact .infinity _ (hmax.mp htop)
    · rw [if_neg hfraction]
      exact .notANumber (hmax.mp htop)
  rw [if_neg htop]
  by_cases hbottom : @unpackExponent Format.binary64 x.toBits.toBitVec = 0#_
  · rw [if_pos hbottom]
    by_cases hfraction : @unpackMantissa Format.binary64 x.toBits.toBitVec = 0#_
    · rw [dif_pos hfraction]
      exact .zero _ (hmin.mp hbottom) (hmantissa.mp hfraction)
    · rw [dif_neg hfraction]
      exact .subnormal _ _ _ _ (hmin.mp hbottom) (mt hmantissa.mpr hfraction)
  · rw [if_neg hbottom]
    exact .normal _ _ _ _ (mt hmax.mpr htop) (mt hmin.mpr hbottom)

/-- Whether an unpacked double is a zero of either sign. -/
def isZero : UnpackedFloat → Bool
  | .zero _ => true
  | _ => false

theorem beq_zero_eq (u : UnpackedFloat) : u.beq (.zero .positive) = isZero u := by
  cases u with
  | notANumber => rfl
  | infinity s => cases s <;> rfl
  | zero s => cases s <;> rfl
  | finite s m e h => cases s <;> rfl

end DoubleLemmas

open DoubleLemmas

/-! ## Reading the bits -/

theorem isFinite_iff (x : Float) : x.isFinite ↔ fieldOf x ≠ 2047 := by
  have hmodel : x.isFinite = x.toModel.unpack.isFinite := rfl
  have hunpacked := unpacked x
  rw [hmodel]
  generalize x.toModel.unpack = u at hunpacked
  cases hunpacked with
  | infinity s h => exact iff_of_false Bool.false_ne_true (by omega)
  | notANumber h => exact iff_of_false Bool.false_ne_true (by omega)
  | zero s h _ => exact iff_of_true rfl (by omega)
  | subnormal s m e hm h _ => exact iff_of_true rfl (by omega)
  | normal s m e hm htop _ => exact iff_of_true rfl htop

theorem beq_zero_iff (x : Float) : (x == 0) = true ↔ fieldOf x = 0 ∧ fractionOf x = 0 := by
  have hmodel : (x == 0) = x.toModel.unpack.beq (.zero .positive) := rfl
  have hunpacked := unpacked x
  rw [hmodel, beq_zero_eq]
  generalize x.toModel.unpack = u at hunpacked
  cases hunpacked with
  | infinity s h => exact iff_of_false Bool.false_ne_true (by omega)
  | notANumber h => exact iff_of_false Bool.false_ne_true (by omega)
  | zero s h hfraction => exact iff_of_true rfl ⟨h, hfraction⟩
  | subnormal s m e hm _ hfraction =>
    exact iff_of_false Bool.false_ne_true fun hboth => hfraction hboth.2
  | normal s m e hm _ h => exact iff_of_false Bool.false_ne_true fun hboth => h hboth.1

theorem isNaN_of_isFinite {x : Float} (h : x.isFinite) : x.isNaN = false := by
  have hfinite : x.toModel.unpack.isFinite := h
  show x.toModel.unpack.isNaN = false
  cases hx : x.toModel.unpack with
  | notANumber =>
    rw [hx] at hfinite
    cases hfinite
  | infinity s => rfl
  | zero s => rfl
  | finite s m e hm => rfl

theorem isInf_of_isFinite {x : Float} (h : x.isFinite) : x.isInf = false := by
  have hfinite : x.toModel.unpack.isFinite := h
  show x.toModel.unpack.isInf = false
  cases hx : x.toModel.unpack with
  | notANumber => rfl
  | infinity s =>
    rw [hx] at hfinite
    cases hfinite
  | zero s => rfl
  | finite s m e hm => rfl

theorem isNaN_or_isInf {x : Float} (h : x.isFinite = false) : x.isNaN ∨ x.isInf := by
  change x.toModel.unpack.isFinite = false at h
  show x.toModel.unpack.isNaN ∨ x.toModel.unpack.isInf
  cases hx : x.toModel.unpack with
  | notANumber => exact .inl rfl
  | infinity s => exact .inr rfl
  | zero s =>
    rw [hx] at h
    cases h
  | finite s m e hm =>
    rw [hx] at h
    cases h

theorem eq_of_toBits_eq {x y : Float} (h : x.toBits = y.toBits) : x = y := by
  obtain ⟨⟨a, ha⟩⟩ := x
  obtain ⟨⟨b, hb⟩⟩ := y
  have hbits : a = b := h
  subst hbits
  rfl

/-! ## Parts -/

/-- What holds of the parts of every finite double: the mantissa has at most 53 binary digits, and
all 53 unless the power of two is the least one. -/
structure Binary.IsDouble (b : Binary) : Prop where
  mantissa_lt : b.mantissa < 2 ^ 53
  exponent_ge : -1074 ≤ b.exponent
  mantissa_ge : -1074 < b.exponent → 2 ^ 52 ≤ b.mantissa
  closeBelow_iff : b.closeBelow ↔ b.mantissa = 2 ^ 52 ∧ -1074 < b.exponent

theorem ofFloat_eq (x : Float) :
    Binary.ofFloat x
      = if fieldOf x = 0 then ⟨fractionOf x, -1074, false⟩
        else ⟨2 ^ 52 + fractionOf x, (fieldOf x : Int) - 1075,
          fractionOf x = 0 && 1 < fieldOf x⟩ := rfl

theorem isDouble_ofFloat (x : Float) : (Binary.ofFloat x).IsDouble := by
  have hfraction : fractionOf x < 2 ^ 52 := Nat.mod_lt _ (by decide)
  rw [ofFloat_eq]
  split
  · exact ⟨by simp only; omega, by simp, by simp, by simp⟩
  · refine ⟨by simp only; omega, by simp only; omega, fun _ => by simp, ?_⟩
    simp only [Bool.and_eq_true, decide_eq_true_eq]
    omega

/-- A finite double that is not zero has a mantissa. -/
theorem mantissa_pos {x : Float} (h : (x == 0) = false) : 0 < (Binary.ofFloat x).mantissa := by
  have hzero : ¬ (fieldOf x = 0 ∧ fractionOf x = 0) := by
    rw [← beq_zero_iff, h]
    decide
  rw [ofFloat_eq]
  split
  · simp only
    omega
  · simp only
    omega

theorem toBits_eq (x : Float) :
    x.toBits.toNat
      = (if isNegative x then 2 ^ 63 else 0) + fieldOf x * 2 ^ 52 + fractionOf x := by
  have hlt := x.toBits.toNat_lt
  unfold isNegative fieldOf fractionOf
  by_cases h : 2 ^ 63 ≤ x.toBits.toNat
  · rw [if_pos (by simpa using h)]
    omega
  · rw [if_neg (by simpa using h)]
    omega

/-- A double is determined by its sign and its parts. -/
theorem eq_of_ofFloat_eq {x y : Float} (hsign : isNegative x = isNegative y)
    (h : Binary.ofFloat x = Binary.ofFloat y) : x = y := by
  have hx : fractionOf x < 2 ^ 52 := Nat.mod_lt _ (by decide)
  have hy : fractionOf y < 2 ^ 52 := Nat.mod_lt _ (by decide)
  have hparts : fieldOf x = fieldOf y ∧ fractionOf x = fractionOf y := by
    rw [ofFloat_eq, ofFloat_eq] at h
    split at h <;> split at h <;> simp only [Binary.mk.injEq] at h <;> omega
  apply eq_of_toBits_eq
  apply UInt64.toNat_inj.mp
  rw [toBits_eq, toBits_eq, hsign, hparts.1, hparts.2]

end DialogueBuild.Decimal

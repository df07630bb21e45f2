import DialogueBuild.Proofs.Json.NumberText
import DialogueBuild.Proofs.Json.Scaling
/-!
Doubles that are read back from their texts.

The text of a double has at most seventeen digits, so all of them are taken, and its power of ten
leads neither to a number that is too large nor out of the range of what can be divided by.

Results:

1. `magnitude?_eq`          few digits are taken whole and scaled;
2. `isShort_floatNumeral`   the text of a double has few digits;
3. `number_floatNumeral`    so every finite double is read back as a double with its sign that is a
                            few last binary digits away, and as itself if its digits and its power
                            of ten fit into doubles.
-/
namespace DialogueBuild.Json

open Decimal

variable {t : Numeral} {x y : Float} {d : Digits}

/-! ## Reading digits -/

/-- The digits of a numeral as one whole number. -/
def Numeral.significand (t : Numeral) : Nat := digitsValue (t.whole ++ t.fraction)

/-- The power of ten that the last digit of a numeral stands for. -/
def Numeral.power (t : Numeral) : ℤ :=
  (match t.exponent with
    | some e => e.value
    | none => 0) - (t.fraction.length : ℤ)

theorem Numeral.exact_eq (t : Numeral) : t.exact = t.significand * 10 ^ t.power := rfl

/-- Digits are taken whole if the number fits into 64 bits. -/
theorem accumulate_eq {cs : List Char} {n : Nat}
    (h : n * 10 ^ cs.length + digitsValue cs < 2 ^ 64) :
    accumulate n cs = (n * 10 ^ cs.length + digitsValue cs, 0) := by
  induction cs generalizing n with
  | nil => simp [accumulate, digitsValue]
  | cons c cs ih =>
    have happ := digitsValue_append [c] cs
    have hone : digitsValue [c] = digitValue c := by simp [digitsValue]
    rw [List.singleton_append, hone] at happ
    have hnext : n * 10 ^ (c :: cs).length + digitsValue (c :: cs)
        = (10 * n + digitValue c) * 10 ^ cs.length + digitsValue cs := by
      rw [happ, List.length_cons, Nat.pow_succ]
      ring
    rw [hnext] at h ⊢
    have hfits : 10 * n + digitValue c < Nat.pow 2 64 := by
      have hpos : 0 < 10 ^ cs.length := by positivity
      have := Nat.le_mul_of_pos_right (10 * n + digitValue c) hpos
      rw [Nat.pow_eq]
      omega
    rw [accumulate, if_pos hfits, ih h]

/-- Few digits are taken whole and scaled. -/
theorem magnitude?_eq (h : t.significand < 2 ^ 64)
    (hpower : ∀ e ∈ t.exponent, digitsValue e.digits < 2 ^ 31) :
    t.magnitude? = scale? t.significand t.power := by
  have happ : t.significand
      = digitsValue t.whole * 10 ^ t.fraction.length + digitsValue t.fraction :=
    digitsValue_append t.whole t.fraction
  rw [happ] at h
  have hwhole : accumulate 0 t.whole = (digitsValue t.whole, 0) := by
    have := Nat.le_mul_of_pos_right (digitsValue t.whole)
      (show 0 < 10 ^ t.fraction.length by positivity)
    have hread : accumulate 0 t.whole = (0 * 10 ^ t.whole.length + digitsValue t.whole, 0) :=
      accumulate_eq (by omega)
    rwa [Nat.zero_mul, Nat.zero_add] at hread
  have hfraction := accumulate_eq h
  rw [← happ] at hfraction
  unfold Numeral.magnitude? Numeral.power
  simp only [hwhole, hfraction]
  cases hexponent : t.exponent with
  | none =>
    simp
  | some e =>
    have hsmall : digitsValue e.digits < Nat.pow 2 31 := hpower e hexponent
    simp only [if_pos hsmall]
    congr 1
    omega

/-! ## Texts of doubles -/

/-- A numeral with few digits, and with a power of ten that is written near the one of its last
digit. -/
structure Numeral.IsShort (t : Numeral) : Prop where
  significand_le : t.significand ≤ 10 ^ 17
  exponent_le : ∀ e ∈ t.exponent, digitsValue e.digits ≤ t.power.natAbs + 16

theorem digitsValue_le {ds : List Char} (h : ∀ c ∈ ds, c.isDigit) (hlen : ds.length ≤ 17) :
    digitsValue ds ≤ 10 ^ 17 :=
  (digitsValue_lt h).le.trans (Nat.pow_le_pow_right (by decide) hlen)

theorem isShort_plain (negative : Bool) (h : d.WellFormed) (hlen : d.digits.length ≤ 17)
    (hpoint : d.point ≤ 16) : (plainNumeral negative d).IsShort := by
  have hdigits := digitsValue_le h.isDigit hlen
  unfold plainNumeral
  split
  · have hzero : digitsValue ['0'] = 0 := rfl
    refine ⟨?_, by simp⟩
    simp only [Numeral.significand, digitsValue_append, hzero, zeros, digitsValue_zeros,
      Nat.zero_mul, Nat.zero_add]
    exact hdigits
  split
  · refine ⟨?_, by simp⟩
    simp only [Numeral.significand, List.take_append_drop]
    exact hdigits
  · have hpad := length_zeros (n := d.point - d.digits.length) (by omega)
    refine ⟨digitsValue_le ?_ ?_, by simp⟩
    · intro c hc
      rcases List.mem_append.mp hc with hc | hc
      · rcases List.mem_append.mp hc with hc | hc
        · exact h.isDigit c hc
        · exact isDigit_of_mem_zeros hc
      · rw [List.mem_singleton.mp hc]
        decide
    · simp only [List.length_append, List.length_singleton]
      omega

theorem significand_scientific (negative : Bool) (d : Digits) :
    (scientificNumeral negative d).significand = digitsValue d.digits := by
  simp only [scientificNumeral, Numeral.significand, List.take_append_drop]

theorem power_scientific (negative : Bool) (d : Digits) :
    (scientificNumeral negative d).power = d.point - 1 - (d.digits.length - 1 : ℕ) := by
  simp only [scientificNumeral, Numeral.power, Exponent.value, digitsValue_digitsOf,
    List.length_drop, decide_eq_true_eq]
  split <;> omega

theorem isShort_scientific (negative : Bool) (h : d.WellFormed) (hlen : d.digits.length ≤ 17) :
    (scientificNumeral negative d).IsShort := by
  refine ⟨?_, ?_⟩
  · rw [significand_scientific]
    exact digitsValue_le h.isDigit hlen
  · rintro e he
    rw [power_scientific]
    cases he
    rw [digitsValue_digitsOf]
    omega

/-- The text of a double has few digits. -/
theorem isShort_floatNumeral (x : Float) : (floatNumeral x).IsShort := by
  unfold floatNumeral
  cases hzero : x == 0 with
  | true =>
    have hvalue : digitsValue ['0', '0'] ≤ 10 ^ 17 := by decide
    exact ⟨hvalue, by simp⟩
  | false =>
    have hpos := mantissa_pos hzero
    have hwf := (shortest_spec (isDouble_ofFloat x) hpos .toEven).1
    have hlen := length_shortest_le (isDouble_ofFloat x) hpos .toEven
    simp only [Bool.false_eq_true, if_false]
    split
    · rename_i hplain
      simp only [Bool.and_eq_true, decide_eq_true_eq] at hplain
      exact isShort_plain _ hwf hlen (by omega)
    · exact isShort_scientific _ hwf hlen

/-! ## The largest doubles -/

/-- The digits of the largest doubles are scaled to doubles next to them. -/
theorem scale_largest : ∀ p ∈ largest,
    shortest (.of p.1 topExponent) .toEven = ⟨digitsOf p.2, 309⟩ ∧ (digitsOf p.2).length = 17
      ∧ (scale? p.2 292).any fun y => y.isFinite && !isNegative y
        && (Binary.ofFloat y).exponent = topExponent && (Binary.ofFloat y).mantissa ≤ p.1 + 1
        && p.1 ≤ (Binary.ofFloat y).mantissa + 1 := by
  decide +kernel

/-! ## Reading back -/

/-- The digits and the power of ten fit into doubles. -/
def Numeral.Fits (t : Numeral) : Prop := Held t.significand ∧ t.power.natAbs ≤ 22

instance (t : Numeral) : Decidable t.Fits := inferInstanceAs (Decidable (_ ∧ _))

theorem numeral_bounds (h : x.isFinite) (hzero : (x == 0) = false) :
    0 < (floatNumeral x).significand ∧ -616 ≤ (floatNumeral x).power
      ∧ (floatNumeral x).power ≤ 308 := by
  have hdouble := isDouble_ofFloat x
  have hcovers := covers_numeral x
  rw [Numeral.exact_eq] at hcovers
  exact power_bounds (isShort_floatNumeral x).significand_le
    (le_of_covers hdouble (mantissa_pos hzero) hcovers)
    (le_limit_of_covers hdouble (exponent_le_of_isFinite h) hcovers)

theorem scale_of_ne_zero (h : x.isFinite) (hzero : (x == 0) = false) :
    ∃ y, scale? (floatNumeral x).significand (floatNumeral x).power = some y ∧ IsUnsigned y
      ∧ |magnitude y - magnitude x| ≤ 6 * (Binary.ofFloat x).unit
      ∧ ((floatNumeral x).Fits → Binary.ofFloat y = Binary.ofFloat x) := by
  have hdouble := isDouble_ofFloat x
  have htop := exponent_le_of_isFinite h
  have hcovers := covers_numeral x
  rw [Numeral.exact_eq] at hcovers
  have hdigits := (isShort_floatNumeral x).significand_le
  obtain ⟨hpos, hlow, -⟩ := numeral_bounds h hzero
  rcases le_or_gt (Binary.ofFloat x).value ((2 ^ 53 - 4) * 2 ^ 971) with hvalue | hvalue
  · obtain ⟨y, hy, hnear⟩ :=
      scale_spec hpos hdigits hlow (lt_limit_of_covers htop hcovers hvalue)
    obtain ⟨hclose, hexact⟩ := hnear.close hdouble hcovers
    exact ⟨y, hy, hnear.isUnsigned, hclose, hexact⟩
  · obtain ⟨p, hp, hparts⟩ := exists_largest hdouble htop hvalue
    obtain ⟨hshortest, hlength, hscale⟩ := scale_largest p hp
    have hnumeral : floatNumeral x = scientificNumeral (isNegative x) ⟨digitsOf p.2, 309⟩ := by
      unfold floatNumeral
      rw [hzero, hparts, hshortest]
      rfl
    have hpower : (floatNumeral x).power = 292 := by
      rw [hnumeral, power_scientific, hlength]
      rfl
    have hsignificand : (floatNumeral x).significand = p.2 := by
      rw [hnumeral, significand_scientific, digitsValue_digitsOf]
    obtain ⟨y, hy, hcheck⟩ := (Option.any_eq_true _ _).mp hscale
    simp only [Bool.and_eq_true, Bool.not_eq_true', decide_eq_true_eq] at hcheck
    obtain ⟨⟨⟨⟨hfinite, hsign⟩, hexponent⟩, habove⟩, hbelow⟩ := hcheck
    rw [hsignificand, hpower]
    refine ⟨y, hy, ⟨hfinite, by rw [signOf, hsign]; rfl⟩, ?_, fun hfits => ?_⟩
    · have hm : |((Binary.ofFloat y).mantissa : ℚ) - p.1| ≤ 1 := by
        have habove' : ((Binary.ofFloat y).mantissa : ℚ) ≤ p.1 + 1 := by exact_mod_cast habove
        have hbelow' : (p.1 : ℚ) ≤ (Binary.ofFloat y).mantissa + 1 := by exact_mod_cast hbelow
        rw [abs_le]
        constructor <;> linarith
      have hunit := (Binary.ofFloat x).unit_pos
      have hsub : magnitude y - magnitude x
          = ((Binary.ofFloat y).mantissa - p.1) * (Binary.ofFloat x).unit := by
        rw [magnitude, magnitude, Binary.value_eq, Binary.value_eq, hexponent, hparts, sub_mul]
        rfl
      rw [hsub, abs_mul, abs_of_pos hunit]
      exact mul_le_mul_of_nonneg_right (hm.trans (by norm_num)) hunit.le
    · have hfew := hfits.2
      rw [hpower] at hfew
      exact absurd hfew (by decide)

theorem numeral_zero (hzero : (x == 0) = true) :
    (floatNumeral x).significand = 0 ∧ (floatNumeral x).power = -1
      ∧ Binary.ofFloat x = ⟨0, -1074, false⟩ := by
  have hnumeral : floatNumeral x = ⟨isNegative x, ['0'], ['0'], none⟩ := if_pos hzero
  obtain ⟨hfield, hfraction⟩ := (beq_zero_iff x).mp hzero
  rw [hnumeral]
  refine ⟨rfl, rfl, ?_⟩
  rw [ofFloat_eq, if_pos hfield, hfraction]

theorem scale_zero : (scale? 0 (-1)).any fun y => y.isFinite && !isNegative y
    && Binary.ofFloat y = ⟨0, -1074, false⟩ := by
  decide +kernel

/-- The digits of a double are scaled to one a few last binary digits away. -/
theorem scale_floatNumeral (h : x.isFinite) :
    ∃ y, scale? (floatNumeral x).significand (floatNumeral x).power = some y ∧ IsUnsigned y
      ∧ |magnitude y - magnitude x| ≤ 6 * (Binary.ofFloat x).unit
      ∧ ((floatNumeral x).Fits → Binary.ofFloat y = Binary.ofFloat x) := by
  cases hzero : x == 0 with
  | false => exact scale_of_ne_zero h hzero
  | true =>
    obtain ⟨hsignificand, hpower, hparts⟩ := numeral_zero hzero
    obtain ⟨y, hy, hcheck⟩ := (Option.any_eq_true _ _).mp scale_zero
    simp only [Bool.and_eq_true, Bool.not_eq_true', decide_eq_true_eq] at hcheck
    obtain ⟨⟨hfinite, hsign⟩, hsame⟩ := hcheck
    rw [hsignificand, hpower]
    have hunit := (Binary.ofFloat x).unit_pos
    refine ⟨y, hy, ⟨hfinite, by rw [signOf, hsign]; rfl⟩, ?_, fun _ => by rw [hsame, hparts]⟩
    rw [magnitude, magnitude, hsame, hparts, sub_self, abs_zero, ← hparts]
    positivity

theorem magnitude_floatNumeral (h : x.isFinite) :
    (floatNumeral x).magnitude?
      = scale? (floatNumeral x).significand (floatNumeral x).power := by
  have hshort := isShort_floatNumeral x
  refine magnitude?_eq (hshort.significand_le.trans_lt (by decide)) fun e he => ?_
  have hexponent := hshort.exponent_le e he
  cases hzero : x == 0 with
  | false =>
    obtain ⟨-, hlow, hhigh⟩ := numeral_bounds h hzero
    omega
  | true =>
    have hpower := (numeral_zero hzero).2.1
    omega

/-- What a double is read back as. -/
structure ReadAs (x y : Float) : Prop where
  isFinite : y.isFinite
  signOf_eq : signOf y = signOf x
  /-- It is a few last binary digits away. -/
  close : |magnitude y - magnitude x| ≤ 6 * (Binary.ofFloat x).unit
  /-- It is the double itself if the digits and the power of ten of the text fit into doubles. -/
  exact : (floatNumeral x).Fits → y = x

/-- The text of a double is never read as a whole number. -/
theorem number_eq (h : (floatNumeral x).magnitude? = some y) :
    (floatNumeral x).number? = some (.float (if isNegative x then -y else y)) := by
  have hfloat : ((floatNumeral x).fraction.isEmpty && (floatNumeral x).exponent.isNone)
      = false := by
    rcases isFloat_floatNumeral x with hfraction | hexponent
    · simp [hfraction]
    · simp [Option.isSome_iff_ne_none.mpr hexponent]
  unfold Numeral.number?
  simp only [hfloat, h, negative_floatNumeral, Bool.false_and, Bool.false_eq_true, if_false,
    Option.map_some]

/-- Every finite double is read back as a double with its sign that is a few last binary digits
away. -/
theorem number_floatNumeral (h : x.isFinite) :
    ∃ y, (floatNumeral x).number? = some (.float y) ∧ ReadAs x y := by
  obtain ⟨y, hy, hunsigned, hclose, hexact⟩ := scale_floatNumeral h
  refine ⟨_, number_eq ((magnitude_floatNumeral h).trans hy), ?_⟩
  cases hsign : isNegative x with
  | false =>
    have hsame : signOf y = signOf x := by rw [hunsigned.signOf_eq, signOf, hsign]; rfl
    exact ⟨hunsigned.isFinite, hsame, hclose, fun hfits => eq_of_parts hsame (hexact hfits)⟩
  | true =>
    obtain ⟨hfinite, hparts, hneg⟩ := neg_spec hunsigned.isFinite
    have hsame : signOf (-y) = signOf x := by
      rw [hneg, hunsigned.signOf_eq, signOf, hsign]
      rfl
    refine ⟨hfinite, hsame, ?_, fun hfits => eq_of_parts hsame (hparts.trans (hexact hfits))⟩
    simp only [magnitude, if_true, hparts]
    exact hclose

end DialogueBuild.Json

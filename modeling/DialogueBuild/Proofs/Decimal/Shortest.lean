import DialogueBuild.Proofs.Decimal.Digits
import DialogueBuild.Proofs.Decimal.Interval
/-!
The shortest decimal of a double belongs to the double.

Results:

1. `exists_pick`     a grid that is finer than the interval of a double has a point in it;
2. `shortest_spec`   the shortest decimal is made of digits, and its value belongs to the double;
3. `length_shortest_le`
                     it has at most seventeen digits.
-/
namespace DialogueBuild.Decimal

open Json (digitsValue)

variable {b : Binary}

/-! ## Picking a point -/

theorem holds_of_pick {g : Grid} {tie : Tie} {n : Nat} (h : g.pick? tie = some n) :
    g.holds n := by
  unfold Grid.pick? at h
  dsimp only at h
  split at h
  · cases h
  · rename_i hbelow _
    cases h
    exact hbelow
  · rename_i _ habove
    cases h
    exact habove
  · rename_i hbelow habove
    have heven : g.middle / g.unit % 2 = 0 ∨ g.middle / g.unit % 2 = 1 := by omega
    split at h
    · cases h
      exact hbelow
    · split at h
      · cases h
        exact habove
      · cases tie with
        | up =>
          cases h
          exact habove
        | toEven =>
          cases h
          rcases heven with h | h
          · rw [h]
            exact hbelow
          · rw [h]
            exact habove

theorem not_holds_of_pick {g : Grid} {tie : Tie} (h : g.pick? tie = none) :
    g.holds (g.middle / g.unit) = false ∧ g.holds (g.middle / g.unit + 1) = false := by
  unfold Grid.pick? at h
  dsimp only at h
  split at h
  · rename_i hbelow habove
    exact ⟨hbelow, habove⟩
  · cases h
  · cases h
  · split at h
    · cases h
    · split at h
      · cases h
      · cases tie <;> cases h

/-- The absolute value of a double. -/
def Binary.value (b : Binary) : ℚ := (4 * b.mantissa : ℕ) * b.quarter

theorem unit_pos (b : Binary) (step : ℤ) : 0 < (Grid.of b step).unit := by
  simp only [Grid.of, Nat.pow_eq]
  positivity

theorem middle_eq (b : Binary) (step : ℤ) :
    (Grid.of b step).middle = 4 * b.mantissa * gridScale b step := rfl

/-- The double is at or behind the grid point before it. -/
theorem below_le_value (b : Binary) (step : ℤ) :
    (((Grid.of b step).middle / (Grid.of b step).unit : ℕ) : ℚ) * 10 ^ step ≤ b.value := by
  rw [Binary.value, ← mul_unit_le_iff, ← middle_eq]
  exact Nat.div_mul_le_self _ _

/-- The double is before the next grid point. -/
theorem value_lt_above (b : Binary) (step : ℤ) :
    b.value < (((Grid.of b step).middle / (Grid.of b step).unit + 1 : ℕ) : ℚ) * 10 ^ step := by
  rw [Binary.value, ← not_le, ← mul_unit_le_iff, ← middle_eq, Nat.not_le]
  exact Nat.lt_mul_of_div_lt (Nat.lt_succ_self _) (unit_pos b step)

namespace Binary

theorem value_lt_high (b : Binary) : b.value < b.highQuarters * b.quarter := by
  unfold value highQuarters
  apply mul_lt_mul_of_pos_right _ b.quarter_pos
  exact_mod_cast Nat.lt_add_of_pos_right (by decide)

theorem low_lt_value (h : 0 < b.mantissa) : b.lowQuarters * b.quarter < b.value := by
  unfold value lowQuarters
  apply mul_lt_mul_of_pos_right _ b.quarter_pos
  have : (4 * b.mantissa - if b.closeBelow then 1 else 2) < 4 * b.mantissa := by
    split <;> omega
  exact_mod_cast this

theorem le_low_of_not_covers {q : ℚ} (hq : q ≤ b.value)
    (hn : ¬ b.Covers q) : q ≤ b.lowQuarters * b.quarter := by
  by_contra hlow
  rw [not_le] at hlow
  apply hn
  unfold Covers
  split
  · exact ⟨hlow.le, hq.trans b.value_lt_high.le⟩
  · exact ⟨hlow, hq.trans_lt b.value_lt_high⟩

theorem high_le_of_not_covers (h : 0 < b.mantissa) {q : ℚ} (hq : b.value < q)
    (hn : ¬ b.Covers q) : b.highQuarters * b.quarter ≤ q := by
  by_contra hhigh
  rw [not_le] at hhigh
  have hlow := (low_lt_value h).trans hq
  apply hn
  unfold Covers
  split
  · exact ⟨hlow.le, hhigh.le⟩
  · exact ⟨hlow, hhigh⟩

end Binary

/-- A grid that is finer than the interval of a double has a point in it next to the double. -/
theorem exists_pick (h : 0 < b.mantissa) {step : ℤ} (tie : Tie)
    (hfine : (b.lowQuarters : ℚ) * b.quarter + 10 ^ step < b.highQuarters * b.quarter) :
    ∃ n, (Grid.of b step).pick? tie = some n := by
  cases hpick : (Grid.of b step).pick? tie with
  | some n => exact ⟨n, rfl⟩
  | none =>
    obtain ⟨hbelow, habove⟩ := not_holds_of_pick hpick
    rw [← Bool.not_eq_true, holds_iff] at hbelow habove
    -- if neither neighbour belongs to the double, the whole interval lies between them
    have hlow := Binary.le_low_of_not_covers (below_le_value b step) hbelow
    have hhigh := Binary.high_le_of_not_covers h (value_lt_above b step) habove
    push_cast at hlow hhigh
    linarith

/-! ## The decimal exponent -/

theorem value_mul_unit (b : Binary) :
    b.value * (Grid.of b 0).unit = (Grid.of b 0).middle := by
  have h := unit_mul_quarter b 0
  rw [zpow_zero, mul_one] at h
  rw [middle_eq, Binary.value, mul_assoc, mul_comm b.quarter, h]
  push_cast
  ring

/-- The decimal exponent is that of the last power of ten at or below the value. -/
theorem decimalExponent_spec (h : 0 < b.mantissa) :
    (10 : ℚ) ^ decimalExponent b ≤ b.value ∧ b.value < 10 ^ (decimalExponent b + 1) := by
  have hunit : (0 : ℚ) < (Grid.of b 0).unit := by exact_mod_cast unit_pos b 0
  have hmiddle : 0 < (Grid.of b 0).middle := by
    rw [middle_eq]
    exact Nat.mul_pos (by omega) (gridScale_pos b 0)
  have hvalue : b.value = (Grid.of b 0).middle / (Grid.of b 0).unit := by
    rw [eq_div_iff hunit.ne', value_mul_unit]
  rw [hvalue, le_div_iff₀ hunit, div_lt_iff₀ hunit]
  unfold decimalExponent
  dsimp only
  generalize hg : ((digitsOf (Grid.of b 0).middle).length : ℤ)
    - (digitsOf (Grid.of b 0).unit).length = guess
  have hiff : (Grid.of b 0).unit * 10 ^ guess.toNat ≤ (Grid.of b 0).middle * 10 ^ (-guess).toNat
      ↔ (10 : ℚ) ^ guess * (Grid.of b 0).unit ≤ (Grid.of b 0).middle := by
    rw [← Nat.cast_le (α := ℚ)]
    push_cast
    rw [pow_toNat (by norm_num) guess, ← mul_assoc, mul_le_mul_iff_left₀ (by positivity),
      mul_comm]
  have hposMiddle : 0 < (digitsOf (Grid.of b 0).middle).length :=
    List.length_pos_iff.mpr (digitsOf_ne_nil _)
  have hposUnit : 0 < (digitsOf (Grid.of b 0).unit).length :=
    List.length_pos_iff.mpr (digitsOf_ne_nil _)
  -- the guess was made from the numbers of digits, so it is right or too large by one
  split
  · rename_i hle
    refine ⟨hiff.mp hle, ?_⟩
    have hlt := lt_pow_length (Grid.of b 0).middle
    have hdigits := pow_length_pred_le (unit_pos b 0)
    calc ((Grid.of b 0).middle : ℚ) < 10 ^ (digitsOf (Grid.of b 0).middle).length := by
          exact_mod_cast hlt
      _ = 10 ^ (guess + 1) * 10 ^ ((digitsOf (Grid.of b 0).unit).length - 1 : ℕ) := by
          rw [← zpow_natCast, ← zpow_natCast, ← zpow_add₀ (by norm_num)]
          congr 1
          omega
      _ ≤ 10 ^ (guess + 1) * (Grid.of b 0).unit := by
          apply mul_le_mul_of_nonneg_left _ (by positivity)
          exact_mod_cast hdigits
  · rename_i hnot
    rw [sub_add_cancel]
    refine ⟨?_, not_le.mp (mt hiff.mpr hnot)⟩
    have hdigits := pow_length_pred_le hmiddle
    have hlt := lt_pow_length (Grid.of b 0).unit
    calc (10 : ℚ) ^ (guess - 1) * (Grid.of b 0).unit
        ≤ 10 ^ (guess - 1) * 10 ^ ((digitsOf (Grid.of b 0).unit).length : ℤ) := by
          apply mul_le_mul_of_nonneg_left _ (by positivity)
          rw [zpow_natCast]
          exact_mod_cast hlt.le
      _ = 10 ^ ((digitsOf (Grid.of b 0).middle).length - 1 : ℕ) := by
          rw [← zpow_add₀ (by norm_num), ← zpow_natCast]
          congr 1
          omega
      _ ≤ (Grid.of b 0).middle := by exact_mod_cast hdigits

/-- Seventeen digits are finer than the interval of a double. -/
theorem seventeen_fine (hb : b.IsDouble) (h : 0 < b.mantissa) :
    (b.lowQuarters : ℚ) * b.quarter + 10 ^ (decimalExponent b - 17 + 1)
      < b.highQuarters * b.quarter := by
  have hexponent := (decimalExponent_spec h).1
  have hstep : (10 : ℚ) ^ (decimalExponent b - 17 + 1) * 10 ^ 16 = 10 ^ decimalExponent b := by
    rw [show (10 : ℚ) ^ 16 = 10 ^ (16 : ℤ) by norm_num, ← zpow_add₀ (by norm_num)]
    congr 1
    omega
  have hwidth : b.lowQuarters * 10 ^ 16 + 4 * b.mantissa < b.highQuarters * 10 ^ 16 := by
    have hm := hb.mantissa_lt
    have hclose := hb.closeBelow_iff
    unfold Binary.lowQuarters Binary.highQuarters
    split
    · have := (hclose.mp (by assumption)).1
      omega
    · omega
  have hwidth' : (b.lowQuarters : ℚ) * 10 ^ 16 + 4 * b.mantissa < b.highQuarters * 10 ^ 16 := by
    exact_mod_cast hwidth
  have hscaled := mul_lt_mul_of_pos_right hwidth' b.quarter_pos
  unfold Binary.value at hexponent
  push_cast at hexponent
  linarith

/-! ## Digits -/

/-- The number that digits behind a point stand for. -/
def Digits.value (d : Digits) : ℚ := digitsValue d.digits * 10 ^ (d.point - d.digits.length)

/-- What holds of the digits of every positive decimal. -/
structure Digits.WellFormed (d : Digits) : Prop where
  ne_nil : d.digits ≠ []
  isDigit : ∀ c ∈ d.digits, c.isDigit
  head : d.digits.head? ≠ some '0'

theorem reverse_dropWhile_reverse (cs : List Char) :
    ∃ k, cs = (cs.reverse.dropWhile (· = '0')).reverse ++ List.replicate k '0' := by
  refine ⟨(cs.reverse.takeWhile (· = '0')).length, ?_⟩
  have hzeros : cs.reverse.takeWhile (· = '0')
      = List.replicate (cs.reverse.takeWhile (· = '0')).length '0' := by
    apply List.eq_replicate_of_mem
    intro c hc
    simpa using List.all_eq_true.mp List.all_takeWhile c hc
  rw [← List.reverse_replicate, ← hzeros, ← List.reverse_append, List.takeWhile_append_dropWhile,
    List.reverse_reverse]

/-- Taking zeros off the end keeps the number. -/
theorem ofSteps_spec {n : Nat} (h : 0 < n) (step : ℤ) :
    (Digits.ofSteps n step).WellFormed ∧ (Digits.ofSteps n step).value = n * 10 ^ step := by
  obtain ⟨k, hk⟩ := reverse_dropWhile_reverse (digitsOf n)
  have hpoint : (Digits.ofSteps n step).point = (digitsOf n).length + step := rfl
  change digitsOf n = (Digits.ofSteps n step).digits ++ List.replicate k '0' at hk
  generalize Digits.ofSteps n step = d at hk hpoint
  have hvalue : n = digitsValue d.digits * 10 ^ k := by
    have := digitsValue_append d.digits (List.replicate k '0')
    rwa [← hk, digitsValue_digitsOf, digitsValue_zeros, List.length_replicate, Nat.add_zero]
      at this
  have hne : d.digits ≠ [] := by
    intro hnil
    rw [hnil] at hvalue
    have hzero : digitsValue [] = 0 := rfl
    rw [hzero, Nat.zero_mul] at hvalue
    omega
  refine ⟨⟨hne, ?_, ?_⟩, ?_⟩
  · intro c hc
    exact isDigit_of_mem_digitsOf (n := n) (by simp [hk, hc])
  · have hhead := head_digitsOf h
    rwa [hk, List.head?_append_of_ne_nil _ hne] at hhead
  · rw [Digits.value, hpoint, hk, List.length_append, List.length_replicate]
    have hn : (n : ℚ) = digitsValue d.digits * 10 ^ k := by exact_mod_cast hvalue
    rw [hn, mul_assoc, ← zpow_natCast, ← zpow_add₀ (by norm_num)]
    congr 2
    push_cast
    ring

/-- The shortest decimal of a double is a point that was picked on a grid of at most seventeen
digits. -/
theorem exists_pick_shortest (hb : b.IsDouble) (h : 0 < b.mantissa) (tie : Tie) :
    ∃ (n count : Nat) (step : ℤ), count ≤ 17 ∧ step = decimalExponent b - count + 1
      ∧ (Grid.of b step).pick? tie = some n ∧ shortest b tie = Digits.ofSteps n step := by
  unfold shortest
  dsimp only
  generalize hfind : List.findSome? _ _ = found
  cases found with
  | some d =>
    obtain ⟨count, hcount, hd⟩ := List.exists_of_findSome?_eq_some hfind
    obtain ⟨n, hn, rfl⟩ := Option.map_eq_some_iff.mp hd
    have hle := (List.mem_range'_1.mp hcount).2
    exact ⟨n, count, _, by omega, rfl, hn, rfl⟩
  | none =>
    -- the search cannot end without a decimal, since 17 digits are tried
    have hnone := List.findSome?_eq_none_iff.mp hfind 17 (by decide)
    obtain ⟨n, hn⟩ := exists_pick h tie (seventeen_fine hb h)
    rw [Option.map_eq_none_iff] at hnone
    exact absurd (hn.symm.trans hnone) (by simp)

/-- The shortest decimal of a double is made of digits, and its value belongs to the double. -/
theorem shortest_spec (hb : b.IsDouble) (h : 0 < b.mantissa) (tie : Tie) :
    (shortest b tie).WellFormed ∧ b.Covers (shortest b tie).value := by
  obtain ⟨n, -, step, -, -, hpick, heq⟩ := exists_pick_shortest hb h tie
  have hcovers := (holds_iff b step n).mp (holds_of_pick hpick)
  have hn : 0 < n := by
    have hlow : 0 < b.lowQuarters := by
      unfold Binary.lowQuarters
      split <;> omega
    have hpos : (0 : ℚ) < b.lowQuarters * b.quarter :=
      mul_pos (by exact_mod_cast hlow) b.quarter_pos
    rcases Nat.eq_zero_or_pos n with rfl | hn
    · have := hcovers.low_le
      rw [Nat.cast_zero, zero_mul] at this
      linarith
    · exact hn
  obtain ⟨hwf, hvalue⟩ := ofSteps_spec hn step
  rw [heq, hvalue]
  exact ⟨hwf, hcovers⟩

/-! ## How many digits -/

/-- What is picked is the point before the double or the next one. -/
theorem pick_le {g : Grid} {tie : Tie} {n : Nat} (h : g.pick? tie = some n) :
    n ≤ g.middle / g.unit + 1 := by
  unfold Grid.pick? at h
  dsimp only at h
  split at h
  · cases h
  · cases h
    omega
  · cases h
    exact le_rfl
  · split at h
    · cases h
      omega
    · split at h
      · cases h
        exact le_rfl
      · cases tie <;> cases h <;> omega

/-- Seventeen digits are left of a number of at most so many, and one of the power of ten behind
them. -/
theorem length_ofSteps_le {n : Nat} (h : n ≤ 10 ^ 17) (step : ℤ) :
    (Digits.ofSteps n step).digits.length ≤ 17 := by
  rcases h.eq_or_lt with rfl | hlt
  · have hone : (Digits.ofSteps (10 ^ 17) 0).digits = ['1'] := by decide +kernel
    change (Digits.ofSteps (10 ^ 17) 0).digits.length ≤ 17
    rw [hone]
    decide
  · have hdigits : (digitsOf n).length ≤ 17 :=
      (Nat.length_toDigits_le_iff (by decide) (by decide)).mpr hlt
    have hdrop := (List.dropWhile_suffix (· = '0') (l := (digitsOf n).reverse)).length_le
    rw [List.length_reverse] at hdrop
    unfold Digits.ofSteps
    rw [List.length_reverse]
    exact hdrop.trans hdigits

/-- Seventeen digits suffice for every double. -/
theorem length_shortest_le (hb : b.IsDouble) (h : 0 < b.mantissa) (tie : Tie) :
    (shortest b tie).digits.length ≤ 17 := by
  obtain ⟨n, count, step, hcount, hstep, hpick, heq⟩ := exists_pick_shortest hb h tie
  have hlt : b.value < 10 ^ count * 10 ^ step := by
    have := (decimalExponent_spec h).2
    rwa [← zpow_natCast, ← zpow_add₀ (by norm_num),
      show count + step = decimalExponent b + 1 by omega]
  have hbelow : (Grid.of b step).middle / (Grid.of b step).unit < 10 ^ count := by
    have hle := (below_le_value b step).trans_lt hlt
    rw [mul_lt_mul_iff_left₀ (by positivity)] at hle
    exact_mod_cast hle
  have hn : n ≤ 10 ^ 17 := by
    refine (pick_le hpick).trans (Nat.succ_le_of_lt hbelow |>.trans ?_)
    exact Nat.pow_le_pow_right (by decide) hcount
  rw [heq]
  exact length_ofSteps_le hn step

end DialogueBuild.Decimal

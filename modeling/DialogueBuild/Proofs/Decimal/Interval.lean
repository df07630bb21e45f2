import DialogueBuild.Decimal.Shortest
import DialogueBuild.Proofs.Decimal.Double
import Mathlib.Algebra.Order.Field.Power
import Mathlib.Algebra.Order.Field.Rat
import Mathlib.Tactic.FieldSimp
import Mathlib.Tactic.Linarith
import Mathlib.Tactic.Positivity
import Mathlib.Tactic.Ring
/-!
The numbers that a double stands for.

A double stands for the numbers between the middles of the gaps around it; the middles belong to
it iff its mantissa is even. Lengths are counted in quarters of the last binary digit.

Results:

1. `covers_unique`   no number belongs to two doubles;
2. `holds_iff`       a grid holds exactly the multiples of its step that belong to the double.
-/
namespace DialogueBuild.Decimal

namespace Binary

/-- A quarter of the last binary digit. -/
def quarter (b : Binary) : ℚ := 2 ^ (b.exponent - 2)

/-- The lower end, in quarters. -/
def lowQuarters (b : Binary) : Nat := 4 * b.mantissa - if b.closeBelow then 1 else 2

/-- The upper end, in quarters. -/
def highQuarters (b : Binary) : Nat := 4 * b.mantissa + 2

/-- Whether a number belongs to a double. -/
def Covers (b : Binary) (q : ℚ) : Prop :=
  if b.mantissa % 2 = 0 then b.lowQuarters * b.quarter ≤ q ∧ q ≤ b.highQuarters * b.quarter
  else b.lowQuarters * b.quarter < q ∧ q < b.highQuarters * b.quarter

theorem quarter_pos (b : Binary) : 0 < b.quarter := by
  unfold quarter
  positivity

theorem Covers.low_le {b : Binary} {q : ℚ} (h : b.Covers q) : b.lowQuarters * b.quarter ≤ q := by
  unfold Covers at h
  split at h
  · exact h.1
  · exact h.1.le

theorem Covers.le_high {b : Binary} {q : ℚ} (h : b.Covers q) : q ≤ b.highQuarters * b.quarter := by
  unfold Covers at h
  split at h
  · exact h.2
  · exact h.2.le

/-- Zero belongs to the double zero. -/
theorem covers_zero {b : Binary} (h : b.mantissa = 0) : b.Covers 0 := by
  have hlow : b.lowQuarters = 0 := by
    unfold lowQuarters
    omega
  have hquarter := b.quarter_pos
  unfold Covers
  rw [if_pos (by rw [h]), hlow]
  exact ⟨by simp, by positivity⟩

/-- The lower end belongs to doubles with an even mantissa only. -/
theorem Covers.even_of_low {b : Binary} {q : ℚ} (h : b.Covers q)
    (hq : q = b.lowQuarters * b.quarter) : b.mantissa % 2 = 0 := by
  unfold Covers at h
  split at h
  · assumption
  · exact absurd h.1 (by rw [hq]; exact lt_irrefl _)

/-- The upper end belongs to doubles with an even mantissa only. -/
theorem Covers.even_of_high {b : Binary} {q : ℚ} (h : b.Covers q)
    (hq : q = b.highQuarters * b.quarter) : b.mantissa % 2 = 0 := by
  unfold Covers at h
  split at h
  · assumption
  · exact absurd h.2 (by rw [hq]; exact lt_irrefl _)

/-! ## Different doubles -/

/-- The order of the absolute values of doubles. -/
def Below (a b : Binary) : Prop :=
  a.exponent < b.exponent ∨ a.exponent = b.exponent ∧ a.mantissa < b.mantissa

/-- A double with all its binary digits starts behind the smaller ones. -/
theorem IsDouble.lowQuarters_ge {b : Binary} (hb : b.IsDouble) (he : -1074 < b.exponent) :
    2 ^ 54 - 1 ≤ b.lowQuarters := by
  have hfull := hb.mantissa_ge he
  unfold lowQuarters
  split
  · omega
  · rename_i hfar
    have hne : b.mantissa ≠ 2 ^ 52 := fun hm => hfar (hb.closeBelow_iff.mpr ⟨hm, he⟩)
    omega

theorem IsDouble.le_cast_lowQuarters {b : Binary} (hb : b.IsDouble) (he : -1074 < b.exponent) :
    (2 : ℚ) ^ 54 - 1 ≤ b.lowQuarters := by
  have : ((2 ^ 54 - 1 : ℕ) : ℚ) ≤ b.lowQuarters := by exact_mod_cast hb.lowQuarters_ge he
  norm_num at this ⊢
  exact this

/-- Each double ends where the next one starts, or in front of it. Where the ends meet, one of the
two mantissas is odd. -/
theorem highQuarters_le {a b : Binary} (ha : a.IsDouble) (hb : b.IsDouble) {k : Nat}
    (he : b.exponent = a.exponent + k) (hk : k ≠ 0 ∨ a.mantissa < b.mantissa) :
    a.highQuarters ≤ b.lowQuarters * 2 ^ k ∧
      (a.highQuarters = b.lowQuarters * 2 ^ k → a.mantissa % 2 = 0 → b.mantissa % 2 ≠ 0) := by
  have hma := ha.mantissa_lt
  have hea := ha.exponent_ge
  have hclose := hb.closeBelow_iff
  unfold highQuarters lowQuarters
  rcases Nat.eq_zero_or_pos k with rfl | hpos
  · have hlt : a.mantissa < b.mantissa := hk.resolve_left (by simp)
    rw [Nat.pow_zero, Nat.mul_one]
    split <;> omega
  · obtain ⟨j, rfl⟩ : ∃ j, k = j + 1 := ⟨k - 1, by omega⟩
    -- a double with a larger power of two has all its binary digits
    have hlow := hb.lowQuarters_ge (by omega)
    unfold lowQuarters at hlow
    have hpow : 1 ≤ 2 ^ j := Nat.one_le_two_pow
    have hmul := Nat.mul_le_mul hlow hpow
    rw [Nat.pow_succ, ← Nat.mul_assoc]
    omega

theorem quarter_add {a b : Binary} {k : Nat} (he : b.exponent = a.exponent + k) :
    b.quarter = 2 ^ k * a.quarter := by
  unfold quarter
  rw [he, show a.exponent + k - 2 = k + (a.exponent - 2) by ring, zpow_add₀ (by norm_num),
    zpow_natCast]

/-- The ends of different doubles in the order of the doubles. -/
theorem ends_le {a b : Binary} (ha : a.IsDouble) (hb : b.IsDouble) (h : Below a b) :
    (a.highQuarters : ℚ) * a.quarter ≤ b.lowQuarters * b.quarter ∧
      ((a.highQuarters : ℚ) * a.quarter = b.lowQuarters * b.quarter →
        a.mantissa % 2 = 0 → b.mantissa % 2 ≠ 0) := by
  obtain ⟨k, he⟩ : ∃ k : Nat, b.exponent = a.exponent + k :=
    ⟨(b.exponent - a.exponent).toNat, by rcases h with h | h <;> omega⟩
  have hk : k ≠ 0 ∨ a.mantissa < b.mantissa := by
    rcases h with h | h
    · exact .inl (by omega)
    · exact .inr h.2
  obtain ⟨hle, hmeet⟩ := highQuarters_le ha hb he hk
  have hlow : (b.lowQuarters : ℚ) * b.quarter = (b.lowQuarters * 2 ^ k : ℕ) * a.quarter := by
    rw [quarter_add he]
    push_cast
    ring
  rw [hlow]
  refine ⟨mul_le_mul_of_nonneg_right (by exact_mod_cast hle) a.quarter_pos.le, fun hsame => ?_⟩
  have hsame' : (a.highQuarters : ℚ) = (b.lowQuarters * 2 ^ k : ℕ) :=
    mul_right_cancel₀ a.quarter_pos.ne' hsame
  exact hmeet (by exact_mod_cast hsame')

theorem not_covers_of_below {a b : Binary} (ha : a.IsDouble) (hb : b.IsDouble) (h : Below a b)
    {q : ℚ} (hqa : a.Covers q) : ¬ b.Covers q := by
  intro hqb
  obtain ⟨hends, hmeet⟩ := ends_le ha hb h
  -- a number of both is where the ends meet
  have hqlow : q = b.lowQuarters * b.quarter :=
    le_antisymm (hqa.le_high.trans hends) hqb.low_le
  have hqhigh : q = a.highQuarters * a.quarter :=
    le_antisymm hqa.le_high (hends.trans hqb.low_le)
  exact hmeet (hqhigh.symm.trans hqlow) (hqa.even_of_high hqhigh) (hqb.even_of_low hqlow)

/-- No number belongs to two doubles. -/
theorem covers_unique {a b : Binary} (ha : a.IsDouble) (hb : b.IsDouble) {q : ℚ}
    (hqa : a.Covers q) (hqb : b.Covers q) : a = b := by
  have hab : ¬ Below a b := fun h => not_covers_of_below ha hb h hqa hqb
  have hba : ¬ Below b a := fun h => not_covers_of_below hb ha h hqb hqa
  unfold Below at hab hba
  have he : a.exponent = b.exponent := by omega
  have hm : a.mantissa = b.mantissa := by omega
  have hc : a.closeBelow = b.closeBelow := by
    rw [Bool.eq_iff_iff, ha.closeBelow_iff, hb.closeBelow_iff, he, hm]
  cases a
  cases b
  simp_all

end Binary

/-! ## Grids -/

theorem pow_toNat {a : ℚ} (ha : a ≠ 0) (z : ℤ) : a ^ z.toNat = a ^ z * a ^ (-z).toNat := by
  rcases le_total 0 z with h | h
  · obtain ⟨n, rfl⟩ := Int.eq_ofNat_of_zero_le h
    simp
  · obtain ⟨n, hn⟩ := Int.eq_ofNat_of_zero_le (neg_nonneg.mpr h)
    obtain rfl : z = -n := by omega
    simp [ha]

/-- What the ends and the middle of a grid are multiplied by. -/
def gridScale (b : Binary) (step : ℤ) : Nat :=
  2 ^ (b.exponent - 2).toNat * 10 ^ (-step).toNat

theorem gridScale_pos (b : Binary) (step : ℤ) : 0 < gridScale b step := by
  unfold gridScale
  positivity

/-- A step of a grid is a power of ten, in quarters of the double. -/
theorem unit_mul_quarter (b : Binary) (step : ℤ) :
    ((Grid.of b step).unit : ℚ) * b.quarter = gridScale b step * 10 ^ step := by
  have h2 := pow_toNat (a := 2) (by norm_num) (b.exponent - 2)
  have h10 := pow_toNat (a := 10) (by norm_num) step
  simp only [Grid.of, gridScale, Binary.quarter, Nat.pow_eq]
  push_cast
  rw [h2, h10]
  ring

theorem mul_unit_mul_quarter (b : Binary) (step : ℤ) (n : Nat) :
    ((n * (Grid.of b step).unit : ℕ) : ℚ) * b.quarter = n * 10 ^ step * gridScale b step := by
  push_cast
  rw [mul_assoc, unit_mul_quarter]
  ring

theorem mul_gridScale_mul_quarter (b : Binary) (step : ℤ) (m : Nat) :
    ((m * gridScale b step : ℕ) : ℚ) * b.quarter = m * b.quarter * gridScale b step := by
  push_cast
  ring

theorem cast_gridScale_pos (b : Binary) (step : ℤ) : (0 : ℚ) < gridScale b step := by
  exact_mod_cast gridScale_pos b step

theorem mul_unit_le_iff (b : Binary) (step : ℤ) (n m : Nat) :
    n * (Grid.of b step).unit ≤ m * gridScale b step ↔ (n : ℚ) * 10 ^ step ≤ m * b.quarter := by
  rw [← Nat.cast_le (α := ℚ), ← mul_le_mul_iff_left₀ b.quarter_pos, mul_unit_mul_quarter,
    mul_gridScale_mul_quarter, mul_le_mul_iff_left₀ (cast_gridScale_pos b step)]

theorem le_mul_unit_iff (b : Binary) (step : ℤ) (n m : Nat) :
    m * gridScale b step ≤ n * (Grid.of b step).unit ↔ (m : ℚ) * b.quarter ≤ n * 10 ^ step := by
  rw [← Nat.cast_le (α := ℚ), ← mul_le_mul_iff_left₀ b.quarter_pos, mul_unit_mul_quarter,
    mul_gridScale_mul_quarter, mul_le_mul_iff_left₀ (cast_gridScale_pos b step)]

/-- A grid holds exactly the multiples of its step that belong to the double. -/
theorem holds_iff (b : Binary) (step : ℤ) (n : Nat) :
    (Grid.of b step).holds n ↔ b.Covers (n * 10 ^ step) := by
  have hlow : (Grid.of b step).low = b.lowQuarters * gridScale b step := rfl
  have hhigh : (Grid.of b step).high = b.highQuarters * gridScale b step := rfl
  have hclosed : (Grid.of b step).closed = decide (b.mantissa % 2 = 0) := rfl
  unfold Grid.holds Binary.Covers
  rw [hlow, hhigh, hclosed]
  by_cases heven : b.mantissa % 2 = 0
  · simp only [heven, decide_true, ↓reduceIte, Bool.and_eq_true, decide_eq_true_eq,
      le_mul_unit_iff, mul_unit_le_iff]
  · simp only [heven, decide_false, Bool.false_eq_true, ↓reduceIte, Bool.and_eq_true,
      decide_eq_true_eq, ← not_le, le_mul_unit_iff, mul_unit_le_iff]

end DialogueBuild.Decimal

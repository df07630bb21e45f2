import DialogueBuild.Proofs.Decimal.Closeness
/-!
The numbers that doubles can stand for.

Results:

1. `le_limit_of_covers`, `le_of_covers`   how large and how small they can be;
2. `power_bounds`                         how large and how small their powers of ten are;
3. `exists_largest`                       all but those of the largest three doubles stay apart from
                                          the ones that are too large.
-/
namespace DialogueBuild.Decimal

variable {a : Binary} {q : ℚ} {k : Nat}

/-! ## Powers of ten at the limit -/

theorem pow_lt_limit (h : k ≤ 308) : (10 : ℚ) ^ k < limit := by
  calc (10 : ℚ) ^ k ≤ 10 ^ 308 := pow_le_pow_right₀ (by norm_num) h
    _ = (10 ^ 11) ^ 28 := by rw [← pow_mul]
    _ < (2 ^ 54 - 1) * (2 ^ 194) ^ 5 := by norm_num
    _ = limit := by rw [limit, ← pow_mul]

theorem limit_lt_pow (h : 309 ≤ k) : limit < 10 ^ k := by
  calc limit = (2 ^ 54 - 1) * (2 ^ 194) ^ 5 := by rw [limit, ← pow_mul]
    _ < (10 ^ 103) ^ 3 := by norm_num
    _ = 10 ^ 309 := by rw [← pow_mul]
    _ ≤ 10 ^ k := pow_le_pow_right₀ (by norm_num) h

/-! ## The range -/

theorem unit_le (htop : a.exponent ≤ topExponent) : a.unit ≤ 2 ^ 970 * 2 := by
  calc a.unit ≤ 2 ^ (971 : ℤ) := zpow_le_zpow_right₀ (by norm_num) htop
    _ = 2 ^ 970 * 2 := by rw [← pow_succ, ← zpow_natCast]; rfl

/-- No number that belongs to a finite double is too large. -/
theorem le_limit_of_covers (ha : a.IsDouble) (htop : a.exponent ≤ topExponent) (hq : a.Covers q) :
    q ≤ limit := by
  have hsub := abs_le.mp hq.abs_sub_le
  have hvalue := value_le_mul_unit ha
  have hunit := unit_le htop
  unfold limit
  generalize (2 : ℚ) ^ 970 = top at *
  norm_num at *
  linarith

/-- A number that belongs to a double with a mantissa is not too small. -/
theorem le_of_covers (ha : a.IsDouble) (hpos : 0 < a.mantissa) (hq : a.Covers q) :
    (2 : ℚ) ^ (-1075 : ℤ) ≤ q := by
  have hlow : (2 : ℚ) ≤ a.lowQuarters := by
    have : 2 ≤ a.lowQuarters := by
      unfold Binary.lowQuarters
      split <;> omega
    exact_mod_cast this
  have hquarter : (2 : ℚ) ^ (-1076 : ℤ) ≤ a.quarter := by
    have hge := ha.exponent_ge
    exact zpow_le_zpow_right₀ (by norm_num) (by omega)
  calc (2 : ℚ) ^ (-1075 : ℤ) = 2 * 2 ^ (-1076 : ℤ) := by
        rw [show (-1075 : ℤ) = 1 + -1076 by decide, zpow_add₀ (by norm_num), zpow_one]
    _ ≤ a.lowQuarters * a.quarter := mul_le_mul hlow hquarter (by positivity) (by positivity)
    _ ≤ q := hq.low_le

/-- The powers of ten of short numerals of doubles. -/
theorem power_bounds {n : Nat} {e : ℤ} (hdigits : n ≤ 10 ^ 17)
    (hlow : (2 : ℚ) ^ (-1075 : ℤ) ≤ n * 10 ^ e) (hhigh : (n : ℚ) * 10 ^ e ≤ limit) :
    0 < n ∧ -616 ≤ e ∧ e ≤ 308 := by
  have hn : 0 < n := by
    rcases Nat.eq_zero_or_pos n with rfl | hn
    · rw [Nat.cast_zero, zero_mul] at hlow
      exact absurd hlow (not_le.mpr (by positivity))
    · exact hn
  refine ⟨hn, ?_, ?_⟩
  · by_contra hsmall
    have hle : (n : ℚ) ≤ 10 ^ (17 : ℤ) := by exact_mod_cast hdigits
    have htiny : (n : ℚ) * 10 ^ e < 2 ^ (-1075 : ℤ) := by
      calc (n : ℚ) * 10 ^ e ≤ 10 ^ (17 : ℤ) * 10 ^ e :=
            mul_le_mul_of_nonneg_right hle (by positivity)
        _ = 10 ^ (17 + e) := by rw [← zpow_add₀ (by norm_num)]
        _ ≤ 10 ^ (-599 : ℤ) := zpow_le_zpow_right₀ (by norm_num) (by omega)
        _ = 10⁻¹ ^ (599 : ℤ) := (inv_zpow' _ _).symm
        _ ≤ (2 ^ (-3 : ℤ)) ^ (599 : ℤ) :=
          zpow_le_zpow_left₀ (by norm_num) (by norm_num) (by norm_num)
        _ = 2 ^ (-1797 : ℤ) := (zpow_mul _ _ _).symm
        _ < 2 ^ (-1075 : ℤ) := zpow_lt_zpow_right₀ (by norm_num) (by decide)
    exact absurd hlow (not_le.mpr htiny)
  · by_contra hlarge
    obtain ⟨k, rfl⟩ := Int.eq_ofNat_of_zero_le (show 0 ≤ e by omega)
    have hone : (10 : ℚ) ^ k ≤ n * 10 ^ (k : ℤ) := by
      rw [zpow_natCast]
      exact le_mul_of_one_le_left (by positivity) (by exact_mod_cast hn)
    exact absurd (hone.trans hhigh) (not_le.mpr (limit_lt_pow (by omega)))

/-! ## The largest doubles -/

/-- The mantissas of the three largest doubles, and the digits of their texts. -/
def largest : List (Nat × Nat) :=
  [(2 ^ 53 - 1, 17976931348623157), (2 ^ 53 - 2, 17976931348623155),
    (2 ^ 53 - 3, 17976931348623153)]

/-- Up to the third largest double, what is rounded last is not too large either. -/
theorem lt_limit_of_covers (htop : a.exponent ≤ topExponent) (hq : a.Covers q)
    (hvalue : a.value ≤ (2 ^ 53 - 4) * 2 ^ 971) : q * (1 + unitError) ^ 2 < limit := by
  have hsub := abs_le.mp hq.abs_sub_le
  have hunit := unit_le htop
  have hfactor : (2 ^ 54 - 7) * (1 + unitError) ^ 2 < 2 ^ 54 - 1 := by norm_num [unitError]
  rw [pow_succ (2 : ℚ) 970] at hvalue
  have hpos : (0 : ℚ) < 2 ^ 970 := by positivity
  unfold limit
  generalize (2 : ℚ) ^ 970 = top at *
  calc q * (1 + unitError) ^ 2 ≤ (2 ^ 54 - 7) * top * (1 + unitError) ^ 2 := by
        refine mul_le_mul_of_nonneg_right ?_ (by positivity)
        norm_num at *
        linarith
    _ = (2 ^ 54 - 7) * (1 + unitError) ^ 2 * top := by ring
    _ < (2 ^ 54 - 1) * top := mul_lt_mul_of_pos_right hfactor hpos

theorem exists_largest (ha : a.IsDouble) (htop : a.exponent ≤ topExponent)
    (hvalue : (2 ^ 53 - 4) * 2 ^ 971 < a.value) : ∃ p ∈ largest, a = .of p.1 topExponent := by
  have hexponent : a.exponent = topExponent := by
    by_contra hne
    have hsmall : a.exponent ≤ 970 := by
      unfold topExponent at *
      omega
    have hunit : a.unit ≤ 2 ^ (970 : ℤ) := zpow_le_zpow_right₀ (by norm_num) hsmall
    have hbound := value_le_mul_unit ha
    have hpos : (0 : ℚ) < 2 ^ 970 := by positivity
    rw [pow_succ (2 : ℚ) 970] at hvalue
    rw [zpow_ofNat] at hunit
    generalize (2 : ℚ) ^ 970 = top at *
    norm_num at hbound hvalue
    linarith
  have hmantissa : 2 ^ 53 - 4 < a.mantissa := by
    rw [a.value_eq, hexponent, topExponent, zpow_ofNat,
      mul_lt_mul_iff_left₀ (by positivity)] at hvalue
    have : ((2 ^ 53 - 4 : ℕ) : ℚ) < a.mantissa := by
      push_cast
      linarith
    exact_mod_cast this
  have hlt := ha.mantissa_lt
  have hof := ha.eq_of
  rw [hexponent] at hof
  rw [hof]
  have hcases : a.mantissa = 2 ^ 53 - 1 ∨ a.mantissa = 2 ^ 53 - 2 ∨ a.mantissa = 2 ^ 53 - 3 := by
    omega
  rcases hcases with h | h | h
  · exact ⟨_, List.mem_cons_self, by rw [h]⟩
  · exact ⟨_, List.mem_cons_of_mem _ List.mem_cons_self, by rw [h]⟩
  · exact ⟨_, List.mem_cons_of_mem _ (List.mem_cons_of_mem _ List.mem_cons_self), by rw [h]⟩

end DialogueBuild.Decimal

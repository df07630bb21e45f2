import DialogueBuild.Decimal.Shortest
import DialogueBuild.Proofs.Json.Numeral
import Mathlib.Algebra.Group.Nat.Defs
/-!
Decimal digits and the whole numbers that they spell.

Results:

1. `digitsValue_digitsOf`                     the digits of a number spell it;
2. `lt_pow_length`, `pow_length_pred_le`      how many digits a number has;
3. `isWhole_digitsOf`                         the digits of a number can stand in front of a point.
-/
namespace DialogueBuild.Decimal

open Json (digitValue digitsValue IsWhole)

theorem digitsValue_eq (ds : List Char) : digitsValue ds = Nat.ofDigitChars 10 ds 0 := by
  rw [Nat.ofDigitChars_eq_foldl]
  rfl

theorem digitsValue_append (as bs : List Char) :
    digitsValue (as ++ bs) = digitsValue as * 10 ^ bs.length + digitsValue bs := by
  rw [digitsValue_eq, digitsValue_eq, digitsValue_eq, Nat.ofDigitChars_append,
    Nat.ofDigitChars_eq_ofDigitChars_zero, Nat.mul_comm]

theorem digitsValue_zeros (n : Nat) : digitsValue (List.replicate n '0') = 0 := by
  rw [digitsValue_eq, Nat.ofDigitChars_replicate_zero, Nat.mul_zero]

theorem digitValue_lt {c : Char} (h : c.isDigit) : digitValue c < 10 := by
  simp only [Char.isDigit, Bool.and_eq_true, decide_eq_true_eq] at h
  have hc : c.toNat ≤ 57 := h.2
  have h0 : '0'.toNat = 48 := rfl
  unfold digitValue
  omega

theorem digitsValue_lt {ds : List Char} (h : ∀ c ∈ ds, c.isDigit) :
    digitsValue ds < 10 ^ ds.length := by
  induction ds with
  | nil => decide
  | cons c cs ih =>
    have hc := digitValue_lt (h c (by simp))
    have hcs := ih fun d hd => h d (by simp [hd])
    have happ := digitsValue_append [c] cs
    have hone : digitsValue [c] = digitValue c := by simp [digitsValue]
    rw [List.singleton_append, hone] at happ
    have hmul : (digitValue c + 1) * 10 ^ cs.length ≤ 10 * 10 ^ cs.length :=
      Nat.mul_le_mul_right _ hc
    rw [Nat.succ_mul] at hmul
    rw [happ, List.length_cons, Nat.pow_succ, Nat.mul_comm (10 ^ cs.length)]
    omega

/-! ## The digits of a number -/

theorem isDigit_of_mem_digitsOf {n : Nat} {c : Char} (h : c ∈ digitsOf n) : c.isDigit :=
  Nat.isDigit_of_mem_toDigits (by decide) (by decide) h

theorem digitsOf_ne_nil (n : Nat) : digitsOf n ≠ [] := Nat.toDigits_ne_nil

theorem digitsValue_digitsOf (n : Nat) : digitsValue (digitsOf n) = n := by
  rw [digitsValue_eq]
  exact Nat.ofDigitChars_ten_toDigits

theorem lt_pow_length (n : Nat) : n < 10 ^ (digitsOf n).length := by
  have h := digitsValue_lt fun c (hc : c ∈ digitsOf n) => isDigit_of_mem_digitsOf hc
  rwa [digitsValue_digitsOf] at h

theorem pow_length_pred_le {n : Nat} (h : 0 < n) : 10 ^ ((digitsOf n).length - 1) ≤ n := by
  by_cases hlen : (digitsOf n).length ≤ 1
  · rw [Nat.sub_eq_zero_of_le hlen]
    exact h
  · have hiff := Nat.length_toDigits_le_iff (b := 10) (n := n) (k := (digitsOf n).length - 1)
      (by decide) (by omega)
    have hnot : ¬ n < 10 ^ ((digitsOf n).length - 1) := by
      rw [← hiff]
      unfold digitsOf at hlen ⊢
      omega
    omega

/-- The digits of a positive number do not start with a zero. -/
theorem head_digitsOf {n : Nat} (h : 0 < n) : (digitsOf n).head? ≠ some '0' := by
  intro hzero
  obtain ⟨ds, hds⟩ := List.head?_eq_some_iff.mp hzero
  have hdigits : ∀ c ∈ ds, c.isDigit := by
    intro c hc
    exact isDigit_of_mem_digitsOf (n := n) (by simp [hds, hc])
  have hlt := digitsValue_lt hdigits
  have hlow := pow_length_pred_le h
  have hval := digitsValue_append ['0'] ds
  rw [List.singleton_append, ← hds, digitsValue_digitsOf] at hval
  rw [hds, List.length_cons, Nat.add_sub_cancel] at hlow
  have hone : digitsValue ['0'] = 0 := rfl
  rw [hone, Nat.zero_mul, Nat.zero_add] at hval
  omega

theorem isWhole_of_head {ds : List Char} (hne : ds ≠ []) (h : ds.head? ≠ some '0') :
    IsWhole ds := by
  cases ds with
  | nil => exact absurd rfl hne
  | cons d ds => exact .inr fun hd => h (by rw [hd]; rfl)

/-- The digits of a number can stand in front of a point. -/
theorem isWhole_digitsOf (n : Nat) : IsWhole (digitsOf n) := by
  rcases Nat.eq_zero_or_pos n with rfl | h
  · exact .inl rfl
  · exact isWhole_of_head (digitsOf_ne_nil n) (head_digitsOf h)

end DialogueBuild.Decimal

import DialogueBuild.Json.Printer
import DialogueBuild.Proofs.Decimal.Shortest
import DialogueBuild.Proofs.Json.Numeral
/-!
The texts of numbers in documents.

The text of a number is the plain text of a numeral, and the exact number that the numeral spells
belongs to the double that it was printed from.

Results:

1. `text_eq_numeral`   the text of every finite number is a number token;
2. `covers_numeral`    the token of a double spells a number that belongs to the double;
3. `float_text_inj`    so that no two finite doubles share a text;
4. `numeral_inj`       and no two finite numbers a numeral.
-/
namespace DialogueBuild.Json

open Decimal

/-! ## The numeral of a number -/

/-- Digits around a decimal point. -/
def plainNumeral (negative : Bool) (d : Digits) : Numeral :=
  if d.point ≤ 0 then ⟨negative, ['0'], zeros (-d.point) ++ d.digits, none⟩
  else if d.point < d.digits.length then
    ⟨negative, d.digits.take d.point.toNat, d.digits.drop d.point.toNat, none⟩
  else ⟨negative, d.digits ++ zeros (d.point - d.digits.length), ['0'], none⟩

/-- One digit, the others as a fraction, and a signed power of ten. -/
def scientificNumeral (negative : Bool) (d : Digits) : Numeral :=
  ⟨negative, d.digits.take 1, d.digits.drop 1,
    some ⟨d.point - 1 < 0, digitsOf (d.point - 1).natAbs⟩⟩

def floatNumeral (x : Float) : Numeral :=
  if x == 0 then ⟨isNegative x, ['0'], ['0'], none⟩
  else
    let d := shortest (Binary.ofFloat x) .toEven
    if -5 ≤ d.point - 1 && d.point - 1 < 16 then plainNumeral (isNegative x) d
    else scientificNumeral (isNegative x) d

/-- The numeral that a number is written as. -/
def Number.numeral : Number → Numeral
  | .int n => ⟨n < 0, digitsOf n.natAbs, [], none⟩
  | .float x => floatNumeral x

/-- Infinities and NaN are no numbers of a document. -/
def Number.IsFinite : Number → Prop
  | .int _ => True
  | .float x => x.isFinite

/-- The number that a numeral spells, without its sign. -/
def Numeral.exact (t : Numeral) : ℚ :=
  digitsValue (t.whole ++ t.fraction)
    * 10 ^ ((match t.exponent with
      | some e => e.value
      | none => 0) - (t.fraction.length : ℤ))

/-! ## Layouts of digits -/

theorem isDigit_of_mem_zeros {n : ℤ} {c : Char} (h : c ∈ zeros n) : c.isDigit := by
  rw [List.eq_of_mem_replicate h]
  decide

theorem length_zeros {n : ℤ} (h : 0 ≤ n) : ((zeros n).length : ℤ) = n := by
  unfold zeros
  rw [List.length_replicate]
  omega

namespace NumberTextLemmas

variable {d : Digits} (negative : Bool)

theorem wellFormed_plain (h : d.WellFormed) : (plainNumeral negative d).WellFormed := by
  unfold plainNumeral
  split
  · refine ⟨.inl rfl, by simp, ?_, by simp⟩
    intro c hc
    rcases List.mem_append.mp hc with hc | hc
    · exact isDigit_of_mem_zeros hc
    · exact h.isDigit c hc
  · split
    · have hpoint : d.point.toNat ≠ 0 := by omega
      refine ⟨?_, ?_, ?_, by simp⟩
      · apply isWhole_of_head
        · rw [Ne, List.take_eq_nil_iff]
          exact not_or.mpr ⟨hpoint, h.ne_nil⟩
        · rw [List.head?_take, if_neg hpoint]
          exact h.head
      · exact fun c hc => h.isDigit c (List.mem_of_mem_take hc)
      · exact fun c hc => h.isDigit c (List.mem_of_mem_drop hc)
    · refine ⟨?_, ?_, by simp, by simp⟩
      · apply isWhole_of_head
        · simp [h.ne_nil]
        · rw [List.head?_append_of_ne_nil _ h.ne_nil]
          exact h.head
      · intro c hc
        rcases List.mem_append.mp hc with hc | hc
        · exact h.isDigit c hc
        · exact isDigit_of_mem_zeros hc

theorem wellFormed_scientific (h : d.WellFormed) : (scientificNumeral negative d).WellFormed := by
  refine ⟨?_, ?_, ?_, ?_⟩
  · apply isWhole_of_head
    · simp [scientificNumeral, h.ne_nil]
    · simp only [scientificNumeral, List.head?_take]
      exact h.head
  · exact fun c hc => h.isDigit c (List.mem_of_mem_take hc)
  · exact fun c hc => h.isDigit c (List.mem_of_mem_drop hc)
  · rintro e ⟨⟩
    exact ⟨digitsOf_ne_nil _, fun c hc => isDigit_of_mem_digitsOf hc⟩

theorem plain_text (h : d.WellFormed) :
    (plainNumeral negative d).text = (if negative then ['-'] else []) ++ d.plain true := by
  unfold plainNumeral Digits.plain
  dsimp only
  split
  · simp [Numeral.text, Numeral.tail, Numeral.signText, Numeral.fractionText, exponentText,
      h.ne_nil]
  · split
    · have hrest : d.digits.drop d.point.toNat ≠ [] := by
        rw [Ne, List.drop_eq_nil_iff]
        omega
      simp only [Numeral.text, Numeral.tail, Numeral.signText, Numeral.fractionText, exponentText,
        if_neg hrest, List.append_nil, List.append_assoc]
    · simp [Numeral.text, Numeral.tail, Numeral.signText, Numeral.fractionText, exponentText]

theorem scientific_text :
    (scientificNumeral negative d).text
      = (if negative then ['-'] else []) ++ d.scientific := by
  unfold scientificNumeral Digits.scientific Numeral.text Numeral.tail Numeral.signText
    Numeral.fractionText exponentText
  dsimp only
  cases hrest : d.digits.drop 1 with
  | nil => simp
  | cons c cs => simp

theorem exact_plain : (plainNumeral negative d).exact = d.value := by
  unfold plainNumeral Digits.value
  split
  · rename_i hpoint
    have hlen := length_zeros (n := -d.point) (by omega)
    have hzero : digitsValue ['0'] = 0 := rfl
    simp only [Numeral.exact, digitsValue_append, hzero, zeros, digitsValue_zeros, Nat.zero_mul,
      Nat.zero_add, List.length_append]
    unfold zeros at hlen
    congr 2
    push_cast
    omega
  · split
    · simp only [Numeral.exact, List.take_append_drop, List.length_drop]
      congr 2
      omega
    · have hlen := length_zeros (n := d.point - d.digits.length) (by omega)
      have hzero : digitsValue ['0'] = 0 := rfl
      simp only [Numeral.exact, digitsValue_append, hzero, zeros, digitsValue_zeros, Nat.add_zero,
        List.length_singleton]
      unfold zeros at hlen
      push_cast
      rw [mul_assoc, mul_assoc, ← zpow_natCast, hlen, zpow_neg_one, mul_inv_cancel₀ (by norm_num),
        mul_one]

theorem exact_scientific (h : d.WellFormed) : (scientificNumeral negative d).exact = d.value := by
  have hpos : 0 < d.digits.length := List.length_pos_iff.mpr h.ne_nil
  simp only [scientificNumeral, Numeral.exact, Digits.value, List.take_append_drop,
    Exponent.value, digitsValue_digitsOf, List.length_drop]
  congr 2
  split
  · rename_i hneg
    rw [decide_eq_true_eq] at hneg
    omega
  · rename_i hneg
    rw [decide_eq_true_eq] at hneg
    omega

end NumberTextLemmas

open NumberTextLemmas

/-! ## Texts of numbers -/

theorem text_floatNumeral {x : Float} (h : x.isFinite) :
    (floatNumeral x).text = documentLayout.write x := by
  have hnan := isNaN_of_isFinite h
  have hinf := isInf_of_isFinite h
  simp only [Layout.write, hnan, hinf, Bool.false_eq_true, ↓reduceIte, documentLayout]
  unfold floatNumeral
  cases hzero : x == 0 with
  | true => simp [Numeral.text, Numeral.tail, Numeral.signText, Numeral.fractionText, exponentText]
  | false =>
    have hwf := (shortest_spec (isDouble_ofFloat x) (mantissa_pos hzero) .toEven).1
    simp only [Bool.false_eq_true, ↓reduceIte, Layout.unsigned]
    split
    · exact plain_text _ hwf
    · exact scientific_text _

theorem wellFormed_floatNumeral (x : Float) : (floatNumeral x).WellFormed := by
  unfold floatNumeral
  cases hzero : x == 0 with
  | true => exact ⟨.inl rfl, by simp, by simp, by simp⟩
  | false =>
    have hwf := (shortest_spec (isDouble_ofFloat x) (mantissa_pos hzero) .toEven).1
    simp only [Bool.false_eq_true, ↓reduceIte]
    split
    · exact wellFormed_plain _ hwf
    · exact wellFormed_scientific _ hwf

theorem Number.wellFormed_numeral (n : Number) : n.numeral.WellFormed := by
  cases n with
  | int n =>
    exact ⟨isWhole_digitsOf _, fun c hc => isDigit_of_mem_digitsOf hc, by simp [numeral],
      by simp [numeral]⟩
  | float x => exact wellFormed_floatNumeral x

/-- The text of a finite number is a number token. -/
theorem Number.text_eq_numeral {n : Number} (h : n.IsFinite) : n.text = n.numeral.text := by
  cases n with
  | int n =>
    by_cases hn : n < 0
    · simp [text, intText, numeral, Numeral.text, Numeral.tail, Numeral.signText,
        Numeral.fractionText, exponentText, hn]
    · simp [text, intText, numeral, Numeral.text, Numeral.tail, Numeral.signText,
        Numeral.fractionText, exponentText, hn]
  | float x => exact (text_floatNumeral h).symm

/-- Infinities and NaN are written as words. -/
theorem text_mem_of_not_isFinite {x : Float} (h : x.isFinite = false) :
    (Number.float x).text ∈ [['N', 'a', 'N'], ['i', 'n', 'f'], ['-', 'i', 'n', 'f']] := by
  rw [Number.text, Layout.write]
  by_cases hnan : x.isNaN
  · rw [if_pos hnan]
    decide
  · have hinf := (isNaN_or_isInf h).resolve_left hnan
    rw [if_neg hnan]
    dsimp only
    rw [if_pos hinf]
    cases isNegative x <;> decide

/-! ## Telling doubles apart -/

theorem negative_floatNumeral (x : Float) : (floatNumeral x).negative = isNegative x := by
  unfold floatNumeral
  dsimp only
  split
  · rfl
  · split
    · unfold plainNumeral
      split
      · rfl
      · split <;> rfl
    · rfl

/-- The token of a double spells a number that belongs to the double. -/
theorem covers_numeral (x : Float) : (Binary.ofFloat x).Covers (floatNumeral x).exact := by
  unfold floatNumeral
  cases hzero : x == 0 with
  | true =>
    obtain ⟨hfield, hfraction⟩ := (beq_zero_iff x).mp hzero
    have hexact : (⟨isNegative x, ['0'], ['0'], none⟩ : Numeral).exact = 0 := by
      have : digitsValue ['0', '0'] = 0 := rfl
      simp [Numeral.exact, this]
    have hofFloat : Binary.ofFloat x = ⟨0, -1074, false⟩ := by
      rw [ofFloat_eq, if_pos hfield, hfraction]
    simp only [↓reduceIte]
    rw [hexact, hofFloat]
    exact Binary.covers_zero rfl
  | false =>
    obtain ⟨hwf, hcovers⟩ := shortest_spec (isDouble_ofFloat x) (mantissa_pos hzero) .toEven
    simp only [Bool.false_eq_true, ↓reduceIte]
    split
    · rwa [exact_plain]
    · rwa [exact_scientific _ hwf]

/-- No two finite doubles share a text. -/
theorem float_text_inj {x y : Float} (hx : x.isFinite) (hy : y.isFinite)
    (h : (Number.float x).text = (Number.float y).text) : x = y := by
  have hnumeral : floatNumeral x = floatNumeral y := by
    apply Numeral.text_inj (wellFormed_floatNumeral x) (wellFormed_floatNumeral y)
    rw [text_floatNumeral hx, text_floatNumeral hy]
    exact h
  apply eq_of_ofFloat_eq
  · rw [← negative_floatNumeral, hnumeral, negative_floatNumeral]
  · have hcovers := covers_numeral x
    rw [hnumeral] at hcovers
    exact Binary.covers_unique (isDouble_ofFloat x) (isDouble_ofFloat y) hcovers
      (covers_numeral y)

/-- No two whole numbers share a text. -/
theorem int_text_inj {m n : Int} (h : (Number.int m).text = (Number.int n).text) : m = n := by
  have hnumeral : (Number.int m).numeral = (Number.int n).numeral := by
    apply Numeral.text_inj (Number.wellFormed_numeral _) (Number.wellFormed_numeral _)
    rw [← Number.text_eq_numeral (n := .int m) trivial,
      ← Number.text_eq_numeral (n := .int n) trivial, h]
  simp only [Number.numeral, Numeral.mk.injEq, decide_eq_decide, and_true] at hnumeral
  obtain ⟨hsign, hdigits⟩ := hnumeral
  have habs : m.natAbs = n.natAbs := by
    rw [← digitsValue_digitsOf m.natAbs, hdigits, digitsValue_digitsOf]
  omega

/-- The numeral of a double has a fraction or a power of ten. -/
theorem isFloat_floatNumeral (x : Float) :
    (floatNumeral x).fraction ≠ [] ∨ (floatNumeral x).exponent ≠ none := by
  unfold floatNumeral
  cases hzero : x == 0 with
  | true => exact .inl (List.cons_ne_nil _ _)
  | false =>
    have hne := (shortest_spec (isDouble_ofFloat x) (mantissa_pos hzero) .toEven).1.ne_nil
    simp only [Bool.false_eq_true, ↓reduceIte]
    split
    · left
      unfold plainNumeral
      split
      · simp [hne]
      split
      · rename_i hpoint
        rw [Ne, List.drop_eq_nil_iff]
        omega
      · exact List.cons_ne_nil _ _
    · exact .inr nofun

theorem Number.numeral_int_ne_float (n : ℤ) (x : Float) :
    (Number.int n).numeral ≠ (Number.float x).numeral := by
  intro h
  change _ = floatNumeral x at h
  have hfloat := isFloat_floatNumeral x
  rw [← h] at hfloat
  simp [Number.numeral] at hfloat

/-- No two finite numbers share a numeral. -/
theorem Number.numeral_inj {m n : Number} (hm : m.IsFinite) (hn : n.IsFinite)
    (h : m.numeral = n.numeral) : m = n := by
  have htext : m.text = n.text := by
    rw [Number.text_eq_numeral hm, Number.text_eq_numeral hn, h]
  cases m with
  | int i =>
    cases n with
    | int j => rw [int_text_inj htext]
    | float y => exact absurd h (numeral_int_ne_float i y)
  | float x =>
    cases n with
    | int j => exact absurd h.symm (numeral_int_ne_float j x)
    | float y => rw [float_text_inj hm hn htext]

end DialogueBuild.Json

import DialogueBuild.Json.Numeral
/-!
Number tokens inside longer texts.

A numeral has several spellings, and one plain text with a sign in front of every power of ten.
Reading a token stops at its end whatever follows, as long as what follows cannot belong to a
number.

Results:

1. `readNumeral_append`    a token that is read whole is read the same way in front of more text;
2. `readNumeral_spelled`   every spelling of a numeral is read as that numeral;
3. `Numeral.text_inj`      so that no two numerals share a plain text.
-/
namespace DialogueBuild.Json

/-- No digit is at the front of this text. -/
def NoDigit (rest : List Char) : Prop := ∀ c ∈ rest.head?, c.isDigit = false

/-- No number goes on with this text. -/
def EndsNumeral (rest : List Char) : Prop :=
  ∀ c ∈ rest.head?, c.isDigit = false ∧ c ≠ '.' ∧ c ≠ 'e' ∧ c ≠ 'E'

theorem EndsNumeral.noDigit {rest : List Char} (h : EndsNumeral rest) : NoDigit rest :=
  fun c hc => (h c hc).1

theorem endsNumeral_nil : EndsNumeral [] := by
  intro c hc
  cases hc

theorem noDigit_nil : NoDigit [] := endsNumeral_nil.noDigit

theorem noDigit_cons {c : Char} (h : c.isDigit = false) (rest : List Char) :
    NoDigit (c :: rest) := by
  intro d hd
  cases hd
  exact h

theorem exists_of_isDigit {c : Char} (h : c.isDigit) : ∃ n < 10, c = Char.ofNat (48 + n) := by
  simp only [Char.isDigit, Bool.and_eq_true, decide_eq_true_eq] at h
  obtain ⟨hlow, hhigh⟩ := h
  change 48 ≤ c.toNat at hlow
  change c.toNat ≤ 57 at hhigh
  refine ⟨c.toNat - 48, by omega, ?_⟩
  rw [Nat.add_sub_cancel' hlow, Char.ofNat_toNat]

/-! ## Reading in front of more text -/

theorem spanDigits_of_noDigit {rest : List Char} (h : NoDigit rest) :
    spanDigits rest = ([], rest) := by
  cases rest with
  | nil => rfl
  | cons c r =>
    have hc := h c rfl
    simp [spanDigits, hc]

theorem spanDigits_append (cs : List Char) {rest : List Char} (h : NoDigit rest) :
    spanDigits (cs ++ rest) = ((spanDigits cs).1, (spanDigits cs).2 ++ rest) := by
  induction cs with
  | nil => exact spanDigits_of_noDigit h
  | cons c cs ih =>
    by_cases hc : c.isDigit
    · simpa [spanDigits, hc] using ih
    · simp [spanDigits, hc]

/-- Digits in front of something else are taken whole. -/
theorem spanDigits_digits {ds rest : List Char} (hd : ∀ c ∈ ds, c.isDigit) (h : NoDigit rest) :
    spanDigits (ds ++ rest) = (ds, rest) := by
  have hrest := spanDigits_of_noDigit h
  unfold spanDigits at hrest ⊢
  rw [List.takeWhile_append_of_pos hd, List.dropWhile_append_of_pos hd]
  obtain ⟨htake, hdrop⟩ := Prod.mk.inj hrest
  rw [htake, hdrop, List.append_nil]

theorem readSign_append {cs : List Char} (h : cs ≠ []) (rest : List Char) :
    readSign (cs ++ rest) = ((readSign cs).1, (readSign cs).2 ++ rest) := by
  cases cs with
  | nil => exact absurd rfl h
  | cons c cs =>
    by_cases hm : c = '-'
    · subst hm
      rfl
    · by_cases hp : c = '+'
      · subst hp
        rfl
      · unfold readSign
        split <;> simp_all

theorem missingDigit_ne_read {cs rest : List Char} {t : Numeral} :
    missingDigit cs ≠ .read t rest := by
  cases cs <;> simp [missingDigit]

theorem readExponent_append {negative : Bool} {whole fraction cs r rest : List Char} {t : Numeral}
    (h : readExponent negative whole fraction cs = .read t r) (hr : EndsNumeral rest) :
    readExponent negative whole fraction (cs ++ rest) = .read t (r ++ rest) := by
  cases cs with
  | nil =>
    cases h
    cases rest with
    | nil => rfl
    | cons c rest =>
      obtain ⟨-, -, he, hE⟩ := hr c rfl
      simp [readExponent, he, hE]
  | cons c cs =>
    simp only [readExponent, List.cons_append] at h ⊢
    split at h
    · rename_i hc
      rw [if_pos hc]
      have hne : cs ≠ [] := by
        rintro rfl
        exact missingDigit_ne_read h
      rw [readSign_append hne, spanDigits_append _ hr.noDigit]
      split at h
      · exact absurd h missingDigit_ne_read
      · rename_i digits after hd heq
        rw [heq]
        cases digits with
        | nil => exact absurd rfl hd
        | cons d ds =>
          cases h
          rfl
    · rename_i hc
      cases h
      rw [if_neg hc]
      rfl

theorem readFraction_append {negative : Bool} {whole cs r rest : List Char} {t : Numeral}
    (h : readFraction negative whole cs = .read t r) (hr : EndsNumeral rest) :
    readFraction negative whole (cs ++ rest) = .read t (r ++ rest) := by
  unfold readFraction at h
  split at h
  · rename_i cs
    simp only [readFraction, List.cons_append]
    rw [spanDigits_append _ hr.noDigit]
    split at h
    · exact absurd h missingDigit_ne_read
    · rename_i digits after hd heq
      rw [heq]
      cases digits with
      | nil => exact absurd rfl hd
      | cons d ds => exact readExponent_append h hr
  · rename_i hpoint
    -- no point appears by what follows, even where nothing is left of the token
    have hp : ∀ more, cs ++ rest ≠ '.' :: more := by
      intro more hm
      cases cs with
      | nil =>
        rw [List.nil_append] at hm
        exact (hr '.' (by rw [hm]; rfl)).2.1 rfl
      | cons c cs =>
        cases hm
        exact hpoint cs rfl
    unfold readFraction
    split
    · rename_i more hm
      exact absurd hm (hp more)
    · exact readExponent_append h hr

/-- The digits that can stand in front of the point. -/
def IsWhole : List Char → Prop
  | [] => False
  | d :: ds => ds = [] ∨ d ≠ '0'

theorem readWhole_of_span {negative : Bool} {cs digits after : List Char}
    (hs : spanDigits cs = (digits, after)) (hw : IsWhole digits) :
    readWhole negative cs = readFraction negative digits after := by
  unfold readWhole
  rw [hs]
  match digits, hw with
  | [d], _ => split <;> simp_all
  | d :: e :: ds, hw =>
    have hd : d ≠ '0' := hw.resolve_left (by simp)
    split
    · simp_all
    · simp_all
    · rename_i heq
      cases heq
      rfl

theorem span_of_readWhole {negative : Bool} {cs r : List Char} {t : Numeral}
    (h : readWhole negative cs = .read t r) :
    ∃ digits after, spanDigits cs = (digits, after) ∧ IsWhole digits ∧
      readFraction negative digits after = .read t r := by
  unfold readWhole at h
  split at h
  · exact absurd h missingDigit_ne_read
  · cases h
  · rename_i digits after hne hzero heq
    refine ⟨digits, after, heq, ?_, h⟩
    match digits with
    | [] => exact absurd rfl (hne)
    | [d] => exact .inl rfl
    | d :: e :: ds => exact .inr fun hd => hzero e ds (by rw [hd])

theorem readWhole_append {negative : Bool} {cs r rest : List Char} {t : Numeral}
    (h : readWhole negative cs = .read t r) (hr : EndsNumeral rest) :
    readWhole negative (cs ++ rest) = .read t (r ++ rest) := by
  obtain ⟨digits, after, hs, hw, hf⟩ := span_of_readWhole h
  have hs' : spanDigits (cs ++ rest) = (digits, after ++ rest) := by
    rw [spanDigits_append _ hr.noDigit, hs]
  rw [readWhole_of_span hs' hw]
  exact readFraction_append hf hr

/-- What is read of a token does not depend on what follows it. -/
theorem readNumeral_append {cs r rest : List Char} {t : Numeral}
    (h : readNumeral cs = .read t r) (hr : EndsNumeral rest) :
    readNumeral (cs ++ rest) = .read t (r ++ rest) := by
  unfold readNumeral at h
  split at h
  · exact readWhole_append h hr
  · rename_i hm
    cases cs with
    | nil => cases h
    | cons c cs =>
      have hc : c ≠ '-' := by
        rintro rfl
        exact hm cs rfl
      have := readWhole_append h hr
      unfold readNumeral
      split
      · simp_all
      · exact this

/-! ## Spellings -/

/-- The ways to write a power of ten: behind either mark, and without a sign if it is positive. -/
inductive SpellsExponent : Option Exponent → List Char → Prop
  | none : SpellsExponent none []
  | negative {mark : Char} {digits : List Char} (h : mark = 'e' ∨ mark = 'E') :
    SpellsExponent (some ⟨true, digits⟩) (mark :: '-' :: digits)
  | positive {mark : Char} {digits : List Char} (h : mark = 'e' ∨ mark = 'E') :
    SpellsExponent (some ⟨false, digits⟩) (mark :: '+' :: digits)
  | unsigned {mark : Char} {digits : List Char} (h : mark = 'e' ∨ mark = 'E') :
    SpellsExponent (some ⟨false, digits⟩) (mark :: digits)

namespace Numeral

/-- The parts of a numeral can stand in a number token. -/
structure WellFormed (t : Numeral) : Prop where
  whole : IsWhole t.whole
  wholeDigits : ∀ c ∈ t.whole, c.isDigit
  fractionDigits : ∀ c ∈ t.fraction, c.isDigit
  exponentDigits : ∀ e ∈ t.exponent, e.digits ≠ [] ∧ ∀ c ∈ e.digits, c.isDigit

/-- A number token has a digit behind its sign. -/
theorem WellFormed.exists_whole {t : Numeral} (h : t.WellFormed) :
    ∃ d ds, t.whole = d :: ds ∧ d.isDigit := by
  match hw : t.whole, h.whole with
  | d :: ds, _ => exact ⟨d, ds, rfl, h.wholeDigits d (by simp [hw])⟩

def signText (t : Numeral) : List Char := if t.negative then ['-'] else []

/-- The fraction behind its point; nothing if there is none. -/
def fractionText (t : Numeral) : List Char :=
  if t.fraction = [] then [] else '.' :: t.fraction

/-- A text is a number token with these parts. -/
def Spells (t : Numeral) (cs : List Char) : Prop :=
  t.WellFormed ∧ ∃ power, SpellsExponent t.exponent power ∧
    cs = t.signText ++ t.whole ++ (t.fractionText ++ power)

end Numeral

theorem readExponent_spelled (negative : Bool) (whole fraction : List Char)
    {exponent : Option Exponent} {power : List Char} (hp : SpellsExponent exponent power)
    (h : ∀ e ∈ exponent, e.digits ≠ [] ∧ ∀ c ∈ e.digits, c.isDigit) :
    readExponent negative whole fraction power
      = .read ⟨negative, whole, fraction, exponent⟩ [] := by
  have hread : ∀ (mark : Char) (sign : Bool) (rest digits : List Char),
      mark = 'e' ∨ mark = 'E' → readSign rest = (sign, digits) → exponent = some ⟨sign, digits⟩ →
      readExponent negative whole fraction (mark :: rest)
        = .read ⟨negative, whole, fraction, exponent⟩ [] := by
    rintro mark sign rest digits hmark hsign rfl
    obtain ⟨hne, hd⟩ := h _ rfl
    have hspan : spanDigits digits = (digits, []) := by
      simpa using spanDigits_digits hd noDigit_nil
    simp only [readExponent, if_pos hmark, hsign, hspan]
  cases hp with
  | none => rfl
  | negative hmark => exact hread _ true _ _ hmark rfl rfl
  | positive hmark => exact hread _ false _ _ hmark rfl rfl
  | @unsigned mark digits hmark =>
    -- the first digit is not taken for a sign
    obtain ⟨hne, hd⟩ := h _ rfl
    refine hread _ false _ _ hmark ?_ rfl
    unfold readSign
    split
    · exact absurd (hd '-' (by simp)) (by decide)
    · exact absurd (hd '+' (by simp)) (by decide)
    · rfl

theorem noDigit_of_spellsExponent {exponent : Option Exponent} {power : List Char}
    (h : SpellsExponent exponent power) : NoDigit power := by
  have hmark : ∀ mark : Char, mark = 'e' ∨ mark = 'E' → mark.isDigit = false := by
    rintro mark (rfl | rfl) <;> rfl
  cases h with
  | none => exact noDigit_nil
  | negative h => exact noDigit_cons (hmark _ h) _
  | positive h => exact noDigit_cons (hmark _ h) _
  | unsigned h => exact noDigit_cons (hmark _ h) _

variable {t : Numeral} {power : List Char}

theorem readFraction_spelled (h : t.WellFormed) (hp : SpellsExponent t.exponent power) :
    readFraction t.negative t.whole (t.fractionText ++ power) = .read t [] := by
  unfold Numeral.fractionText
  split
  · rename_i hf
    have he := readExponent_spelled t.negative t.whole [] hp h.exponentDigits
    rw [List.nil_append]
    unfold readFraction
    split
    · rename_i rest
      have hpoint : ∀ exponent rest, ¬ SpellsExponent exponent ('.' :: rest) := by
        rintro exponent rest (_ | h | h | h) <;> revert h <;> decide
      exact absurd hp (hpoint _ _)
    · rw [he, ← hf]
  · rename_i hf
    have he := readExponent_spelled t.negative t.whole t.fraction hp h.exponentDigits
    simp only [List.cons_append, readFraction]
    rw [spanDigits_digits h.fractionDigits (noDigit_of_spellsExponent hp)]
    split
    · simp_all
    · rename_i heq
      cases heq
      exact he

theorem noDigit_fractionText (hp : SpellsExponent t.exponent power) :
    NoDigit (t.fractionText ++ power) := by
  unfold Numeral.fractionText
  split
  · exact noDigit_of_spellsExponent hp
  · exact noDigit_cons rfl _

/-- A number token is read as its parts. -/
theorem readNumeral_spelled {cs : List Char} (h : t.Spells cs) : readNumeral cs = .read t [] := by
  obtain ⟨hwf, power, hp, rfl⟩ := h
  have hspan : spanDigits (t.whole ++ (t.fractionText ++ power))
      = (t.whole, t.fractionText ++ power) :=
    spanDigits_digits hwf.wholeDigits (noDigit_fractionText hp)
  have hread : readWhole t.negative (t.whole ++ (t.fractionText ++ power)) = .read t [] := by
    rw [readWhole_of_span hspan hwf.whole, readFraction_spelled hwf hp]
  unfold Numeral.signText
  cases hn : t.negative with
  | true => simpa [readNumeral, hn] using hread
  | false =>
    rw [hn] at hread
    simp only [Bool.false_eq_true, ↓reduceIte, List.nil_append]
    obtain ⟨d, ds, hw, hd⟩ := hwf.exists_whole
    have hsign : d ≠ '-' := by
      rintro rfl
      cases hd
    rw [hw] at hread ⊢
    unfold readNumeral
    split
    · rename_i heq
      cases heq
      exact absurd rfl hsign
    · exact hread

/-! ## Plain texts -/

/-- The plain text of a power of ten, if there is one. -/
def exponentText : Option Exponent → List Char
  | some e => 'e' :: (if e.negative then '-' else '+') :: e.digits
  | none => []

namespace Numeral

/-- What stands behind the digits in front of the point. -/
def tail (t : Numeral) : List Char := t.fractionText ++ exponentText t.exponent

/-- The plain text of a numeral. -/
def text (t : Numeral) : List Char := t.signText ++ t.whole ++ t.tail

end Numeral

theorem spellsExponent_text (exponent : Option Exponent) :
    SpellsExponent exponent (exponentText exponent) := by
  match exponent with
  | none => exact .none
  | some ⟨true, digits⟩ => exact .negative (.inl rfl)
  | some ⟨false, digits⟩ => exact .positive (.inl rfl)

/-- The plain text of a numeral is one of its spellings. -/
theorem spells_text (h : t.WellFormed) : t.Spells t.text :=
  ⟨h, _, spellsExponent_text t.exponent, rfl⟩

/-- A numeral is determined by its plain text. -/
theorem Numeral.text_inj {s t : Numeral} (hs : s.WellFormed) (ht : t.WellFormed)
    (h : s.text = t.text) : s = t := by
  have := readNumeral_spelled (spells_text hs)
  rw [h, readNumeral_spelled (spells_text ht)] at this
  cases this
  rfl

end DialogueBuild.Json

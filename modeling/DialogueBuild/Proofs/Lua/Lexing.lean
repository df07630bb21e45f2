import DialogueBuild.Lua.Literal
import DialogueBuild.Proofs.Json.NumberText
import DialogueBuild.Proofs.Lua.Reader
import Mathlib.Data.Bool.AllAny
/-!
The tokens of what is written in Lua: names, strings, numbers and symbols.

Whatever is written is followed by a character that goes on with no token. A piece of text that is
split into the same tokens in front of every such character can be put into longer texts.

Results:

1. `readString_escape`   a string is read back up to its closing quote, whatever follows;
2. `isFree_iff`          the reader and the writer agree on the words that can be names;
3. `lexes_keyText`       the name of a field is one word, or one string in brackets;
4. `lexes_numeral`       the text of a number is one numeral behind its sign.
-/
namespace DialogueBuild.Lua

open Json (Number Numeral exponentText)
open Reader

/-! ## Boundaries -/

/-- The characters that end every token. -/
def enders : List Char := [' ', '\n', ',', '}', ']']

/-- No token goes on with this text. -/
def Ends (rest : List Char) : Prop := ∀ c ∈ rest.head?, c ∈ enders

theorem ends_nil : Ends [] := by
  intro c hc
  cases hc

theorem ends_cons {c : Char} (h : c ∈ enders) (rest : List Char) : Ends (c :: rest) := by
  intro d hd
  cases hd
  exact h

/-- No word goes on with this text. -/
def EndsWord (rest : List Char) : Prop := ∀ c ∈ rest.head?, isWordPart c = false

theorem Ends.endsWord {rest : List Char} (h : Ends rest) : EndsWord rest := by
  have hall : ∀ c ∈ enders, isWordPart c = false := List.all_iff_forall_prop.mp (by decide)
  exact fun c hc => hall c (h c hc)

/-- A text is split into these tokens in front of every boundary. -/
def Lexes (cs : List Char) (ts : List Token) : Prop :=
  ∀ rest, Ends rest → tokens? (cs ++ rest) = (tokens? rest).map (ts ++ ·)

theorem Lexes.append {as bs : List Char} {ss ts : List Token} (ha : Lexes as ss) (hb : Lexes bs ts)
    (h : ∀ rest, Ends rest → Ends (bs ++ rest)) : Lexes (as ++ bs) (ss ++ ts) := by
  intro rest hr
  rw [List.append_assoc, ha _ (h rest hr), hb rest hr, Option.map_map]
  congr 1
  funext us
  exact (List.append_assoc ss ts us).symm

theorem tokens_blank {c : Char} (h : isBlank c) (rest : List Char) :
    tokens? (c :: rest) = tokens? rest := by
  rw [tokens?, if_pos h]

theorem tokens_next {c : Char} {rest after : List Char} {t : Token} (hb : isBlank c = false)
    (h : next? c rest = some (t, after)) : tokens? (c :: rest) = (tokens? after).map (t :: ·) := by
  rw [tokens?, if_neg (by rw [hb]; decide)]
  split
  · rename_i hnone
    rw [h] at hnone
    cases hnone
  · rename_i u more hsome
    rw [h] at hsome
    cases hsome
    rfl

theorem Lexes.blank {cs : List Char} {ts : List Token} (h : Lexes cs ts) {c : Char}
    (hc : isBlank c) : Lexes (c :: cs) ts := by
  intro rest hr
  rw [List.cons_append, tokens_blank hc, h rest hr]

theorem Lexes.blanks {cs blanks : List Char} {ts : List Token} (h : Lexes cs ts)
    (hb : ∀ c ∈ blanks, isBlank c) : Lexes (blanks ++ cs) ts := by
  induction blanks with
  | nil => exact h
  | cons b bs ih => exact (ih fun c hc => hb c (by simp [hc])).blank (hb b (by simp))

/-! ## Symbols -/

theorem next_symbol {c : Char} {rest : List Char} (hc : c ∈ symbols) (h : standsAlone c rest) :
    next? c rest = some (.symbol c, rest) := by
  have hall : ∀ c ∈ symbols, isLetter c = false ∧ c.isDigit = false ∧ c ≠ '"' :=
    List.all_iff_forall_prop.mp (by decide)
  obtain ⟨hletter, hdecimal, hquote⟩ := hall c hc
  unfold next?
  rw [if_neg (by simp [hletter]), if_neg (by simp [hdecimal]), if_neg hquote,
    if_pos (by simp [hc, h])]

theorem tokens_symbol {c : Char} {rest : List Char} (hc : c ∈ symbols) (h : standsAlone c rest) :
    tokens? (c :: rest) = (tokens? rest).map (.symbol c :: ·) := by
  have hall : ∀ c ∈ symbols, isBlank c = false := List.all_iff_forall_prop.mp (by decide)
  exact tokens_next (hall c hc) (next_symbol hc h)

theorem standsAlone_of_ends {c : Char} {rest : List Char} (hc : c ∈ symbols) (h : Ends rest) :
    standsAlone c rest := by
  have hall : ∀ c ∈ symbols, enders.all fun d => standsAlone c [d] :=
    List.all_iff_forall_prop.mp (by decide)
  cases rest with
  | nil => rfl
  | cons d rest => exact List.all_eq_true.mp (hall c hc) d (h d rfl)

theorem lexes_symbol {c : Char} (hc : c ∈ symbols) : Lexes [c] [.symbol c] := by
  intro rest hr
  exact tokens_symbol hc (standsAlone_of_ends hc hr)

/-! ## Strings -/

theorem digitChar_spec {d : Nat} (h : d < 10) :
    (Nat.digitChar d).isDigit ∧ (Nat.digitChar d).toNat - 48 = d
      ∧ letterEscapes.lookup (Nat.digitChar d) = none := by
  have hall : ∀ d < 10, (Nat.digitChar d).isDigit ∧ (Nat.digitChar d).toNat - 48 = d
      ∧ letterEscapes.lookup (Nat.digitChar d) = none := by decide
  exact hall d h

theorem readEscape_threeDigits (n : Nat) (h : n < 128) (rest : List Char) :
    readEscape? (threeDigits n ++ rest) = some (Char.ofNat n, rest) := by
  obtain ⟨ha, hvalueA, hletter⟩ := digitChar_spec (d := n / 100) (by omega)
  obtain ⟨hb, hvalueB, -⟩ := digitChar_spec (d := n / 10 % 10) (by omega)
  obtain ⟨hc, hvalueC, -⟩ := digitChar_spec (d := n % 10) (by omega)
  have hback : 100 * (n / 100) + 10 * (n / 10 % 10) + n % 10 = n := by omega
  have hdecimal : decimalEscape? (Nat.digitChar (n / 100)) (Nat.digitChar (n / 10 % 10))
      (Nat.digitChar (n % 10)) = some (Char.ofNat n) := by
    simp [decimalEscape?, ha, hb, hc, hvalueA, hvalueB, hvalueC, hback, h]
  -- the first digit is not taken for an escape of one letter
  simp only [threeDigits, List.cons_append, List.nil_append, readEscape?, hletter, hdecimal,
    Option.map_some]

/-- What a character is written as is read back as that character. -/
theorem readChar_escape (c : Char) (rest : List Char) :
    readChar? (escape c ++ rest) = some (c, rest) := by
  unfold escape
  split
  · subst_vars
    rfl
  split
  · subst_vars
    rfl
  split
  · subst_vars
    rfl
  split
  · subst_vars
    rfl
  split
  · subst_vars
    rfl
  split
  · rename_i hcontrol
    have hlt : c.toNat < 128 := by
      simp only [isControl, Bool.or_eq_true, decide_eq_true_eq] at hcontrol
      omega
    simp only [List.cons_append, readChar?, ↓reduceIte]
    rw [readEscape_threeDigits _ hlt, Char.ofNat_toNat]
  · rename_i hquote hslash hn hr ht hcontrol
    simp [readChar?, hquote, hslash, hn, hr]

theorem head_escape (c : Char) (rest : List Char) : (escape c ++ rest).head? ≠ some '"' := by
  intro h
  obtain ⟨cs, hcs⟩ := List.head?_eq_some_iff.mp h
  have hread := readChar_escape c rest
  rw [hcs] at hread
  cases hread

/-- A string is read back up to its closing quote, whatever follows. -/
theorem readString_escape (s rest : List Char) :
    readString? (s.flatMap escape ++ '"' :: rest) = some (s, rest) := by
  induction s with
  | nil =>
    rw [readString?]
    rfl
  | cons c s ih =>
    rw [List.flatMap_cons, List.append_assoc, readString?, if_neg (head_escape c _)]
    have hread := readChar_escape c (s.flatMap escape ++ '"' :: rest)
    split
    · rename_i hnone
      rw [hread] at hnone
      cases hnone
    · rename_i hsome
      rw [hread] at hsome
      cases hsome
      rw [ih]
      rfl

theorem tokens_string (s : String) (rest : List Char) :
    tokens? (stringText s ++ rest) = (tokens? rest).map (.string s :: ·) := by
  have hnext : next? '"' (s.toList.flatMap escape ++ '"' :: rest) = some (.string s, rest) := by
    have hletter : isLetter '"' = false := by decide
    have hdecimal : '"'.isDigit = false := by decide
    unfold next?
    rw [hletter, hdecimal, readString_escape]
    simp
  have hblank : isBlank '"' = false := by decide
  have htext : stringText s ++ rest = '"' :: (s.toList.flatMap escape ++ '"' :: rest) := by
    simp [stringText]
  rw [htext]
  exact tokens_next hblank hnext

theorem lexes_string (s : String) : Lexes (stringText s) [.string s] :=
  fun rest _ => tokens_string s rest

/-! ## Words -/

theorem isWordPart_eq (c : Char) : isWordPart c = isNamePart c := by
  simp only [isWordPart, isLetter, isNamePart, Char.isAlphanum]
  cases c.isAlpha <;> cases c.isDigit <;> simp

/-- The reader and the writer agree on the words that can be names. -/
theorem isFree_iff (w : String) : isFree w ↔ w ∉ reserved := by
  have hto : ∀ w ∈ reserved, w ∈ constants ++ operators ++ statementWords := by decide
  have hfrom : ∀ w ∈ constants ++ operators ++ statementWords, w ∈ reserved := by decide
  simp only [isFree, Bool.not_eq_true', List.contains_eq_mem, decide_eq_false_iff_not]
  exact not_congr ⟨hfrom w, hto w⟩

theorem tokens_word {c : Char} {cs rest : List Char} (hc : isLetter c) (hcs : cs.all isWordPart)
    (hr : EndsWord rest) :
    tokens? (c :: cs ++ rest) = (tokens? rest).map (.word (String.ofList (c :: cs)) :: ·) := by
  have hblank : isBlank c = false := by
    rw [← Bool.not_eq_true]
    intro hb
    simp only [isBlank, Bool.or_eq_true, decide_eq_true_eq] at hb
    rcases hb with ((rfl | rfl) | rfl) | rfl <;> exact absurd hc (by decide)
  have hsplit : (cs ++ rest).takeWhile isWordPart = cs
      ∧ (cs ++ rest).dropWhile isWordPart = rest := by
    have hparts := List.all_eq_true.mp hcs
    rw [List.takeWhile_append_of_pos hparts, List.dropWhile_append_of_pos hparts]
    cases rest with
    | nil => simp
    | cons d rest => simp [hr d rfl]
  apply tokens_next hblank
  unfold next?
  rw [if_pos hc, List.append_eq, hsplit.1, hsplit.2]

/-- A bare name is one word for the reader. -/
theorem word_of_isName {s : String} (h : isName s) :
    ∃ c cs, s.toList = c :: cs ∧ isLetter c ∧ cs.all isWordPart ∧ isFree s := by
  unfold isName at h
  split at h
  · cases h
  · rename_i c cs hs
    have hparts : isNamePart = isWordPart := funext fun d => (isWordPart_eq d).symm
    simp only [Bool.and_eq_true, hparts, Bool.not_eq_true', List.contains_eq_mem,
      decide_eq_false_iff_not] at h
    obtain ⟨⟨hc, hcs⟩, hfree⟩ := h
    exact ⟨c, cs, hs, hc, hcs, (isFree_iff s).mpr hfree⟩

theorem tokens_name {s : String} (h : isName s) {rest : List Char} (hr : EndsWord rest) :
    tokens? (s.toList ++ rest) = (tokens? rest).map (.word s :: ·) := by
  obtain ⟨c, cs, hs, hc, hcs, -⟩ := word_of_isName h
  have hword := tokens_word hc hcs hr
  rwa [← hs, String.ofList_toList] at hword

/-! ## Field names -/

theorem tokens_bracketed (s : String) (rest : List Char) (hr : Ends rest) :
    tokens? (bracketed s ++ rest)
      = (tokens? rest).map ([.symbol '[', .string s, .symbol ']'] ++ ·) := by
  have htext : bracketed s ++ rest = '[' :: (stringText s ++ (']' :: rest)) := by
    simp [bracketed]
  have hopen : standsAlone '[' (stringText s ++ (']' :: rest)) := rfl
  rw [htext, tokens_symbol (by decide) hopen, tokens_string,
    tokens_symbol (by decide) (standsAlone_of_ends (by decide) hr), Option.map_map, Option.map_map]
  rfl

/-- The tokens of the name of a field. -/
def keyTokens (s : String) : List Token :=
  if isName s then [.word s] else [.symbol '[', .string s, .symbol ']']

theorem lexes_keyText (s : String) : Lexes (keyText s) (keyTokens s) := by
  intro rest hr
  unfold keyText keyTokens
  split
  · rename_i hname
    exact tokens_name hname hr.endsWord
  · exact tokens_bracketed s rest hr

/-! ## Numerals -/

/-- A numeral takes all of a text. -/
def Taken (marked : Bool) : List Char → Prop
  | [] => True
  | c :: rest =>
    (isWordPart c || c = '.' || marked && (c = '+' || c = '-')) ∧ Taken (c = 'e' || c = 'E') rest

theorem spanNumeral_taken {marked : Bool} {cs rest : List Char} (h : Taken marked cs)
    (hr : Ends rest) : spanNumeral marked (cs ++ rest) = (cs, rest) := by
  induction cs generalizing marked with
  | nil =>
    have hall : ∀ c ∈ enders, ∀ m : Bool,
        (isWordPart c || c = '.' || m && (c = '+' || c = '-')) = false :=
      List.all_iff_forall_prop.mp (by decide)
    cases rest with
    | nil => rfl
    | cons c rest =>
      rw [List.nil_append, spanNumeral, if_neg (by rw [hall c (hr c rfl)]; decide)]
  | cons c cs ih =>
    obtain ⟨hc, hcs⟩ := h
    rw [List.cons_append, spanNumeral, if_pos hc, ih hcs]

theorem taken_digits {ds rest : List Char} (hd : ∀ c ∈ ds, c.isDigit) (h : ∀ m, Taken m rest)
    (marked : Bool) : Taken marked (ds ++ rest) := by
  induction ds generalizing marked with
  | nil => exact h marked
  | cons d ds ih =>
    refine ⟨?_, ih (fun c hc => hd c (by simp [hc])) _⟩
    simp [isWordPart, hd d (by simp)]

theorem taken_digits_nil {ds : List Char} (hd : ∀ c ∈ ds, c.isDigit) (marked : Bool) :
    Taken marked ds := by
  have hnil : ∀ m, Taken m [] := fun _ => trivial
  have h := taken_digits hd hnil marked
  rwa [List.append_nil] at h

variable {t : Numeral}

theorem taken_exponent (h : t.WellFormed) (marked : Bool) :
    Taken marked (exponentText t.exponent) := by
  cases he : t.exponent with
  | none => trivial
  | some e =>
    obtain ⟨-, hd⟩ := h.exponentDigits e he
    have hmark : isWordPart 'e' = true := by decide
    refine ⟨by rw [hmark]; rfl, ?_, taken_digits_nil hd _⟩
    cases e.negative <;> decide

theorem taken_tail (h : t.WellFormed) (marked : Bool) : Taken marked t.tail := by
  unfold Numeral.tail Numeral.fractionText
  split
  · exact taken_exponent h marked
  · refine ⟨by simp, ?_⟩
    exact taken_digits h.fractionDigits (taken_exponent h) _

theorem dropWhile_digits {ds rest : List Char} (hd : ∀ c ∈ ds, c.isDigit)
    (hr : ∀ c ∈ rest.head?, c.isDigit = false) : (ds ++ rest).dropWhile Char.isDigit = rest := by
  rw [List.dropWhile_append_of_pos hd]
  cases rest with
  | nil => rfl
  | cons c rest => simp [hr c rfl]

theorem isNumeralEnd_exponent (h : t.WellFormed) : isNumeralEnd (exponentText t.exponent) := by
  cases he : t.exponent with
  | none => rfl
  | some e =>
    obtain ⟨hne, hd⟩ := h.exponentDigits e he
    have hall : e.digits.all Char.isDigit := List.all_eq_true.mpr hd
    cases hn : e.negative <;> simp [exponentText, isNumeralEnd, isPower, hn, hne, hall]

theorem head_exponent (t : Numeral) :
    ∀ c ∈ (exponentText t.exponent).head?, c.isDigit = false := by
  cases t.exponent with
  | none => simp [exponentText]
  | some e =>
    rintro c ⟨⟩
    decide

theorem head_tail (t : Numeral) : ∀ c ∈ t.tail.head?, c.isDigit = false := by
  unfold Numeral.tail Numeral.fractionText
  split
  · exact head_exponent t
  · rintro c ⟨⟩
    decide

theorem isNumeral_text (h : t.WellFormed) : isNumeral (t.whole ++ t.tail) := by
  have hdigit : (t.whole ++ t.tail).any Char.isDigit := by
    obtain ⟨d, ds, hw, hd⟩ := h.exists_whole
    simp [hw, hd]
  have hend := isNumeralEnd_exponent h
  unfold isNumeral
  rw [hdigit, Bool.true_and, dropWhile_digits h.wholeDigits (head_tail t)]
  unfold Numeral.tail Numeral.fractionText
  by_cases hf : t.fraction = []
  · rw [if_pos hf, List.nil_append]
    cases he : t.exponent with
    | none => rfl
    | some e =>
      rw [he] at hend
      exact hend
  · rw [if_neg hf]
    simp only [List.cons_append]
    rwa [dropWhile_digits h.fractionDigits (head_exponent t)]

/-- The tokens of a numeral. -/
def numeralTokens (t : Numeral) : List Token :=
  (if t.negative then [.symbol '-'] else []) ++ [.numeral (t.whole ++ t.tail)]

theorem of_isDigit {c : Char} (h : c.isDigit) :
    isLetter c = false ∧ isBlank c = false ∧ (c = 'e' || c = 'E') = false := by
  have hall : ∀ n < 10, isLetter (Char.ofNat (48 + n)) = false ∧
      isBlank (Char.ofNat (48 + n)) = false ∧
      (Char.ofNat (48 + n) = 'e' || Char.ofNat (48 + n) = 'E') = false := by decide
  obtain ⟨n, hn, rfl⟩ := Json.exists_of_isDigit h
  exact hall n hn

theorem lexes_unsigned (h : t.WellFormed) :
    Lexes (t.whole ++ t.tail) [.numeral (t.whole ++ t.tail)] := by
  intro rest hr
  have htaken := taken_digits h.wholeDigits (taken_tail h) false
  have hnumeral := isNumeral_text h
  obtain ⟨d, ds, hw, hd⟩ := h.exists_whole
  obtain ⟨hletter, hblank, hmark⟩ := of_isDigit hd
  rw [hw] at htaken hnumeral ⊢
  have hspan := spanNumeral_taken htaken.2 hr
  rw [hmark] at hspan
  apply tokens_next hblank
  unfold next?
  rw [if_neg (by simp [hletter]), if_pos hd]
  dsimp only [List.append_eq] at hspan ⊢
  rw [hspan]
  exact if_pos hnumeral

/-- The text of a number is one numeral behind its sign. -/
theorem lexes_numeral (h : t.WellFormed) : Lexes t.text (numeralTokens t) := by
  intro rest hr
  have hunsigned := lexes_unsigned h rest hr
  unfold Numeral.text Numeral.signText numeralTokens
  cases t.negative with
  | false => simpa using hunsigned
  | true =>
    -- a minus sign in front of a digit starts no comment
    have halone : standsAlone '-' (t.whole ++ t.tail ++ rest) := by
      obtain ⟨d, ds, hw, hd⟩ := h.exists_whole
      have hne : d ≠ '-' := by
        rintro rfl
        cases hd
      simp [hw, standsAlone, pairs, hne]
    have hsign := tokens_symbol (by decide) halone
    simp only [↓reduceIte, List.cons_append, List.nil_append, List.append_assoc]
      at hsign hunsigned ⊢
    rw [hsign, hunsigned, Option.map_map]
    rfl

end DialogueBuild.Lua

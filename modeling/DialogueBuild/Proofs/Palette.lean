import DialogueBuild.Palette
import Mathlib.Data.List.Basic
/-!
Texts with escape sequences of a palette.

The sequences begin with an escape character. So where the text itself has none, they are found
again, and only they are.

Results:

1. `behindCode?_rendition`     a sequence at the start of a text is found, and found as a whole;
2. `eraseCodes_append`         deleting sequences keeps a text that has no escape character;
3. `eraseCodes_rendition`      and leaves nothing of a sequence;
4. `resets_color`              a coloured part of a line that ends in a reset leaves no colour on.
-/
namespace DialogueBuild

/-! ## Deleting escape sequences -/

/-- What stands behind the escape sequence that a text begins with; none if it begins with no
sequence that selects a rendition. -/
def behindCode? : List Char → Option (List Char)
  | '\x1b' :: '[' :: cs =>
    match cs.takeWhile Char.isDigit, cs.dropWhile Char.isDigit with
    | _ :: _, 'm' :: rest => some rest
    | _, _ => none
  | _ => none

theorem length_behindCode? {cs rest : List Char} (h : behindCode? cs = some rest) :
    rest.length < cs.length := by
  unfold behindCode? at h
  split at h
  · rename_i cs
    split at h
    · rename_i hdropped
      cases h
      have hle := (List.dropWhile_sublist Char.isDigit (l := cs)).length_le
      rw [hdropped] at hle
      simp only [List.length_cons] at hle ⊢
      omega
    · cases h
  · cases h

/-- The text without its escape sequences. -/
def eraseCodes (cs : List Char) : List Char :=
  match _hcode : behindCode? cs with
  | some rest => eraseCodes rest
  | none =>
    match cs with
    | [] => []
    | c :: cs => c :: eraseCodes cs
termination_by cs.length
decreasing_by
  · exact length_behindCode? _hcode
  · simp

section

variable {c : Char} {cs text rest digits : List Char}

theorem behindCode?_eq_none (h : c ≠ '\x1b') (cs : List Char) : behindCode? (c :: cs) = none := by
  unfold behindCode?
  split
  · rename_i heq
    exact absurd (List.cons.inj heq).1 h
  · rfl

/-- A sequence at the start of a text is found as a whole. -/
theorem behindCode?_rendition (hne : digits ≠ []) (hdigits : ∀ c ∈ digits, c.isDigit)
    (rest : List Char) : behindCode? (rendition digits ++ rest) = some rest := by
  have htext : rendition digits ++ rest = '\x1b' :: '[' :: (digits ++ 'm' :: rest) := by
    simp [rendition]
  have htaken : (digits ++ 'm' :: rest).takeWhile Char.isDigit = digits := by
    rw [List.takeWhile_append_of_pos hdigits, List.takeWhile_cons_of_neg (by decide),
      List.append_nil]
  have hdropped : (digits ++ 'm' :: rest).dropWhile Char.isDigit = 'm' :: rest := by
    rw [List.dropWhile_append_of_pos hdigits, List.dropWhile_cons_of_neg (by decide)]
  obtain ⟨d, others, rfl⟩ := List.exists_cons_of_ne_nil hne
  rw [htext, behindCode?, htaken, hdropped]
  rfl

theorem eraseCodes_nil : eraseCodes [] = [] := by
  unfold eraseCodes
  rfl

theorem eraseCodes_cons (h : c ≠ '\x1b') (cs : List Char) :
    eraseCodes (c :: cs) = c :: eraseCodes cs := by
  rw [eraseCodes]
  split
  · rename_i hcode
    rw [behindCode?_eq_none h] at hcode
    cases hcode
  · rfl

/-- Where no escape character stands, nothing is deleted. -/
theorem eraseCodes_append (h : '\x1b' ∉ text) (rest : List Char) :
    eraseCodes (text ++ rest) = text ++ eraseCodes rest := by
  induction text with
  | nil => rfl
  | cons c text ih =>
    rw [List.mem_cons, not_or] at h
    rw [List.cons_append, eraseCodes_cons (Ne.symm h.1), ih h.2, List.cons_append]

theorem eraseCodes_rendition (hne : digits ≠ []) (hdigits : ∀ c ∈ digits, c.isDigit)
    (rest : List Char) : eraseCodes (rendition digits ++ rest) = eraseCodes rest := by
  have hcode := behindCode?_rendition hne hdigits rest
  rw [eraseCodes]
  split
  · rename_i hfound
    rw [hcode] at hfound
    cases hfound
    rfl
  · rename_i hnone
    rw [hcode] at hnone
    cases hnone

end

/-! ## Colours that are switched off -/

/-- The colours of a palette. -/
def Palette.colors (p : Palette) : List (List Char) := [p.blue, p.green, p.red, p.yellow, p.dim]

/-- The text is reset before its first line ends. -/
def IsReset (cs : List Char) : Prop :=
  ∃ inside later, cs = inside ++ Palette.colored.reset ++ later ∧ '\n' ∉ inside

/-- Behind every colour the text is reset before the line ends. -/
def Resets (cs : List Char) : Prop :=
  ∀ before color behind, cs = before ++ color ++ behind → color ∈ Palette.colored.colors →
    IsReset behind

section

variable {c : Char} {text rest color : List Char}

/-- The colours and the reset are sequences of digits. -/
theorem exists_digits_of_color (h : color ∈ Palette.colored.reset :: Palette.colored.colors) :
    ∃ digits, color = rendition digits ∧ digits ≠ [] ∧ ∀ c ∈ digits, c.isDigit := by
  simp only [Palette.colors, List.mem_cons, List.not_mem_nil, or_false] at h
  rcases h with rfl | rfl | rfl | rfl | rfl | rfl <;>
    exact ⟨_, rfl, by decide, List.all_eq_true.mp rfl⟩

/-- A text begins with one sequence at most. -/
theorem eq_of_color_append {other behind : List Char}
    (h : color ∈ Palette.colored.reset :: Palette.colored.colors)
    (hother : other ∈ Palette.colored.reset :: Palette.colored.colors)
    (heq : color ++ behind = other ++ rest) : color = other ∧ behind = rest := by
  obtain ⟨digits, rfl, hne, hdigits⟩ := exists_digits_of_color h
  obtain ⟨digits', rfl, hne', hdigits'⟩ := exists_digits_of_color hother
  have hbehind : some behind = some rest := by
    rw [← behindCode?_rendition hne hdigits, heq, behindCode?_rendition hne' hdigits']
  obtain rfl := Option.some.inj hbehind
  exact ⟨List.append_cancel_right heq, rfl⟩

theorem resets_nil : Resets [] := by
  intro before color behind h hcolor
  obtain ⟨digits, rfl, -⟩ := exists_digits_of_color (List.mem_cons_of_mem _ hcolor)
  simp [rendition] at h

/-- A character counts for nothing unless a colour begins with it. -/
theorem resets_cons (h : Resets rest)
    (hfirst : ∀ color behind, c :: rest = color ++ behind → color ∈ Palette.colored.colors →
      IsReset behind) : Resets (c :: rest) := by
  intro before color behind heq hcolor
  cases before with
  | nil => exact hfirst color behind heq hcolor
  | cons b before =>
    simp only [List.cons_append, List.cons.injEq] at heq
    exact h before color behind heq.2 hcolor

theorem resets_append (htext : '\x1b' ∉ text) (h : Resets rest) : Resets (text ++ rest) := by
  induction text with
  | nil => exact h
  | cons c text ih =>
    rw [List.mem_cons, not_or] at htext
    refine resets_cons (ih htext.2) fun color behind heq hcolor => ?_
    obtain ⟨digits, rfl, -⟩ := exists_digits_of_color (List.mem_cons_of_mem _ hcolor)
    simp only [rendition, List.cons_append, List.cons.injEq] at heq
    exact absurd heq.1.symm htext.1

/-- A sequence is one of the colours, or the reset, and what stands behind it is looked at alone. -/
theorem resets_sequence {other : List Char}
    (hother : other ∈ Palette.colored.reset :: Palette.colored.colors) (h : Resets rest)
    (hreset : other ∈ Palette.colored.colors → IsReset rest) : Resets (other ++ rest) := by
  have hfirst : ∀ color behind, other ++ rest = color ++ behind →
      color ∈ Palette.colored.colors → IsReset behind := by
    intro color behind heq hcolor
    obtain ⟨rfl, rfl⟩ := eq_of_color_append hother (List.mem_cons_of_mem _ hcolor) heq
    exact hreset hcolor
  obtain ⟨digits, rfl, -, hdigits⟩ := exists_digits_of_color hother
  have htail : '\x1b' ∉ '[' :: (digits ++ ['m']) := by
    intro hmem
    simp only [List.mem_cons, List.mem_append, List.not_mem_nil, or_false] at hmem
    rcases hmem with hmem | hmem | hmem
    · cases hmem
    · exact absurd (hdigits _ hmem) (by decide)
    · cases hmem
  have hsplit : rendition digits ++ rest = '\x1b' :: ('[' :: (digits ++ ['m']) ++ rest) := by
    simp [rendition]
  rw [hsplit] at hfirst ⊢
  exact resets_cons (resets_append htail h) hfirst

/-- A coloured stretch of a line that ends in a reset leaves no colour on. -/
theorem resets_color (hcolor : color ∈ Palette.colored.colors) (htext : '\x1b' ∉ text)
    (hline : '\n' ∉ text) (h : Resets rest) :
    Resets (color ++ text ++ Palette.colored.reset ++ rest) := by
  have hnone : Palette.colored.reset ∉ Palette.colored.colors := by decide
  have hbehind : Resets (Palette.colored.reset ++ rest) :=
    resets_sequence List.mem_cons_self h fun hmem => absurd hmem hnone
  rw [List.append_assoc, List.append_assoc]
  refine resets_sequence (List.mem_cons_of_mem _ hcolor) (resets_append htext hbehind) fun _ => ?_
  exact ⟨text, rest, by rw [List.append_assoc], hline⟩

end

end DialogueBuild

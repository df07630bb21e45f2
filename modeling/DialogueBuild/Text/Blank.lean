/-!
Sets of characters, the blank ones (the Unicode property White_Space), and trimming.

Results:

1. `trim_eq_self_iff`   a text is trimmed iff neither end is blank;
2. `trim_trim`          trimming twice is trimming once;
3. `trim_sublist`       trimming only leaves characters out.
-/
namespace DialogueBuild.Text

/-- A set of characters: inclusive ranges of code points, in ascending order. -/
abbrev Ranges := List (Nat × Nat)

/-- Whether a character lies in one of the ranges. -/
def Ranges.contains (ranges : Ranges) (c : Char) : Bool :=
  ranges.any fun (first, last) => first ≤ c.toNat && c.toNat ≤ last

/-- The code points with the property White_Space. -/
def blankRanges : Ranges :=
  [(0x9, 0xD), (0x20, 0x20), (0x85, 0x85), (0xA0, 0xA0), (0x1680, 0x1680), (0x2000, 0x200A),
   (0x2028, 0x2029), (0x202F, 0x202F), (0x205F, 0x205F), (0x3000, 0x3000)]

def isBlank (c : Char) : Bool := blankRanges.contains c

def trimStart (cs : List Char) : List Char := cs.dropWhile isBlank

def trimEnd (cs : List Char) : List Char := (cs.reverse.dropWhile isBlank).reverse

/-- The text without the blank characters at its two ends. -/
def trim (cs : List Char) : List Char := trimEnd (trimStart cs)

/-! ## Laws -/

theorem dropWhile_eq_self_iff {p : Char → Bool} {cs : List Char} :
    cs.dropWhile p = cs ↔ ∀ c ∈ cs.head?, p c = false := by
  cases cs with
  | nil => simp
  | cons c r =>
    rw [List.dropWhile_cons]
    cases hp : p c with
    | false => simp [hp]
    | true =>
      have hlen : (r.dropWhile p).length ≤ r.length := (List.dropWhile_sublist p).length_le
      constructor
      · intro h
        have := congrArg List.length h
        simp at this
        omega
      · intro h
        simp [hp] at h

theorem head?_dropWhile_not {p : Char → Bool} {cs : List Char} {c : Char}
    (h : c ∈ (cs.dropWhile p).head?) : p c = false := by
  induction cs with
  | nil => simp at h
  | cons d r ih =>
    rw [List.dropWhile_cons] at h
    cases hp : p d with
    | true => rw [hp] at h; exact ih h
    | false => rw [hp] at h; simp at h; rw [← h]; exact hp

theorem trim_sublist (cs : List Char) : (trim cs).Sublist cs := by
  have h := (List.dropWhile_sublist isBlank (l := (trimStart cs).reverse)).reverse
  rw [List.reverse_reverse] at h
  exact h.trans (List.dropWhile_sublist isBlank)

theorem trimStart_trim (cs : List Char) : trimStart (trim cs) = trim cs := by
  rw [trimStart, dropWhile_eq_self_iff]
  intro c hc
  have hs : (trim cs) <+: trimStart cs := by
    have h := List.dropWhile_suffix isBlank (l := (trimStart cs).reverse)
    have h' := List.reverse_prefix.mpr h
    rwa [List.reverse_reverse] at h'
  obtain ⟨t, ht⟩ := hs
  have : c ∈ (trimStart cs).head? := by
    rw [← ht]
    cases hm : trim cs with
    | nil => rw [hm] at hc; simp at hc
    | cons d r => rw [hm] at hc; simpa using hc
  exact head?_dropWhile_not this

theorem trimEnd_trim (cs : List Char) : trimEnd (trim cs) = trim cs := by
  have h : ((trimStart cs).reverse.dropWhile isBlank).dropWhile isBlank
      = (trimStart cs).reverse.dropWhile isBlank := by
    rw [dropWhile_eq_self_iff]
    intro c hc
    exact head?_dropWhile_not hc
  simp only [trim, trimEnd, List.reverse_reverse] at h ⊢
  rw [h]

theorem trim_trim (cs : List Char) : trim (trim cs) = trim cs := by
  rw [trim, trimStart_trim, trimEnd_trim]

theorem trim_eq_self_iff {cs : List Char} :
    trim cs = cs ↔ (∀ c ∈ cs.head?, isBlank c = false) ∧ ∀ c ∈ cs.getLast?, isBlank c = false := by
  constructor
  · intro h
    have hs := trimStart_trim cs
    have he := trimEnd_trim cs
    rw [h] at hs he
    refine ⟨dropWhile_eq_self_iff.mp hs, ?_⟩
    have he' : cs.reverse.dropWhile isBlank = cs.reverse := by
      rw [← List.reverse_inj, List.reverse_reverse]
      exact he
    intro c hc
    exact dropWhile_eq_self_iff.mp he' c (by rw [List.head?_reverse]; exact hc)
  · rintro ⟨hs, he⟩
    have hs' : trimStart cs = cs := dropWhile_eq_self_iff.mpr hs
    have he' : cs.reverse.dropWhile isBlank = cs.reverse :=
      dropWhile_eq_self_iff.mpr (by rw [List.head?_reverse]; exact he)
    rw [trim, hs', trimEnd, he', List.reverse_reverse]

end DialogueBuild.Text

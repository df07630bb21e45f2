import DialogueBuild.Decimal.Layout
import DialogueBuild.Proofs.Decimal.Shortest
import DialogueBuild.Text.Marks
/-!
Texts without control characters. They fit on a line and leave the terminal alone.

Results:

1. `Layout.noControls_write`   numbers are written without control characters in every layout;
2. `noControls_quoted`         and so are quoted texts, whatever stands in them.
-/
namespace DialogueBuild

namespace Text

/-- No control character stands in the text. -/
def NoControls (cs : List Char) : Prop := ∀ c ∈ cs, 0x20 ≤ c.toNat

instance (cs : List Char) : Decidable (NoControls cs) :=
  List.decidableBAll (fun c : Char => 0x20 ≤ c.toNat) cs

variable {cs ds : List Char} {c : Char}

@[simp] theorem noControls_nil : NoControls [] := by
  intro c hc
  cases hc

@[simp] theorem noControls_cons : NoControls (c :: cs) ↔ 0x20 ≤ c.toNat ∧ NoControls cs :=
  List.forall_mem_cons

@[simp] theorem noControls_append : NoControls (cs ++ ds) ↔ NoControls cs ∧ NoControls ds :=
  List.forall_mem_append

theorem noControls_flatMap {α : Type} {f : α → List Char} {items : List α}
    (h : ∀ item ∈ items, NoControls (f item)) : NoControls (items.flatMap f) := by
  intro c hc
  obtain ⟨item, hitem, hc⟩ := List.mem_flatMap.mp hc
  exact h item hitem c hc

theorem NoControls.subset (h : NoControls cs) (hsub : ds ⊆ cs) : NoControls ds :=
  fun c hc => h c (hsub hc)

theorem NoControls.newline_notMem (h : NoControls cs) : '\n' ∉ cs := by
  intro hc
  exact absurd (h '\n' hc) (by decide)

/-! ## Digits -/

theorem noControls_of_isDigit (h : ∀ c ∈ cs, c.isDigit) : NoControls cs := by
  intro c hc
  have hdigit := h c hc
  simp only [Char.isDigit, Bool.and_eq_true, decide_eq_true_eq] at hdigit
  have hlow : 48 ≤ c.toNat := hdigit.1
  omega

theorem noControls_replicate (n : Nat) (h : 0x20 ≤ c.toNat) : NoControls (List.replicate n c) := by
  intro d hd
  rw [List.eq_of_mem_replicate hd]
  exact h

theorem noControls_digitsOf (n : Nat) : NoControls (Decimal.digitsOf n) :=
  noControls_of_isDigit fun _ hc => Decimal.isDigit_of_mem_digitsOf hc

end Text

open Text

/-! ## Numbers -/

namespace Decimal

theorem noControls_zeros (n : ℤ) : NoControls (zeros n) := noControls_replicate _ (by decide)

theorem Digits.noControls_plain {d : Digits} (h : NoControls d.digits) (keepsPoint : Bool) :
    NoControls (d.plain keepsPoint) := by
  unfold plain
  dsimp only
  split
  · simpa [noControls_zeros] using h
  split
  · have htake := h.subset (List.take_subset d.point.toNat d.digits)
    have hdrop := h.subset (List.drop_subset d.point.toNat d.digits)
    simp [htake, hdrop]
  · cases keepsPoint <;> simpa [noControls_zeros] using h

theorem Digits.noControls_scientific {d : Digits} (h : NoControls d.digits) :
    NoControls d.scientific := by
  have htake := h.subset (List.take_subset 1 d.digits)
  have hdrop := h.subset (List.drop_subset 1 d.digits)
  have hsign : 0x20 ≤ (if d.point - 1 < 0 then '-' else '+').toNat := by
    split <;> decide
  unfold scientific
  dsimp only
  simp only [noControls_append, noControls_cons]
  refine ⟨⟨htake, ?_⟩, by decide, hsign, noControls_digitsOf _⟩
  split
  · exact noControls_nil
  · exact noControls_cons.mpr ⟨by decide, hdrop⟩

/-- Numbers are written without control characters in every layout. -/
theorem Layout.noControls_write (layout : Layout) (x : Float) : NoControls (layout.write x) := by
  have hsign : NoControls (if isNegative x then ['-'] else []) := by
    split <;> simp
  unfold write
  dsimp only
  split
  · simp
  split
  · simpa using hsign
  split
  · cases layout.keepsPoint <;> simpa using hsign
  · rename_i hzero
    have hdigits := (shortest_spec (isDouble_ofFloat x) (mantissa_pos (by simpa using hzero))
      layout.tie).1.isDigit
    have hshortest := noControls_of_isDigit hdigits
    rw [noControls_append]
    refine ⟨hsign, ?_⟩
    unfold unsigned
    dsimp only
    split
    · exact Digits.noControls_plain hshortest _
    split
    · exact Digits.noControls_plain hshortest _
    · exact Digits.noControls_scientific hshortest

end Decimal

/-! ## Quoted texts -/

namespace Text

theorem space_le_digitChar (n : Nat) : 0x20 ≤ (Nat.digitChar n).toNat := by
  have hdigits : ∀ n < 16, 0x20 ≤ (Nat.digitChar n).toNat := by decide
  by_cases hn : n < 16
  · exact hdigits n hn
  · rw [Nat.digitChar_eq_star.mpr (Nat.not_lt.mp hn)]
    decide

theorem noControls_hexDigits (n : Nat) : NoControls (hexDigits n) := by
  unfold hexDigits
  induction n using Nat.strongRecOn with
  | ind n ih =>
    rw [Nat.toDigits_eq_if (by decide)]
    split
    · exact noControls_cons.mpr ⟨space_le_digitChar n, noControls_nil⟩
    · have hquotient := ih (n / 16) (by omega)
      exact noControls_append.mpr ⟨hquotient, noControls_cons.mpr
        ⟨space_le_digitChar _, noControls_nil⟩⟩

theorem space_le_of_showsAsItself {c : Char} (h : showsAsItself c) : 0x20 ≤ c.toNat := by
  by_contra hcontrol
  rw [showsAsItself_of_lt (Nat.not_le.mp hcontrol)] at h
  cases h

/-- Only characters that show as themselves are left as they are. -/
theorem noControls_escape (c : Char) : NoControls (escape c) := by
  unfold escape
  split_ifs with hquote hslash hn hr ht hzero hshows <;>
    simp [noControls_hexDigits, space_le_of_showsAsItself, *]

/-- Quoted texts have no control characters, whatever stands in them. -/
theorem noControls_quoted (cs : List Char) : NoControls (quoted cs) := by
  have hescaped : NoControls (cs.flatMap escape) :=
    noControls_flatMap fun c _ => noControls_escape c
  simpa [quoted] using hescaped

end Text

end DialogueBuild

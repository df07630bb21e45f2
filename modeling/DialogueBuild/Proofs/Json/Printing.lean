import DialogueBuild.Json.Printer
import DialogueBuild.Proofs.Json.Decoding
import DialogueBuild.Proofs.Json.Value
/-!
Printed values are spellings.

The tree of a value is what its text should be read as. Its indented text is derived with the rules
of the grammar, from the pieces of its strings on.

Results:

1. `spellsText_escaped`   escaped characters spell the text of a string;
2. `spells_indented`      the indented text of a value spells its tree.
-/
namespace DialogueBuild.Json

/-! ## Trees of values -/

mutual

/-- The tree that a value is written as. -/
def Value.tree : Value → Tree
  | .null => .scalar .null
  | .bool b => .scalar (.bool b)
  | .number n => .scalar (.number n.numeral)
  | .string s => textTree s
  | .array items => .array (itemTrees items) .closed
  | .object members => .object (memberTrees members) .closed

def itemTrees : List Value → List Tree
  | [] => []
  | item :: rest => item.tree :: itemTrees rest

def memberTrees : List (String × Value) → List (Tree × Tree)
  | [] => []
  | (key, value) :: rest => (textTree key, value.tree) :: memberTrees rest

end

theorem memberTrees_append (front back : List (String × Value)) :
    memberTrees (front ++ back) = memberTrees front ++ memberTrees back := by
  induction front with
  | nil => rfl
  | cons m rest ih => rw [List.cons_append, memberTrees, ih, memberTrees, List.cons_append]

/-! ## Strings -/

/-- The piece that a character is written as. Control characters without a letter of their own are
written as code units. -/
def pieceOf (c : Char) : Piece :=
  if c.toNat < 0x20 ∧ c ≠ '\x08' ∧ c ≠ '\x0c' ∧ c ≠ '\n' ∧ c ≠ '\r' ∧ c ≠ '\t' then .unit c.toNat
  else .char c

theorem spellsHexDigit {n : Nat} (h : n < 16) : SpellsHexDigit n (Nat.digitChar n) := by
  have hdecimal : ∀ n < 10, Nat.digitChar n = Char.ofNat (48 + n) := by decide
  have hsmall : ∀ n < 6, Nat.digitChar (10 + n) = Char.ofNat (97 + n) := by decide
  by_cases hn : n < 10
  · rw [hdecimal n hn]
    exact .decimal hn
  · obtain ⟨k, rfl⟩ := Nat.exists_eq_add_of_le (Nat.not_lt.mp hn)
    rw [hsmall k (by omega)]
    exact .small (by omega)

theorem spellsUnit_hexPair {n : Nat} (h : n < 256) : SpellsUnit n ('0' :: '0' :: hexPair n) := by
  have hzero : SpellsHexDigit 0 '0' := spellsHexDigit (by decide)
  have hunit := SpellsUnit.digits hzero hzero (spellsHexDigit (show n / 16 < 16 by omega))
    (spellsHexDigit (show n % 16 < 16 by omega))
  have hn : 4096 * 0 + 256 * 0 + 16 * (n / 16) + n % 16 = n := by omega
  rw [hn] at hunit
  exact hunit

/-- The characters that are written as a letter behind a backslash. -/
def lettered : List Char := ['"', '\\', '\x08', '\x0c', '\n', '\r', '\t']

theorem spellsPiece_lettered {c : Char} (h : c ∈ lettered) :
    SpellsPiece (pieceOf c) (escape c) := by
  have hletters : lettered.all fun c => c ∈ letterEscapes.map Prod.snd && c ≠ '/' := by decide
  have hwritten : ∀ e ∈ letterEscapes, e.2 ≠ '/' →
      pieceOf e.2 = .char e.2 ∧ escape e.2 = ['\\', e.1] := by decide
  simp only [List.all_eq_true, Bool.and_eq_true, decide_eq_true_eq] at hletters
  obtain ⟨hmem, hne⟩ := hletters c h
  obtain ⟨e, he, rfl⟩ := List.mem_map.mp hmem
  obtain ⟨hpiece, hescape⟩ := hwritten e he hne
  rw [hpiece, hescape]
  exact .letter he

theorem spellsPiece_escape (c : Char) : SpellsPiece (pieceOf c) (escape c) := by
  by_cases hletter : c ∈ lettered
  · exact spellsPiece_lettered hletter
  · simp only [lettered, List.mem_cons, List.not_mem_nil, or_false, not_or] at hletter
    obtain ⟨hquote, hslash, hb, hf, hn, hr, ht⟩ := hletter
    unfold escape
    simp only [if_neg hquote, if_neg hslash, if_neg hb, if_neg hf, if_neg hn, if_neg hr, if_neg ht]
    by_cases hcontrol : c.toNat < 0x20
    · rw [pieceOf, if_pos ⟨hcontrol, hb, hf, hn, hr, ht⟩, if_pos hcontrol]
      exact .unit (spellsUnit_hexPair (by omega))
    · rw [pieceOf, if_neg fun h => hcontrol h.1, if_neg hcontrol]
      exact .plain hquote hslash (by omega)

theorem piecesOf_pieceOf (cs : List Char) : PiecesOf cs (cs.map pieceOf) := by
  induction cs with
  | nil => exact .nil
  | cons c cs ih =>
    rw [List.map_cons]
    by_cases hcontrol : c.toNat < 0x20 ∧ c ≠ '\x08' ∧ c ≠ '\x0c' ∧ c ≠ '\n' ∧ c ≠ '\r' ∧ c ≠ '\t'
    · have hunits : (codeUnits c).map Piece.unit = [.unit c.toNat] := by
        rw [codeUnits, if_pos (by omega)]
        rfl
      have hpieces : PiecesOf (c :: cs) ((codeUnits c).map Piece.unit ++ cs.map pieceOf) :=
        .units ih
      rw [hunits] at hpieces
      rw [pieceOf, if_pos hcontrol]
      exact hpieces
    · rw [pieceOf, if_neg hcontrol]
      exact .char ih

/-- Escaped characters spell the text that they are the characters of. -/
theorem spellsText_escaped (s : String) : SpellsText s (s.toList.flatMap escape) := by
  refine ⟨_, piecesOf_pieceOf s.toList, ?_⟩
  induction s.toList with
  | nil => exact .nil
  | cons c cs ih => exact .cons (spellsPiece_escape c) ih

theorem spellsScalar_stringText (s : String) : SpellsScalar (.string (some s)) (stringText s) :=
  .string (spellsText_escaped s)

/-! ## Values -/

theorem isBlank_newLine (level : Nat) : IsBlank (newLine level) := by
  intro c hc
  rcases List.mem_cons.mp hc with rfl | hc
  · exact .inr (.inl rfl)
  · exact .inl (List.eq_of_mem_replicate hc)

theorem spellsScalar_bool (b : Bool) : SpellsScalar (.bool b) (boolText b) := by
  cases b with
  | true => exact .true
  | false => exact .false

/-- The text of a finite number is a number token. -/
theorem spellsScalar_number {n : Number} (h : n.IsFinite) :
    SpellsScalar (.number n.numeral) n.text := by
  rw [Number.text_eq_numeral h]
  exact .number (spells_text n.wellFormed_numeral)

/-- A key in front of its colon, behind a line break. -/
theorem spellsKey_newLine (level : Nat) (key : String) :
    SpellsKey (textTree key) (newLine level ++ stringText key) := by
  have hkey := SpellsKey.key (isBlank_newLine level) (spellsScalar_stringText key) isBlank_nil
  rwa [List.append_nil] at hkey

theorem isBlank_space : IsBlank [' '] := by
  intro c hc
  exact .inl (List.mem_singleton.mp hc)

mutual

/-- The indented text of a value with finite numbers spells its tree. -/
theorem spells_indented : ∀ {v : Value} (level : Nat), v.IsFinite → Spells v.tree (v.indented level)
  | .null, _, _ => by
    rw [Value.tree, Value.indented]
    exact .scalar .null
  | .bool b, _, _ => by
    rw [Value.tree, Value.indented]
    exact .scalar (spellsScalar_bool b)
  | .number n, _, h => by
    rw [Value.tree, Value.indented]
    exact .scalar (spellsScalar_number (by simpa only [Value.IsFinite] using h))
  | .string s, _, _ => by
    rw [Value.tree, Value.indented]
    exact .scalar (spellsScalar_stringText s)
  | .array [], _, _ => by
    rw [Value.tree, itemTrees, Value.indented]
    exact .noItems isBlank_nil
  | .array (item :: rest), level, h => by
    simp only [Value.IsFinite, finiteItems] at h
    rw [Value.tree, itemTrees, Value.indented]
    have hitems := spellsItems_indented (level + 1) (newLine level) (isBlank_newLine level)
      (spells_indented (level + 1) h.1) h.2
    have harray := Spells.array hitems
    simpa only [List.append_assoc, List.cons_append] using harray
  | .object [], _, _ => by
    rw [Value.tree, memberTrees, Value.indented]
    exact .noMembers isBlank_nil
  | .object ((key, value) :: rest), level, h => by
    simp only [Value.IsFinite, finiteMembers] at h
    rw [Value.tree, memberTrees, Value.indented]
    have hmembers := spellsMembers_indented (level + 1) (newLine level) (isBlank_newLine level) key
      (spells_indented (level + 1) h.1) h.2
    have hobject := Spells.object hmembers
    simpa only [List.append_assoc, List.cons_append, List.nil_append] using hobject

/-- An item, those behind it, and what stands in front of the closing bracket. -/
theorem spellsItems_indented (level : Nat) (after : List Char) (ha : IsBlank after) :
    ∀ {t : Tree} {cs : List Char} {rest : List Value}, Spells t cs → finiteItems rest →
      SpellsItems (t :: itemTrees rest)
        (newLine level ++ cs ++ indentedItems level rest ++ after)
  | _, _, [], ht, _ => by
    rw [itemTrees, indentedItems, List.append_nil]
    exact .one (.value (isBlank_newLine level) ht ha)
  | t, cs, item :: rest, ht, h => by
    simp only [finiteItems] at h
    rw [itemTrees, indentedItems]
    have hrest := spellsItems_indented level after ha (spells_indented level h.1) h.2
    have hpadded := SpellsPadded.value (isBlank_newLine level) ht isBlank_nil
    rw [List.append_nil] at hpadded
    have hitems := SpellsItems.more hpadded hrest
    simpa only [List.append_assoc, List.cons_append] using hitems

/-- A member, those behind it, and what stands in front of the closing bracket. -/
theorem spellsMembers_indented (level : Nat) (after : List Char) (ha : IsBlank after) :
    ∀ (key : String) {t : Tree} {cs : List Char} {rest : List (String × Value)}, Spells t cs →
      finiteMembers rest →
      SpellsMembers ((textTree key, t) :: memberTrees rest)
        (newLine level ++ stringText key ++ ':' :: ' ' :: cs ++ indentedMembers level rest ++ after)
  | key, t, cs, [], ht, _ => by
    rw [memberTrees, indentedMembers, List.append_nil]
    have hmember := SpellsMembers.one (spellsKey_newLine level key) (.value isBlank_space ht ha)
    simpa only [List.append_assoc, List.cons_append, List.nil_append] using hmember
  | key, t, cs, (next, value) :: rest, ht, h => by
    simp only [finiteMembers] at h
    rw [memberTrees, indentedMembers]
    have hrest := spellsMembers_indented level after ha next (spells_indented level h.1) h.2
    have hpadded := SpellsPadded.value isBlank_space ht isBlank_nil
    rw [List.append_nil] at hpadded
    have hmembers := SpellsMembers.more (spellsKey_newLine level key) hpadded hrest
    simpa only [List.append_assoc, List.cons_append, List.nil_append] using hmembers

end

end DialogueBuild.Json

import DialogueBuild.Proofs.Json.Printing
import DialogueBuild.Proofs.Text.Controls
/-!
Compact texts of values.

A compact text is read as the tree of its value, and the tree tells the value: so no two values
share a compact text. Whatever strings a value holds, its compact text is one line.

Results:

1. `spells_compact`       the compact text of a value spells its tree;
2. `compact_inj`          no two values with finite numbers share a compact text;
3. `noControls_compact`   no compact text has a control character.
-/
namespace DialogueBuild.Json

open Text (NoControls noControls_nil noControls_cons noControls_append noControls_flatMap)

/-! ## Compact texts are spellings -/

/-- A key of a compact text stands right in front of its colon. -/
theorem spellsKey_stringText (key : String) : SpellsKey (textTree key) (stringText key) :=
  (spellsScalar_stringText key).key

mutual

/-- The compact text of a value with finite numbers spells its tree. -/
theorem spells_compact : ∀ {v : Value}, v.IsFinite → Spells v.tree v.compact
  | .null, _ => by
    rw [Value.tree, Value.compact]
    exact .scalar .null
  | .bool b, _ => by
    rw [Value.tree, Value.compact]
    exact .scalar (spellsScalar_bool b)
  | .number n, h => by
    rw [Value.tree, Value.compact]
    exact .scalar (spellsScalar_number (by simpa only [Value.IsFinite] using h))
  | .string s, _ => by
    rw [Value.tree, Value.compact]
    exact .scalar (spellsScalar_stringText s)
  | .array [], _ => by
    rw [Value.tree, itemTrees, Value.compact, compactItems]
    exact .noItems isBlank_nil
  | .array (item :: rest), h => by
    simp only [Value.IsFinite, finiteItems] at h
    rw [Value.tree, itemTrees, Value.compact, compactItems]
    exact .array (spellsItems_compact (spells_compact h.1) h.2)
  | .object [], _ => by
    rw [Value.tree, memberTrees, Value.compact, compactMembers]
    exact .noMembers isBlank_nil
  | .object ((key, value) :: rest), h => by
    simp only [Value.IsFinite, finiteMembers] at h
    rw [Value.tree, memberTrees, Value.compact, compactMembers]
    exact .object (spellsMembers_compact key (spells_compact h.1) h.2)

/-- An item and those behind it. -/
theorem spellsItems_compact : ∀ {t : Tree} {cs : List Char} {rest : List Value}, Spells t cs →
    finiteItems rest → SpellsItems (t :: itemTrees rest) (cs ++ compactItemsAfter rest)
  | _, _, [], ht, _ => by
    rw [itemTrees, compactItemsAfter, List.append_nil]
    exact .one ht.padded
  | _, _, item :: rest, ht, h => by
    simp only [finiteItems] at h
    rw [itemTrees, compactItemsAfter]
    exact .more ht.padded (spellsItems_compact (spells_compact h.1) h.2)

/-- A member and those behind it. -/
theorem spellsMembers_compact : ∀ (key : String) {t : Tree} {cs : List Char}
    {rest : List (String × Value)}, Spells t cs → finiteMembers rest →
    SpellsMembers ((textTree key, t) :: memberTrees rest)
      (stringText key ++ ':' :: cs ++ compactMembersAfter rest)
  | key, _, _, [], ht, _ => by
    rw [memberTrees, compactMembersAfter, List.append_nil]
    exact .one (spellsKey_stringText key) ht.padded
  | key, _, _, (next, value) :: rest, ht, h => by
    simp only [finiteMembers] at h
    rw [memberTrees, compactMembersAfter]
    have hrest := spellsMembers_compact next (spells_compact h.1) h.2
    exact .more (spellsKey_stringText key) ht.padded hrest

end

/-- A document with the compact text of a value is read as the tree of the value. -/
theorem ofText_text {v : Value} (h : v.IsFinite) : Document.ofText v.text = ⟨v.tree, false⟩ := by
  have hspelled := (spells_compact h).padded
  exact ofText_spelled (by simpa [Value.text] using hspelled)

/-- The text of a value is decoded as its tree. -/
theorem decode_text {α : Type} {d : Decoder α} {v : Value} {a : α} (hv : v.IsFinite)
    (h : d maxDepth v.tree = .ok a) : decodeText? d v.text = .ok a := by
  simp only [decodeText?, ofText_text hv, h, bind, Except.bind, pure, Except.pure,
    Bool.false_eq_true, ↓reduceIte]

/-! ## Trees tell values apart -/

theorem textTree_inj {s t : String} (h : textTree s = textTree t) : s = t := by
  simpa [textTree] using h

mutual

/-- Values with finite numbers are told apart by their trees. -/
theorem tree_inj : ∀ {v w : Value}, v.IsFinite → w.IsFinite → v.tree = w.tree → v = w
  | .null, w, _, _, h => by
    cases w with
    | null => rfl
    | _ => simp [Value.tree, textTree] at h
  | .bool b, w, _, _, h => by
    cases w with
    | bool c => simpa [Value.tree] using h
    | _ => simp [Value.tree, textTree] at h
  | .number m, w, hv, hw, h => by
    cases w with
    | number n =>
      simp only [Value.tree, Tree.scalar.injEq, Scalar.number.injEq] at h
      simp only [Value.IsFinite] at hv hw
      rw [Number.numeral_inj hv hw h]
    | _ => simp [Value.tree, textTree] at h
  | .string s, w, _, _, h => by
    cases w with
    | string t =>
      simp only [Value.tree] at h
      rw [textTree_inj h]
    | _ => simp [Value.tree, textTree] at h
  | .array items, w, hv, hw, h => by
    cases w with
    | array others =>
      simp only [Value.tree, Tree.array.injEq, and_true] at h
      simp only [Value.IsFinite] at hv hw
      rw [itemTrees_inj hv hw h]
    | _ => simp [Value.tree, textTree] at h
  | .object members, w, hv, hw, h => by
    cases w with
    | object others =>
      simp only [Value.tree, Tree.object.injEq, and_true] at h
      simp only [Value.IsFinite] at hv hw
      rw [memberTrees_inj hv hw h]
    | _ => simp [Value.tree, textTree] at h

theorem itemTrees_inj : ∀ {items others : List Value}, finiteItems items → finiteItems others →
    itemTrees items = itemTrees others → items = others
  | [], others, _, _, h => by
    cases others with
    | nil => rfl
    | cons other rest => simp [itemTrees] at h
  | item :: rest, others, hv, hw, h => by
    cases others with
    | nil => simp [itemTrees] at h
    | cons other rest' =>
      simp only [itemTrees, List.cons.injEq] at h
      simp only [finiteItems] at hv hw
      rw [tree_inj hv.1 hw.1 h.1, itemTrees_inj hv.2 hw.2 h.2]

theorem memberTrees_inj : ∀ {members others : List (String × Value)}, finiteMembers members →
    finiteMembers others → memberTrees members = memberTrees others → members = others
  | [], others, _, _, h => by
    cases others with
    | nil => rfl
    | cons other rest => simp [memberTrees] at h
  | (key, value) :: rest, others, hv, hw, h => by
    cases others with
    | nil => simp [memberTrees] at h
    | cons other rest' =>
      simp only [memberTrees, List.cons.injEq, Prod.mk.injEq] at h
      simp only [finiteMembers] at hv hw
      have hkey := textTree_inj h.1.1
      have hvalue := tree_inj hv.1 hw.1 h.1.2
      rw [hkey, hvalue, memberTrees_inj hv.2 hw.2 h.2]

end

/-- No two values with finite numbers share a compact text. -/
theorem compact_inj {v w : Value} (hv : v.IsFinite) (hw : w.IsFinite)
    (h : v.compact = w.compact) : v = w := by
  have hread : Document.ofText v.text = Document.ofText w.text := by
    rw [Value.text, Value.text, h]
  rw [ofText_text hv, ofText_text hw, Document.mk.injEq] at hread
  exact tree_inj hv hw hread.1

/-! ## Compact texts are one line -/

theorem noControls_hexPair (n : Nat) : NoControls (hexPair n) := by
  simp [hexPair, Text.space_le_digitChar]

theorem noControls_escape (c : Char) : NoControls (escape c) := by
  unfold escape
  split_ifs <;> simp_all [noControls_hexPair]

theorem noControls_stringText (s : String) : NoControls (stringText s) := by
  have hescaped : NoControls (s.toList.flatMap escape) :=
    noControls_flatMap fun c _ => noControls_escape c
  simpa [stringText] using hescaped

theorem Number.noControls_text (n : Number) : NoControls n.text := by
  cases n with
  | int n =>
    show NoControls (intText n)
    unfold intText
    split <;> simp [Text.noControls_digitsOf]
  | float x => exact Decimal.Layout.noControls_write _ x

mutual

/-- No compact text has a control character. -/
theorem noControls_compact : ∀ v : Value, NoControls v.compact
  | .null => by simp [Value.compact]
  | .bool b => by cases b <;> simp [Value.compact, boolText]
  | .number n => by
    rw [Value.compact]
    exact n.noControls_text
  | .string s => by
    rw [Value.compact]
    exact noControls_stringText s
  | .array [] => by simp [Value.compact, compactItems]
  | .array (item :: rest) => by
    simp [Value.compact, compactItems, noControls_compact item, noControls_compactItemsAfter rest]
  | .object [] => by simp [Value.compact, compactMembers]
  | .object ((key, value) :: rest) => by
    simp [Value.compact, compactMembers, noControls_stringText, noControls_compact value,
      noControls_compactMembersAfter rest]

theorem noControls_compactItemsAfter : ∀ items : List Value, NoControls (compactItemsAfter items)
  | [] => by simp [compactItemsAfter]
  | item :: rest => by
    simp [compactItemsAfter, noControls_compact item, noControls_compactItemsAfter rest]

theorem noControls_compactMembersAfter : ∀ members : List (String × Value),
    NoControls (compactMembersAfter members)
  | [] => by simp [compactMembersAfter]
  | (key, value) :: rest => by
    simp [compactMembersAfter, noControls_stringText, noControls_compact value,
      noControls_compactMembersAfter rest]

end

end DialogueBuild.Json

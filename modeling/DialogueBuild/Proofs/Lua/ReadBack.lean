import DialogueBuild.Lua.Table
import DialogueBuild.Proofs.Json.Value
import DialogueBuild.Proofs.Lua.Lexing
/-!
Every value can be read back from its Lua text.

The proof follows the text of a value: what is written for it is split into its own tokens in
front of every boundary, and those take the reader from where a value must come to where that value
is complete, whatever tables are open around it.

Results:

1. `reads_table`        fields that are read one by one are read as one table;
2. `reads_expression`   the text of a value is read as that value, on every level;
3. `readLiteral_text`   a text is read in full, and the value comes back without the null members
                        that were to be dropped.
-/
namespace DialogueBuild.Lua

open Json (Value Number newLine prunedItems prunedMembers finiteItems finiteMembers isFinite_pruned)
open Reader

/-! ## Values as literals -/

mutual

/-- The literal that stands for a value. Arrays have fields without keys, objects have fields with
keys; numbers are known by their text. -/
def Reader.Literal.ofValue : Value → Literal
  | .null => .nil
  | .bool b => .bool b
  | .number n => .numeral n.text
  | .string s => .string s
  | .array items => .table (ofItems items)
  | .object members => .table (ofMembers members)

def Reader.Literal.ofItems : List Value → List (Option String × Literal)
  | [] => []
  | item :: rest => (none, ofValue item) :: ofItems rest

def Reader.Literal.ofMembers : List (String × Value) → List (Option String × Literal)
  | [] => []
  | (key, value) :: rest => (some key, ofValue value) :: ofMembers rest

end

/-- The part of a value that is written. -/
def NullMembers.written : NullMembers → Value → Value
  | .kept, v => v
  | .dropped, v => v.pruned

mutual

/-- Dropping null members while writing is taking them out before. -/
theorem expression_dropped (level : Nat) :
    ∀ v : Value, expression .dropped level v = expression .kept level v.pruned
  | .array items => by
    simp only [expression, Value.pruned, itemFields_dropped]
  | .object members => by
    simp only [expression, Value.pruned, memberFields_dropped]
  | .null | .bool _ | .number _ | .string _ => by simp only [expression, Value.pruned]

theorem itemFields_dropped (level : Nat) :
    ∀ items : List Value,
      itemFields .dropped level items = itemFields .kept level (prunedItems items)
  | [] => by simp only [itemFields, prunedItems]
  | item :: rest => by
    simp only [itemFields, prunedItems, expression_dropped level item,
      itemFields_dropped level rest]

theorem memberFields_dropped (level : Nat) :
    ∀ members : List (String × Value),
      memberFields .dropped level members = memberFields .kept level (prunedMembers members)
  | [] => by simp only [memberFields, prunedMembers]
  | (key, value) :: rest => by
    simp only [memberFields, prunedMembers, NullMembers.keep, reduceCtorEq, decide_false,
      Bool.false_or, Bool.not_eq_true']
    cases hn : value.isNull with
    | true => simpa using memberFields_dropped level rest
    | false =>
      simp [memberFields, NullMembers.keep, expression_dropped level value,
        memberFields_dropped level rest]

end

/-! ## Reading -/

/-- A text is read as a literal wherever a value must come. -/
def Reads (cs : List Char) (l : Literal) : Prop :=
  ∃ ts, Lexes cs ts ∧
    ∀ tables, ts.foldlM Stage.step (.value tables) = some (.after l tables)

/-- A text is read as a field wherever a field must come. -/
def ReadsField (cs : List Char) (field : Option String × Literal) : Prop :=
  ∃ ts, Lexes cs ts ∧
    ∀ fields tables, ts.foldlM Stage.step (.field fields tables)
      = some (.after field.2 (⟨fields, field.1⟩ :: tables))

/-- A value does not start with a word that can be a name. -/
theorem isFree_of_beginValue {tables : List OpenTable} {w : String} {s : Stage}
    (h : beginValue tables (.word w) = some s) : isFree w = false := by
  simp only [beginValue, constant?] at h
  split at h
  · subst_vars
    decide
  split at h
  · subst_vars
    decide
  split at h
  · subst_vars
    decide
  · cases h

theorem beginField_of_beginValue {fields : List (Option String × Literal)}
    {tables : List OpenTable} {t : Token} {s : Stage}
    (h : beginValue (⟨fields, none⟩ :: tables) t = some s) :
    beginField fields tables t = some s := by
  cases t with
  | word w =>
    simp only [beginField, isFree_of_beginValue h, Bool.false_eq_true, ↓reduceIte]
    exact h
  | numeral cs => exact h
  | string s => exact h
  | symbol c =>
    -- no value starts with what ends a table or starts a key
    have hc : c ≠ '}' ∧ c ≠ '[' := by
      refine ⟨?_, ?_⟩ <;> rintro rfl <;> cases h
    simp only [beginField, hc.1, hc.2, ↓reduceIte]
    exact h

/-- A value without a key is a field. -/
theorem Reads.field {cs : List Char} {l : Literal} (h : Reads cs l) : ReadsField cs (none, l) := by
  obtain ⟨ts, hlex, hread⟩ := h
  refine ⟨ts, hlex, fun fields tables => ?_⟩
  have hvalue := hread (⟨fields, none⟩ :: tables)
  cases ts with
  | nil => cases hvalue
  | cons t ts =>
    rw [List.foldlM_cons] at hvalue ⊢
    obtain ⟨s, hs, hrest⟩ := Option.bind_eq_some_iff.mp hvalue
    have hfield : Stage.step (.field fields tables) t = some s := beginField_of_beginValue hs
    rw [hfield]
    exact hrest

theorem step_keyTokens (key : String) (fields : List (Option String × Literal))
    (tables : List OpenTable) :
    (keyTokens key).foldlM Stage.step (.field fields tables) = some (.key key fields tables) := by
  unfold keyTokens
  split
  · rename_i hname
    obtain ⟨-, -, -, -, -, hfree⟩ := word_of_isName hname
    simp [Stage.step, beginField, hfree]
  · rfl

/-- A value behind a key is a field. -/
theorem Reads.named {cs : List Char} {l : Literal} (h : Reads cs l) (key : String) :
    ReadsField (keyText key ++ [' ', '=', ' '] ++ cs) (some key, l) := by
  obtain ⟨ts, hlex, hread⟩ := h
  refine ⟨keyTokens key ++ ([.symbol '='] ++ ts), ?_, fun fields tables => ?_⟩
  · have hequals : Lexes (' ' :: '=' :: ' ' :: cs) ([.symbol '='] ++ ts) := by
      have hvalue : Lexes (' ' :: cs) ts := hlex.blank (by decide)
      exact ((lexes_symbol (by decide)).append hvalue
        fun rest _ => ends_cons (by decide) _).blank (by decide)
    have hfield := (lexes_keyText key).append hequals fun rest _ => ends_cons (by decide) _
    simpa using hfield
  · rw [List.foldlM_append, step_keyTokens]
    exact hread _

/-! ## Tables -/

theorem isBlank_newLine {level : Nat} {c : Char} (h : c ∈ newLine level) : isBlank c := by
  rcases List.mem_cons.mp h with rfl | hspace
  · decide
  · rw [List.eq_of_mem_replicate hspace]
    decide

theorem ends_newLine (level : Nat) (cs rest : List Char) : Ends (newLine level ++ cs ++ rest) :=
  ends_cons (by decide) _

/-- What follows the first field of a table. -/
def behindField (level : Nat) (texts : List (List Char)) : List Char :=
  texts.flatMap (fun f => ',' :: newLine (level + 1) ++ f) ++ newLine level ++ ['}']

theorem ends_behindField (level : Nat) (texts : List (List Char)) (rest : List Char) :
    Ends (behindField level texts ++ rest) := by
  cases texts with
  | nil => exact ends_newLine level _ _
  | cons f fs => exact ends_cons (by decide) _

/-- A text is read as the fields behind a complete one, up to the end of the table. -/
def ReadsBehind (cs : List Char) (fields : List (Option String × Literal)) : Prop :=
  ∃ ts, Lexes cs ts ∧
    ∀ (l : Literal) (table : OpenTable) (tables : List OpenTable),
      ts.foldlM Stage.step (.after l (table :: tables))
        = some (.after (.table (table.close l ++ fields)) tables)

/-- A field and those behind it, behind the mark that comes before them. -/
theorem reads_marked (level : Nat) {f : List Char} {fs : List (List Char)}
    {field : Option String × Literal} {fields : List (Option String × Literal)}
    (hf : ReadsField f field) (hrest : ReadsBehind (behindField level fs) fields) (mark : Char)
    (hmark : mark ∈ symbols) :
    ∃ ts, Lexes (mark :: (newLine (level + 1) ++ (f ++ behindField level fs)))
        (.symbol mark :: ts) ∧
      ∀ before tables, ts.foldlM Stage.step (.field before tables)
        = some (.after (.table (before ++ field :: fields)) tables) := by
  obtain ⟨us, hlexFirst, hreadFirst⟩ := hf
  obtain ⟨ts, hlex, hread⟩ := hrest
  refine ⟨us ++ ts, ?_, fun before tables => ?_⟩
  · have hlines : Lexes (newLine (level + 1) ++ (f ++ behindField level fs)) (us ++ ts) :=
      (hlexFirst.append hlex fun rest _ => ends_behindField level fs rest).blanks
        fun c => isBlank_newLine
    exact (lexes_symbol hmark).append hlines fun rest _ => ends_newLine _ _ rest
  · rw [List.foldlM_append, hreadFirst]
    show ts.foldlM Stage.step _ = _
    rw [hread]
    simp [OpenTable.close]

/-- The fields behind a complete one are added to it, and then the table is complete. -/
theorem reads_behindField (level : Nat) {texts : List (List Char)}
    {fields : List (Option String × Literal)} (h : List.Forall₂ ReadsField texts fields) :
    ReadsBehind (behindField level texts) fields := by
  induction h with
  | nil =>
    refine ⟨[.symbol '}'], ?_, fun l table tables => ?_⟩
    · exact (lexes_symbol (by decide)).blanks fun c => isBlank_newLine
    · simp [Stage.step]
  | @cons f field fs fields hf _ ih =>
    obtain ⟨ts, hlex, hread⟩ := reads_marked level hf ih ',' (by decide)
    refine ⟨.symbol ',' :: ts, ?_, fun l table tables => ?_⟩
    · have htext : behindField level (f :: fs)
          = ',' :: (newLine (level + 1) ++ (f ++ behindField level fs)) := by
        simp [behindField]
      rw [htext]
      exact hlex
    · rw [List.foldlM_cons]
      show ts.foldlM Stage.step (.field (table.close l) tables) = _
      exact hread _ _

/-- Fields that are read one by one are read as one table. -/
theorem reads_table (level : Nat) {texts : List (List Char)}
    {fields : List (Option String × Literal)} (h : List.Forall₂ ReadsField texts fields) :
    Reads (tableText level texts) (.table fields) := by
  cases h with
  | nil =>
    refine ⟨[.symbol '{', .symbol '}'], ?_, fun tables => rfl⟩
    exact (lexes_symbol (c := '{') (by decide)).append (lexes_symbol (c := '}') (by decide))
      fun rest _ => ends_cons (by decide) rest
  | @cons f field fs fields hf hrest =>
    obtain ⟨ts, hlex, hread⟩ :=
      reads_marked level hf (reads_behindField level hrest) '{' (by decide)
    refine ⟨.symbol '{' :: ts, ?_, fun tables => ?_⟩
    · have htext : tableText level (f :: fs)
          = '{' :: (newLine (level + 1) ++ (f ++ behindField level fs)) := by
        simp [tableText, behindField]
      rw [htext]
      exact hlex
    · rw [List.foldlM_cons]
      show ts.foldlM Stage.step (.field [] tables) = _
      exact hread _ _

/-! ## Values -/

theorem lexes_letters {c : Char} {cs : List Char} (hc : isLetter c) (hcs : cs.all isWordPart) :
    Lexes (c :: cs) [.word (String.ofList (c :: cs))] :=
  fun _ hr => tokens_word hc hcs hr.endsWord

theorem reads_constant {c : Char} {cs : List Char} {l : Literal} (hc : isLetter c)
    (hcs : cs.all isWordPart) (h : constant? (String.ofList (c :: cs)) = some l) :
    Reads (c :: cs) l := by
  refine ⟨_, lexes_letters hc hcs, fun tables => ?_⟩
  have hstep : Stage.step (.value tables) (.word (String.ofList (c :: cs)))
      = some (.after l tables) := by
    simp only [Stage.step, beginValue, h, Option.map_some]
  rw [List.foldlM_cons, hstep]
  rfl

theorem reads_number {n : Number} (h : n.IsFinite) : Reads n.text (.numeral n.text) := by
  rw [Json.Number.text_eq_numeral h]
  refine ⟨_, lexes_numeral (Json.Number.wellFormed_numeral n), fun tables => ?_⟩
  unfold numeralTokens Json.Numeral.text Json.Numeral.signText
  cases n.numeral.negative <;> rfl

mutual

/-- The text of a value is read as that value. -/
theorem reads_expression (level : Nat) :
    ∀ {v : Value}, v.IsFinite → Reads (expression .kept level v) (.ofValue v)
  | .null, _ => by
    rw [expression, Literal.ofValue]
    exact reads_constant (by decide) (by decide) rfl
  | .bool true, _ => by
    rw [expression, Literal.ofValue]
    exact reads_constant (by decide) (by decide) rfl
  | .bool false, _ => by
    rw [expression, Literal.ofValue]
    exact reads_constant (by decide) (by decide) rfl
  | .number n, h => by
    rw [Value.IsFinite] at h
    rw [expression, Literal.ofValue]
    exact reads_number h
  | .string s, _ => by
    rw [expression, Literal.ofValue]
    exact ⟨_, lexes_string s, fun _ => rfl⟩
  | .array items, h => by
    rw [Value.IsFinite] at h
    rw [expression, Literal.ofValue]
    exact reads_table level (reads_items (level + 1) h)
  | .object members, h => by
    rw [Value.IsFinite] at h
    rw [expression, Literal.ofValue]
    exact reads_table level (reads_members (level + 1) h)

theorem reads_items (level : Nat) : ∀ {items : List Value}, finiteItems items →
    List.Forall₂ ReadsField (itemFields .kept level items) (Literal.ofItems items)
  | [], _ => by
    rw [itemFields, Literal.ofItems]
    exact .nil
  | item :: rest, h => by
    rw [finiteItems] at h
    rw [itemFields, Literal.ofItems]
    exact .cons (reads_expression level h.1).field (reads_items level h.2)

theorem reads_members (level : Nat) : ∀ {members : List (String × Value)}, finiteMembers members →
    List.Forall₂ ReadsField (memberFields .kept level members) (Literal.ofMembers members)
  | [], _ => by
    rw [memberFields, Literal.ofMembers]
    exact .nil
  | (key, value) :: rest, h => by
    rw [finiteMembers] at h
    rw [memberFields, Literal.ofMembers]
    exact .cons ((reads_expression level h.1).named key) (reads_members level h.2)

end

theorem reads_text (nulls : NullMembers) {v : Value} (h : v.IsFinite) :
    Reads (text nulls v) (.ofValue (nulls.written v)) := by
  cases nulls with
  | kept => exact reads_expression 0 h
  | dropped =>
    unfold text
    rw [expression_dropped]
    exact reads_expression 0 (isFinite_pruned h)

/-- The text of a value is read in full, and the value comes back without the null members that
were to be dropped. -/
theorem readLiteral_text (nulls : NullMembers) {v : Value} (h : v.IsFinite) :
    readLiteral? (text nulls v) = some (.ofValue (nulls.written v)) := by
  obtain ⟨ts, hlex, hread⟩ := reads_text nulls h
  have htokens : tokens? (text nulls v) = some ts := by
    have := hlex [] ends_nil
    rwa [List.append_nil, tokens?, Option.map_some, List.append_nil] at this
  simp only [readLiteral?, htokens, hread, Option.bind_eq_bind, Option.bind_some, Stage.end?]

/-- A reserved word as a key, quotes and a control character in front of a digit in a string, a
null between items, and null members on two levels. -/
theorem readLiteral_text_nested :
    let v : Value := .object
      [("end", .array [.number (.int (-3)), .null, .number (.float 0.5), .array []]),
       ("A", .null), ("say", .string "\"\\\x011"), ("C", .object [("D", .null)])]
    v.IsFinite ∧ readLiteral? (text .dropped v) = some (.table
      [(some "end", .table
        [(none, .numeral ['-', '3']), (none, .nil),
         (none, .numeral (Number.float 0.5).text), (none, .table [])]),
       (some "say", .string "\"\\\x011"), (some "C", .table [])]) := by
  have hhalf : Float.isFinite 0.5 := by decide
  refine ⟨?_, ?_⟩
  · simp [Value.IsFinite, finiteItems, finiteMembers, Number.IsFinite, hhalf]
  · refine (readLiteral_text .dropped ?_).trans ?_
    · simp [Value.IsFinite, finiteItems, finiteMembers, Number.IsFinite, hhalf]
    · rfl

end DialogueBuild.Lua

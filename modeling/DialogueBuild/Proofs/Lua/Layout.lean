import DialogueBuild.Lua.Table
import DialogueBuild.Proofs.Json.Compact
import DialogueBuild.Proofs.Lua.Lexing
import DialogueBuild.Proofs.Text.Indentation
/-!
The lines of a value in Lua.

A value without fields is written on one line, whatever is in its strings. A value with fields is a
table of several lines. Both hold on every level, so that the text of a value on a deeper level is
its text with more blanks behind every newline, and every table is laid out like the outermost one.

Results:

1. `expression_add`             a value on a deeper level is written as its indented text;
2. `exists_laid`                the rules for the lines of values apply to every value;
3. `IsLaid.join`                and the lines that they give are those that are written;
4. `IsLaid.stands`              tables are closed at the indentation of the line that opens them;
5. `layout_is_compositional`    what the lines of a value look like on every level.
-/
namespace DialogueBuild.Lua

open Json (Value Number newLine)
open Text

/-! ## Fields -/

/-- The fields of a table that are written, each behind the text in front of its value. Other values
have none. -/
def fields (nulls : NullMembers) : Value → List (List Char × Value)
  | .array items => items.map fun item => ([], item)
  | .object members =>
    (members.filter fun m => nulls.keep m.2).map fun m => (keyText m.1 ++ [' ', '=', ' '], m.2)
  | .null | .bool _ | .number _ | .string _ => []

/-- A field as it is written on a level. -/
def fieldExpression (nulls : NullMembers) (level : Nat) (f : List Char × Value) : List Char :=
  f.1 ++ expression nulls level f.2

theorem itemFields_eq (nulls : NullMembers) (level : Nat) (items : List Value) :
    itemFields nulls level items
      = (fields nulls (.array items)).map (fieldExpression nulls level) := by
  induction items with
  | nil => rfl
  | cons item rest ih =>
    rw [itemFields, ih]
    rfl

theorem memberFields_eq (nulls : NullMembers) (level : Nat) (members : List (String × Value)) :
    memberFields nulls level members
      = (fields nulls (.object members)).map (fieldExpression nulls level) := by
  induction members with
  | nil => rfl
  | cons m rest ih =>
    obtain ⟨key, value⟩ := m
    rw [memberFields, ih]
    cases hkeep : nulls.keep value <;> simp [fields, fieldExpression, hkeep]

/-- A value with fields is written as a table of them. -/
theorem expression_of_fields {nulls : NullMembers} {v : Value} (h : fields nulls v ≠ [])
    (level : Nat) :
    expression nulls level v
      = tableText level ((fields nulls v).map (fieldExpression nulls (level + 1))) := by
  cases v with
  | array items => rw [expression, itemFields_eq]
  | object members => rw [expression, memberFields_eq]
  | null | bool _ | number _ | string _ => exact absurd rfl h

/-- A value without fields is written alike on all levels. -/
theorem expression_of_no_fields {nulls : NullMembers} {v : Value} (h : fields nulls v = [])
    (level : Nat) : expression nulls level v = text nulls v := by
  unfold text
  cases v with
  | array items =>
    rw [expression, expression, itemFields_eq, itemFields_eq, h]
    rfl
  | object members =>
    rw [expression, expression, memberFields_eq, memberFields_eq, h]
    rfl
  | null | bool _ | number _ | string _ => simp only [expression]

theorem sizeOf_field {nulls : NullMembers} {v : Value} {f : List Char × Value}
    (h : f ∈ fields nulls v) : sizeOf f.2 < sizeOf v := by
  cases v with
  | array items =>
    obtain ⟨item, hitem, rfl⟩ := List.mem_map.mp h
    have hlt := List.sizeOf_lt_of_mem hitem
    simp only [Value.array.sizeOf_spec]
    omega
  | object members =>
    obtain ⟨⟨key, value⟩, hm, rfl⟩ := List.mem_map.mp h
    have hlt := List.sizeOf_lt_of_mem (List.mem_filter.mp hm).1
    simp only [Prod.mk.sizeOf_spec] at hlt
    simp only [Value.object.sizeOf_spec]
    omega
  | null | bool _ | number _ | string _ => cases h

/-- What holds of a value if it holds of its fields holds of all values. -/
theorem induction_fields (nulls : NullMembers) {motive : Value → Prop}
    (step : ∀ v, (∀ f ∈ fields nulls v, motive f.2) → motive v) (v : Value) : motive v :=
  step v fun f _ => induction_fields nulls step f.2
termination_by sizeOf v
decreasing_by exact sizeOf_field ‹_›

/-! ## Texts on one line -/

/-- A text on one line that neither starts with a blank nor ends like a line with a field behind
it. -/
structure IsWord (cs : List Char) : Prop where
  onLine : '\n' ∉ cs
  starts : ∃ c rest, cs = c :: rest ∧ c ≠ ' '
  ends : ∃ front c, cs = front ++ [c] ∧ c ≠ '{' ∧ c ≠ ','

/-- The characters of numbers and constants. -/
def isPlain (c : Char) : Bool := c.isAlphanum || c = '-' || c = '+' || c = '.'

theorem isWord_of_isPlain {cs : List Char} (hne : cs ≠ []) (hall : cs.all isPlain) :
    IsWord cs := by
  have h := List.all_eq_true.mp hall
  have hother {c d : Char} (hc : isPlain c) (hd : isPlain d = false) : c ≠ d := by
    rintro rfl
    exact absurd hc (by simp [hd])
  refine ⟨fun hmem => hother (h _ hmem) (by decide) rfl, ?_, ?_⟩
  · obtain ⟨c, rest, rfl⟩ := List.exists_cons_of_ne_nil hne
    exact ⟨c, rest, rfl, hother (h c (by simp)) (by decide)⟩
  · obtain ⟨front, c, rfl⟩ := (List.eq_nil_or_concat' cs).resolve_left hne
    have hc : isPlain c := h c (by simp)
    exact ⟨front, c, rfl, hother hc (by decide), hother hc (by decide)⟩

theorem isPlain_of_isDigit {c : Char} (h : c.isDigit) : isPlain c := by
  simp [isPlain, Char.isAlphanum, h]

theorem isPlain_digits {cs : List Char} (h : ∀ c ∈ cs, c.isDigit) : cs.all isPlain :=
  List.all_eq_true.mpr fun c hc => isPlain_of_isDigit (h c hc)

theorem isPlain_numeral {t : Json.Numeral} (h : t.WellFormed) : t.text.all isPlain := by
  have hsign : t.signText.all isPlain := by
    unfold Json.Numeral.signText
    split <;> decide
  have hfraction : t.fractionText.all isPlain := by
    unfold Json.Numeral.fractionText
    split
    · decide
    · rw [List.all_cons, isPlain_digits h.fractionDigits]
      decide
  have hexponent : (Json.exponentText t.exponent).all isPlain := by
    cases he : t.exponent with
    | none => decide
    | some e =>
      have hmark : isPlain (if e.negative then '-' else '+') := by split <;> decide
      rw [Json.exponentText, List.all_cons, List.all_cons, hmark,
        isPlain_digits (h.exponentDigits e he).2]
      decide
  simp [Json.Numeral.text, Json.Numeral.tail, hsign, isPlain_digits h.wholeDigits, hfraction,
    hexponent]

theorem isWord_number (n : Number) : IsWord n.text := by
  by_cases hfinite : n.IsFinite
  · obtain ⟨d, ds, hwhole, -⟩ := n.wellFormed_numeral.exists_whole
    rw [Number.text_eq_numeral hfinite]
    refine isWord_of_isPlain ?_ (isPlain_numeral n.wellFormed_numeral)
    simp [Json.Numeral.text, hwhole]
  · -- What is not finite is written as a name, with a sign in front of it or none.
    cases n with
    | int n => exact absurd trivial hfinite
    | float x =>
      have hwords : ∀ word ∈ [['N', 'a', 'N'], ['i', 'n', 'f'], ['-', 'i', 'n', 'f']],
          word ≠ [] ∧ word.all isPlain := by decide
      obtain ⟨hne, hplain⟩ :=
        hwords _ (Json.text_mem_of_not_isFinite (Bool.eq_false_iff.mpr hfinite))
      exact isWord_of_isPlain hne hplain

theorem noControls_escape (c : Char) : NoControls (escape c) := by
  unfold escape
  split_ifs <;> simp_all [threeDigits, space_le_digitChar, isControl]

theorem noControls_stringText (s : String) : NoControls (stringText s) := by
  have hescaped : NoControls (s.toList.flatMap escape) :=
    noControls_flatMap fun c _ => noControls_escape c
  simpa [stringText] using hescaped

/-- A value without fields is written on one line. -/
theorem isWord_text {nulls : NullMembers} {v : Value} (h : fields nulls v = []) :
    IsWord (text nulls v) := by
  have hempty : IsWord ['{', '}'] :=
    ⟨by decide, ⟨_, _, rfl, by decide⟩, ⟨['{'], '}', rfl, by decide⟩⟩
  unfold text
  cases v with
  | null =>
    rw [expression]
    exact isWord_of_isPlain (by decide) (by decide)
  | bool b =>
    rw [expression]
    cases b <;> exact isWord_of_isPlain (by decide) (by decide)
  | number n =>
    rw [expression]
    exact isWord_number n
  | string s =>
    rw [expression]
    exact ⟨(noControls_stringText s).newline_notMem, ⟨'"', _, rfl, by decide⟩,
      ⟨'"' :: s.toList.flatMap escape, '"', rfl, by decide⟩⟩
  | array items => rwa [expression, itemFields_eq, h]
  | object members => rwa [expression, memberFields_eq, h]

/-- The text in front of the value of a field is on one line and starts with no blank. -/
structure IsFront (cs : List Char) : Prop where
  onLine : '\n' ∉ cs
  starts : cs.head? ≠ some ' '

theorem isFront_nil : IsFront [] := ⟨by decide, by decide⟩

theorem isFront_keyText (key : String) : IsFront (keyText key ++ [' ', '=', ' ']) := by
  unfold keyText
  split
  · rename_i hname
    obtain ⟨c, rest, hkey, hletter, hparts, -⟩ := word_of_isName hname
    have hword : ∀ d ∈ c :: rest, Reader.isWordPart d :=
      List.forall_mem_cons.mpr ⟨by simp [Reader.isWordPart, hletter], List.all_eq_true.mp hparts⟩
    have hother {d : Char} (hd : Reader.isWordPart d = false) : d ∉ c :: rest := by
      intro hmem
      rw [hword d hmem] at hd
      cases hd
    rw [hkey]
    refine ⟨?_, fun hhead => hother (d := ' ') (by decide) ?_⟩
    · simp only [List.mem_append, not_or]
      exact ⟨hother (by decide), by decide⟩
    · rw [Option.some.inj hhead]
      exact List.mem_cons_self
  · have hquoted := (noControls_stringText key).newline_notMem
    exact ⟨by simp [bracketed, hquoted], by simp [bracketed]⟩

theorem isFront_of_mem {nulls : NullMembers} {v : Value} {f : List Char × Value}
    (h : f ∈ fields nulls v) : IsFront f.1 := by
  cases v with
  | array items =>
    obtain ⟨item, -, rfl⟩ := List.mem_map.mp h
    exact isFront_nil
  | object members =>
    obtain ⟨m, -, rfl⟩ := List.mem_map.mp h
    exact isFront_keyText m.1
  | null | bool _ | number _ | string _ => cases h

/-! ## Levels -/

theorem indented_newLine (k level : Nat) :
    indented (2 * k) (newLine level) = newLine (level + k) := by
  have hblanks : '\n' ∉ blanks (2 * level) := by simp
  have hwidth : 2 * (level + k) = 2 * k + 2 * level := by omega
  have hline : newLine level = ['\n'] ++ blanks (2 * level) := rfl
  rw [hline, indented_append, indented_of_notMem _ hblanks, newLine, hwidth, List.replicate_add]
  simp [indented]

theorem indented_tableText (k level : Nat) (texts : List (List Char)) :
    indented (2 * k) (tableText level texts)
      = tableText (level + k) (texts.map (indented (2 * k))) := by
  have hlevel : level + 1 + k = level + k + 1 := by omega
  have hbrace : indented (2 * k) ['}'] = ['}'] := rfl
  cases texts with
  | nil => rfl
  | cons first rest =>
    have hrest : indented (2 * k) (rest.flatMap fun f => ',' :: newLine (level + 1) ++ f)
        = (rest.map (indented (2 * k))).flatMap fun f => ',' :: newLine (level + k + 1) ++ f := by
      induction rest with
      | nil => rfl
      | cons f rest ih =>
        rw [List.flatMap_cons, indented_append, indented_append, indented_cons _ (by decide),
          indented_newLine, hlevel, ih, List.map_cons, List.flatMap_cons]
    rw [List.map_cons, tableText, tableText, indented_append, indented_append, indented_append,
      indented_append, indented_cons _ (by decide), indented_newLine, indented_newLine, hlevel,
      hrest, hbrace]

/-- On a deeper level a value is written as its indented text. -/
theorem expression_add (nulls : NullMembers) (k level : Nat) (v : Value) :
    expression nulls (level + k) v = indented (2 * k) (expression nulls level v) := by
  induction v using induction_fields nulls generalizing level with
  | step v ih =>
    by_cases h : fields nulls v = []
    · rw [expression_of_no_fields h, expression_of_no_fields h,
        indented_of_notMem _ (isWord_text h).onLine]
    · have hfields : (fields nulls v).map (fieldExpression nulls (level + k + 1))
          = ((fields nulls v).map (fieldExpression nulls (level + 1))).map (indented (2 * k)) := by
        have hlevel : level + k + 1 = level + 1 + k := by omega
        rw [List.map_map]
        refine List.map_congr_left fun f hf => ?_
        rw [Function.comp_apply, fieldExpression, fieldExpression, indented_append,
          indented_of_notMem _ (isFront_of_mem hf).onLine, hlevel, ih f hf]
      rw [expression_of_fields h, expression_of_fields h, indented_tableText, hfields]

/-! ## Lines -/

/-- What is laid out: a field, with what stands in front of its value and behind it, or all fields
of a table. -/
inductive Part
  | field (front : List Char) (v : Value) (back : List Char)
  | fields (fs : List (List Char × Value))

/-- The rules for the lines of values. A value without fields is one line. A table is opened on a
line and closed on one with the same indentation, and its fields start on lines of their own in
between, two blanks deeper. Behind every field but the last one stands a comma. -/
inductive IsLaid (nulls : NullMembers) : Nat → Part → List (List Char) → Prop
  | line {width : Nat} {front back : List Char} {v : Value} (h : fields nulls v = []) :
      IsLaid nulls width (.field front v back) [blanks width ++ front ++ text nulls v ++ back]
  | table {width : Nat} {front back : List Char} {v : Value} {inner : List (List Char)}
      (h : fields nulls v ≠ [])
      (hinner : IsLaid nulls (width + 2) (.fields (fields nulls v)) inner) :
      IsLaid nulls width (.field front v back)
        ((blanks width ++ front ++ ['{']) :: (inner ++ [blanks width ++ '}' :: back]))
  | last {width : Nat} {f : List Char × Value} {lines : List (List Char)}
      (h : IsLaid nulls width (.field f.1 f.2 []) lines) : IsLaid nulls width (.fields [f]) lines
  | more {width : Nat} {f next : List Char × Value} {rest : List (List Char × Value)}
      {lines others : List (List Char)} (h : IsLaid nulls width (.field f.1 f.2 [',']) lines)
      (hothers : IsLaid nulls width (.fields (next :: rest)) others) :
      IsLaid nulls width (.fields (f :: next :: rest)) (lines ++ others)

/-- The rules apply to every value. -/
theorem exists_laid (nulls : NullMembers) (width : Nat) (front : List Char) (v : Value)
    (back : List Char) : ∃ lines, IsLaid nulls width (.field front v back) lines := by
  induction v using induction_fields nulls generalizing width front back with
  | step v ih =>
    -- By induction on the fields, for the last one has no comma behind it.
    have hfields (fs : List (List Char × Value)) (hfs : fs ⊆ fields nulls v) (hne : fs ≠ []) :
        ∃ inner, IsLaid nulls (width + 2) (.fields fs) inner := by
      induction fs with
      | nil => exact absurd rfl hne
      | cons f rest ihrest =>
        obtain ⟨hf, hrest⟩ := List.cons_subset.mp hfs
        cases rest with
        | nil =>
          obtain ⟨lines, hlines⟩ := ih f hf (width + 2) f.1 []
          exact ⟨lines, .last hlines⟩
        | cons next rest =>
          obtain ⟨lines, hlines⟩ := ih f hf (width + 2) f.1 [',']
          obtain ⟨others, hothers⟩ := ihrest hrest (List.cons_ne_nil next rest)
          exact ⟨lines ++ others, .more hlines hothers⟩
    by_cases h : fields nulls v = []
    · exact ⟨_, .line h⟩
    · obtain ⟨inner, hinner⟩ := hfields _ (List.Subset.refl _) h
      exact ⟨_, .table h hinner⟩

/-- The text of what is laid out, as it is written on a level. -/
def Part.text (nulls : NullMembers) (level : Nat) : Part → List Char
  | .field front v back => newLine level ++ front ++ expression nulls level v ++ back
  | .fields [] => []
  | .fields (f :: rest) =>
    newLine level ++ fieldExpression nulls level f
      ++ rest.flatMap fun g => ',' :: newLine level ++ fieldExpression nulls level g

/-- The lines that the rules give are those that are written. -/
theorem IsLaid.join {nulls : NullMembers} {width : Nat} {part : Part} {lines : List (List Char)}
    (h : IsLaid nulls width part lines) {level : Nat} (hwidth : width = 2 * level) :
    part.text nulls level = lines.flatMap fun line => '\n' :: line := by
  induction h generalizing level with
  | line h =>
    subst hwidth
    simp [Part.text, newLine, expression_of_no_fields h]
  | @table width front back v inner h _ ih =>
    have hinner := @ih (level + 1) (by omega)
    subst hwidth
    obtain ⟨f, rest, hfields⟩ := List.exists_cons_of_ne_nil h
    rw [hfields, Part.text] at hinner
    rw [List.flatMap_cons, List.flatMap_append, ← hinner, Part.text, expression_of_fields h,
      hfields, List.map_cons, tableText, List.flatMap_map]
    simp [newLine]
  | last _ ih =>
    rw [← ih hwidth]
    simp [Part.text, fieldExpression]
  | more _ _ ih ihothers =>
    rw [List.flatMap_append, ← ih hwidth, ← ihothers hwidth]
    simp [Part.text, fieldExpression]

/-! ## Tables -/

/-- Behind a value there is nothing but a comma. -/
def IsBack (cs : List Char) : Prop := cs = [] ∨ cs = [',']

/-- What stands around values leaves their lines whole. -/
def Part.IsSound : Part → Prop
  | .field front _ back => IsFront front ∧ IsBack back
  | .fields fs => ∀ f ∈ fs, IsFront f.1

theorem isSound_fields (nulls : NullMembers) (v : Value) :
    (Part.fields (fields nulls v)).IsSound :=
  fun _ => isFront_of_mem

variable {nulls : NullMembers} {width : Nat} {part : Part} {lines : List (List Char)}

/-- No line has a line end in it. -/
theorem IsLaid.newline_notMem (h : IsLaid nulls width part lines) (hsound : part.IsSound) :
    ∀ line ∈ lines, '\n' ∉ line := by
  have hend {back : List Char} (hback : IsBack back) : '\n' ∉ back := by
    rcases hback with rfl | rfl <;> decide
  induction h with
  | line h =>
    obtain ⟨hfront, hback⟩ := hsound
    simp [hfront.onLine, (isWord_text h).onLine, hend hback]
  | @table width front back v inner _ _ ih =>
    obtain ⟨hfront, hback⟩ := hsound
    have hinner := ih (isSound_fields nulls v)
    simpa [hfront.onLine, hend hback, or_imp, forall_and] using hinner
  | last _ ih => exact ih ⟨hsound _ List.mem_cons_self, .inl rfl⟩
  | more _ _ ih ihothers =>
    obtain ⟨hfirst, hrest⟩ := List.forall_mem_cons.mp hsound
    exact List.forall_mem_append.mpr ⟨ih ⟨hfirst, .inr rfl⟩, ihothers hrest⟩

theorem IsFront.head {front : List Char} (h : IsFront front) {c : Char} (hc : c ≠ ' ')
    (rest : List Char) : (front ++ c :: rest).head? ≠ some ' ' := by
  cases front with
  | nil => simpa using hc
  | cons d front => exact h.starts

/-- A line that a word ends leaves no table open, and a comma behind the word is its end. -/
theorem line_spec (width : Nat) {front word back : List Char} (hfront : IsFront front)
    (hword : IsWord word) (hback : IsBack back) :
    indentation (blanks width ++ front ++ word ++ back) = width
      ∧ ¬ Opens (blanks width ++ front ++ word ++ back)
      ∧ (EndsInComma (blanks width ++ front ++ word ++ back) ↔ back = [',']) := by
  constructor
  · obtain ⟨c, rest, rfl, hc⟩ := hword.starts
    rw [List.append_assoc, List.append_assoc, List.cons_append]
    exact indentation_blanks width (hfront.head hc _)
  · obtain ⟨init, c, rfl, hbrace, hcomma⟩ := hword.ends
    rcases hback with rfl | rfl
    · simp [Opens, EndsInComma, hbrace, hcomma, ← List.append_assoc]
    · simp [Opens, EndsInComma]

/-- The lines of a part, told by how they are indented and how they start and end. -/
def Part.Stands (width : Nat) (lines : List (List Char)) : Part → Prop
  | .field _ _ back => IsField width (back = [',']) lines
  | .fields _ => AreFields width lines

/-- Tables are closed at the indentation of the line that opens them, and commas stand where fields
end that are not the last ones. -/
theorem IsLaid.stands (h : IsLaid nulls width part lines) (hsound : part.IsSound) :
    part.Stands width lines := by
  induction h with
  | @line width front back v h =>
    obtain ⟨hwidth, hopens, hcomma⟩ := line_spec width hsound.1 (isWord_text h) hsound.2
    exact isField_line hwidth hopens hcomma
  | @table width front back v inner _ _ ih =>
    -- The closing brace stands on its line like a value without fields in front of it.
    have hword : IsWord ['}'] :=
      ⟨by decide, ⟨'}', [], rfl, by decide⟩, ⟨[], '}', rfl, by decide⟩⟩
    obtain ⟨hwidth, hend, hcomma⟩ := line_spec width isFront_nil hword hsound.2
    have hclosing : blanks width ++ [] ++ ['}'] ++ back = blanks width ++ '}' :: back := by simp
    rw [hclosing] at hwidth hend hcomma
    have hopening : indentation (blanks width ++ front ++ ['{']) = width := by
      rw [List.append_assoc]
      exact indentation_blanks width (hsound.1.head (by decide) [])
    exact isField_table hopening List.getLast?_concat (ih (isSound_fields nulls v)) hwidth
      (closes_blanks width back) hend hcomma
  | last _ ih =>
    have hfield := ih ⟨hsound _ List.mem_cons_self, .inl rfl⟩
    exact areFields_of_isField (by simpa [Part.Stands] using hfield)
  | more _ _ ih ihothers =>
    obtain ⟨hfirst, hrest⟩ := List.forall_mem_cons.mp hsound
    have hfield := ih ⟨hfirst, .inr rfl⟩
    exact (ihothers hrest).above (by simpa [Part.Stands] using hfield)

/-- The lines of a value on a level, behind the indentation of that level. -/
def linesOf (nulls : NullMembers) (level : Nat) (v : Value) : List (List Char) :=
  split '\n' (blanks (2 * level) ++ expression nulls level v)

/-- Layout is compositional. On every level a value is written as its text with two more blanks for
each level behind every newline. Its lines follow the rules for this value, at the indentation of
the level; and as they stand, every table that a line opens is closed by a line of the same
indentation, the fields in between start two blanks deeper, and each of them ends in a comma if and
only if it is not the last one. -/
theorem layout_is_compositional (nulls : NullMembers) (level : Nat) (v : Value) :
    expression nulls level v = indented (2 * level) (text nulls v)
      ∧ IsLaid nulls (2 * level) (.field [] v []) (linesOf nulls level v)
      ∧ IsNested (linesOf nulls level v) := by
  obtain ⟨lines, hlaid⟩ := exists_laid nulls (2 * level) [] v []
  have hsound : (Part.field [] v []).IsSound := ⟨isFront_nil, .inl rfl⟩
  have hlines : linesOf nulls level v = lines := by
    have hjoin := hlaid.join rfl
    refine split_lines (hlaid.newline_notMem hsound) ?_
    rw [← hjoin]
    simp [Part.text, newLine]
  have hlevel := expression_add nulls level 0 v
  rw [Nat.zero_add] at hlevel
  rw [hlines]
  exact ⟨hlevel, hlaid, (hlaid.stands hsound).nested⟩

/-- A null item counts as a field, and a null member that is dropped does not. -/
example :
    linesOf .dropped 1
        (.object [("end", .array [.null, .string "\x7b\n"]), ("A", .null), ("B", .object [])])
      = ["  \x7b", "    [\"end\"] = \x7b", "      nil,", "      \"\x7b\\n\"", "    \x7d,",
          "    B = \x7b\x7d", "  \x7d"].map String.toList := by
  decide +kernel

end DialogueBuild.Lua

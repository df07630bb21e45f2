import DialogueBuild.Compilation
import DialogueBuild.Proofs.Json.Decoding
/-!
The documents in which compilers hand back their results.

Every detail of a result can be written in several ways; what a document may look like is said for
each type by its list of fields. Whatever ways are chosen, the result is read back.

Results:

1. `decodes_operand`       operands are read back from all of their forms;
2. `Compilation.follows`   every field of a result is read where its name says;
3. `ofText_rendered`       so every document of a result is read as that result.
-/
namespace DialogueBuild

open Json

/-! ## How results are written -/

/-- An operand as a plain value. A float is written as any number that is read as that float. -/
inductive Operand.RendersPlain : Operand → Tree → Prop
  | unset : RendersPlain .unset (.scalar .null)
  | bool (b : Bool) : RendersPlain (.bool b) (.scalar (.bool b))
  | string (s : String) : RendersPlain (.string s) (textTree s)
  | float {numeral : Numeral} {n : Number} (h : numeral.number? = some n) :
    RendersPlain (.float (Operand.ofNumber n)) (.scalar (.number numeral))

/-- The tags under which an operand can be written. -/
def Operand.tags : Operand → List String
  | .unset => []
  | .float _ => ["floatValue", "float_value"]
  | .bool _ => ["boolValue", "bool_value"]
  | .string _ => ["stringValue", "string_value"]

def nullMember (key : String) : Tree × Tree := (textTree key, .scalar .null)

/-- An operand as a plain value, or as an object with a tag and any members over null. -/
inductive Operand.Renders : Operand → Tree → Prop
  | plain {o : Operand} {t : Tree} (h : o.RendersPlain t) : Renders o t
  | tagged {o : Operand} {tag : String} {t : Tree} {before after : List String}
    (htag : tag ∈ o.tags) (h : o.RendersPlain t) (hafter : tag ∉ after) :
    Renders o (.object (before.map nullMember ++ (textTree tag, t) :: after.map nullMember) .closed)
  | untagged (keys : List String) : Renders .unset (.object (keys.map nullMember) .closed)

def OpCode.spellings (c : OpCode) : List String := [c.name, c.capitals]

def Severity.spellings : Severity → List String
  | .info => ["Info", "INFO", "info"]
  | .warning => ["Warning", "WARNING", "warning"]
  | .error => ["Error", "ERROR", "error"]

def Instruction.details : List (Detail Instruction) :=
  [.required "opcode" (RendersVariant OpCode.spellings) opcode,
   .optional "operands" (RendersList Operand.Renders) operands []]

def Header.details : List (Detail Header) :=
  [.required "key" RendersText key, .optional "value" RendersText value ""]

def Node.details : List (Detail Node) :=
  [.optional "name" RendersText name "",
   .optional "instructions" (RendersList (RendersRecord Instruction.details)) instructions [],
   .optional "labels" (RendersTable RendersInt32) labels .empty,
   .optional "tags" (RendersList RendersText) tags [],
   .optional "sourceTextStringID" (RendersOption RendersText) sourceTextId none,
   .optional "headers" (RendersList (RendersRecord Header.details)) headers []]

def Program.details : List (Detail Program) :=
  [.optional "name" RendersText name "",
   .optional "nodes" (RendersTable (RendersRecord Node.details)) nodes .empty,
   .optional "initialValues" (RendersTable Operand.Renders) initialValues .empty]

def StringEntry.details : List (Detail StringEntry) :=
  [.optional "text" RendersText text "",
   .optional "nodeName" RendersText nodeName "",
   .optional "lineNumber" RendersInt32 lineNumber 0,
   .optional "fileName" RendersText fileName "",
   .optional "metadata" (RendersList RendersText) metadata [],
   .optional "isImplicitTag" RendersBool isImplicitTag false]

def Position.details : List (Detail Position) :=
  [.optional "line" RendersInt32 line 0, .optional "character" RendersInt32 character 0]

def Extent.details : List (Detail Extent) :=
  [.optional "start" (RendersRecord Position.details) start ⟨0, 0⟩,
   .optional "end" (RendersRecord Position.details) stop ⟨0, 0⟩]

def Diagnostic.details : List (Detail Diagnostic) :=
  [.required "message" RendersText message,
   .optional "fileName" RendersText fileName "",
   .optional "range" (RendersRecord Extent.details) extent ⟨⟨0, 0⟩, ⟨0, 0⟩⟩,
   .required "severity" (RendersVariant Severity.spellings) severity]

def Compilation.details : List (Detail Compilation) :=
  [.optional "program" (RendersOption (RendersRecord Program.details)) program none,
   .optional "stringTable" (RendersTable (RendersRecord StringEntry.details)) strings .empty,
   .optional "diagnostics" (RendersList (RendersRecord Diagnostic.details)) diagnostics []]

/-- A text is a document of a result. -/
def Compilation.Renders (c : Compilation) (text : String) : Prop :=
  ∃ t, RendersRecord details c t ∧ SpellsPadded t text.toList

/-! ## Operands -/

namespace WireFormatLemmas

/-- The members of an object that are not null. -/
def present (entries : List (String × Value)) : List (String × Value) :=
  entries.filter fun e => !e.2.isNull

theorem present_cons_null {key : String} {value : Value} (h : value.isNull = true)
    (rest : List (String × Value)) : present ((key, value) :: rest) = present rest := by
  simp [present, h]

theorem present_cons_value {key : String} {value : Value} (h : value.isNull = false)
    (rest : List (String × Value)) :
    present ((key, value) :: rest) = (key, value) :: present rest := by
  simp [present, h]

theorem present_insert_null {key : String} {entries : List (String × Value)}
    (h : ∀ e ∈ present entries, e.1 ≠ key) :
    present (insertEntry key .null entries) = present entries := by
  induction entries with
  | nil => rfl
  | cons e rest ih =>
    obtain ⟨k, v⟩ := e
    cases hv : v.isNull with
    | true =>
      rw [present_cons_null hv] at h ⊢
      unfold insertEntry
      split
      · exact present_cons_null rfl rest
      · rw [present_cons_null hv, ih h]
    | false =>
      rw [present_cons_value hv] at h ⊢
      have hk : k ≠ key := h (k, v) List.mem_cons_self
      rw [insertEntry, if_neg hk, present_cons_value hv,
        ih fun e he => h e (List.mem_cons_of_mem _ he)]

theorem present_insert_value {key : String} {value : Value} {entries : List (String × Value)}
    (hvalue : value.isNull = false) (h : present entries = []) :
    present (insertEntry key value entries) = [(key, value)] := by
  induction entries with
  | nil => exact present_cons_value hvalue []
  | cons e rest ih =>
    obtain ⟨k, v⟩ := e
    cases hv : v.isNull with
    | true =>
      rw [present_cons_null hv] at h
      unfold insertEntry
      split
      · rw [present_cons_value hvalue, h]
      · rw [present_cons_null hv, ih h]
    | false =>
      rw [present_cons_value hv] at h
      cases h

/-- Members over null add nothing to those that are not null. -/
theorem decodeMembers_null (room : Nat) (keys : List String) (rest : List (Tree × Tree))
    (entries : List (String × Value)) (h : ∀ e ∈ present entries, e.1 ∉ keys) :
    ∃ entries', present entries' = present entries ∧
      decodeMembers room (keys.map nullMember ++ rest) entries
        = decodeMembers room rest entries' := by
  induction keys generalizing entries with
  | nil => exact ⟨entries, rfl, rfl⟩
  | cons key keys ih =>
    have hinsert : present (insertEntry key .null entries) = present entries :=
      present_insert_null fun e he heq => h e he (by simp [heq])
    obtain ⟨entries', hpresent, hread⟩ := ih (insertEntry key .null entries) fun e he hmem => by
      rw [hinsert] at he
      exact h e he (by simp [hmem])
    refine ⟨entries', hpresent.trans hinsert, ?_⟩
    rw [← hread]
    simp only [List.map_cons, List.cons_append, nullMember, textTree, decodeMembers, decodeKey,
      decodeValue, Scalar.found, bind, Except.bind, pure, Except.pure]

end WireFormatLemmas

open WireFormatLemmas

/-- What a plain operand is as a value. -/
theorem decodeValue_plain {o : Operand} {t : Tree} (h : o.RendersPlain t) :
    ∃ value, (∀ room, decodeValue room t = .ok value) ∧ Operand.ofValue value = .ok o ∧
      ∀ tag ∈ o.tags, value.isNull = false ∧ Operand.ofTagged tag value = .ok o := by
  cases h with
  | unset => exact ⟨.null, fun _ => rfl, rfl, by simp [Operand.tags]⟩
  | bool b =>
    refine ⟨.bool b, fun _ => rfl, rfl, fun tag htag => ⟨rfl, ?_⟩⟩
    simp only [Operand.tags, List.mem_cons, List.not_mem_nil, or_false] at htag
    exact if_pos htag
  | string s =>
    refine ⟨.string s, fun _ => rfl, rfl, fun tag htag => ⟨rfl, ?_⟩⟩
    simp only [Operand.tags, List.mem_cons, List.not_mem_nil, or_false] at htag
    exact if_pos htag
  | @float numeral n hn =>
    refine ⟨.number n, fun room => ?_, rfl, fun tag htag => ⟨rfl, ?_⟩⟩
    · simp only [decodeValue, Scalar.found, hn, bind, Except.bind, pure, Except.pure]
    · simp only [Operand.tags, List.mem_cons, List.not_mem_nil, or_false] at htag
      exact if_pos htag

theorem decode_of_value {o : Operand} {room : Nat} {t : Tree} {value : Value}
    (hread : decodeValue room t = .ok value) (ho : Operand.ofValue value = .ok o) :
    Operand.decode room t = .ok o := by
  simp only [Operand.decode, hread, ho, bind, Except.bind, pure, Except.pure]

theorem decodeValue_object {room : Nat} {members : List (Tree × Tree)}
    {entries : List (String × Value)} (h : decodeMembers room members [] = .ok entries) :
    decodeValue (room + 1) (.object members .closed) = .ok (.object entries) := by
  simp only [decodeValue, enter, h, Ending.check, bind, Except.bind, pure, Except.pure]

/-- What an operand is depends on the members that are not null. -/
theorem ofValue_object (entries : List (String × Value)) :
    Operand.ofValue (.object entries) = match present entries with
      | [] => .ok .unset
      | [(tag, value)] => Operand.ofTagged tag value
      | (first, _) :: (second, _) :: _ => .error (.several first second) := rfl

/-- Operands are read back from all of their forms. -/
theorem decodes_operand : Decodes Operand.decode 1 Operand.Renders := by
  intro o t h room hroom
  obtain ⟨room, rfl⟩ := Nat.exists_eq_add_of_le' hroom
  cases h with
  | plain h =>
    obtain ⟨value, hread, ho, -⟩ := decodeValue_plain h
    exact decode_of_value (hread _) ho
  | @tagged _ tag t before after htag h hafter =>
    obtain ⟨value, hread, -, htags⟩ := decodeValue_plain h
    obtain ⟨hnull, ho⟩ := htags tag htag
    obtain ⟨first, hfirst, hbefore⟩ := decodeMembers_null room before
      ((textTree tag, t) :: after.map nullMember) [] (by simp [present])
    -- the tag may stand over null before, but then it is overwritten
    have hvalue : present (insertEntry tag value first) = [(tag, value)] :=
      present_insert_value hnull (by rw [hfirst]; rfl)
    obtain ⟨last, hlast, hbehind⟩ := decodeMembers_null room after []
      (insertEntry tag value first) (by
        rw [hvalue]
        simpa using hafter)
    have hmembers : decodeMembers room
        (before.map nullMember ++ (textTree tag, t) :: after.map nullMember) [] = .ok last := by
      have hmiddle : decodeMembers room ((textTree tag, t) :: after.map nullMember) first
          = decodeMembers room (after.map nullMember) (insertEntry tag value first) := by
        simp only [textTree, decodeMembers, decodeKey, hread, bind, Except.bind]
      rw [List.append_nil] at hbehind
      rw [hbefore, hmiddle, hbehind, decodeMembers]
    have hobject : Operand.ofValue (.object last) = .ok o := by
      rw [ofValue_object, hlast, hvalue]
      exact ho
    exact decode_of_value (decodeValue_object hmembers) hobject
  | untagged keys =>
    obtain ⟨entries, hentries, hread⟩ :=
      decodeMembers_null room keys [] [] (by simp [present])
    have hmembers : decodeMembers room (keys.map nullMember) [] = .ok entries := by
      rw [List.append_nil] at hread
      rw [hread, decodeMembers]
    have hobject : Operand.ofValue (.object entries) = .ok .unset := by
      rw [ofValue_object, hentries]
      rfl
    exact decode_of_value (decodeValue_object hmembers) hobject

/-! ## Fields -/

theorem not_rendersText_null (s : String) : ¬ RendersText s (.scalar .null) := by
  rintro ⟨⟩

theorem decodes_opcode : Decodes OpCode.decode 0 (RendersVariant OpCode.spellings) := by
  apply decodes_variant
  intro c
  cases c <;> decide

theorem decodes_severity : Decodes Severity.decode 0 (RendersVariant Severity.spellings) := by
  apply decodes_variant
  intro s
  cases s <;> decide

namespace Position

def rows : List (Row Position) :=
  [.optional "line" int32 RendersInt32 line (fun v p => { p with line := v }) 0,
   .optional "character" int32 RendersInt32 character (fun v p => { p with character := v }) 0]

theorem follows : form.Follows rows 0 where
  fields := rfl
  keep := rfl
  rowsSound :=
    ⟨Row.sound_optional decodes_int32 (by decide) rfl (fun _ => rfl) fun _ _ => rfl,
     Row.sound_optional decodes_int32 (by decide) rfl (fun _ => rfl) fun _ _ => rfl⟩
  names := by decide
  apart := by simp [rows, Row.Apart, Row.optional]
  full := by
    rintro ⟨⟩ ⟨⟩ h
    simpa [rows, Row.optional, eq_comm] using h

end Position

namespace Extent

def rows : List (Row Extent) :=
  [.optional "start" Position.decode (RendersRecord Position.details) start
     (fun v e => { e with start := v }) ⟨0, 0⟩,
   .optional "end" Position.decode (RendersRecord Position.details) stop
     (fun v e => { e with stop := v }) ⟨0, 0⟩]

theorem follows : form.Follows rows 1 where
  fields := rfl
  keep := rfl
  rowsSound :=
    ⟨Row.sound_optional (decodes_record Position.follows)
       (by decide) rfl (fun _ => rfl) fun _ _ => rfl,
     Row.sound_optional (decodes_record Position.follows)
       (by decide) rfl (fun _ => rfl) fun _ _ => rfl⟩
  names := by decide
  apart := by simp [rows, Row.Apart, Row.optional]
  full := by
    rintro ⟨⟩ ⟨⟩ h
    simpa [rows, Row.optional, eq_comm] using h

end Extent

namespace Diagnostic

def rows : List (Row Diagnostic) :=
  [.required "message" decodeString RendersText message (fun v d => { d with message := v }),
   .optional "fileName" decodeString RendersText fileName
     (fun v d => { d with fileName := v }) "",
   .optional "range" Extent.decode (RendersRecord Extent.details) extent
     (fun v d => { d with extent := v }) ⟨⟨0, 0⟩, ⟨0, 0⟩⟩,
   .required "severity" Severity.decode (RendersVariant Severity.spellings) severity
     (fun v d => { d with severity := v })]

theorem follows : form.Follows rows 2 where
  fields := rfl
  keep := rfl
  rowsSound :=
    ⟨Row.sound_required decodes_text (by decide) (fun _ => rfl) fun _ _ => rfl,
     Row.sound_optional decodes_text (by decide) rfl (fun _ => rfl) fun _ _ => rfl,
     Row.sound_optional (decodes_record Extent.follows)
       (by decide) rfl (fun _ => rfl) fun _ _ => rfl,
     Row.sound_required decodes_severity (by decide) (fun _ => rfl) fun _ _ => rfl⟩
  names := by decide
  apart := by simp [rows, Row.Apart, Row.optional, Row.required]
  full := by
    rintro ⟨⟩ ⟨⟩ h
    simpa [rows, Row.optional, Row.required, eq_comm] using h

end Diagnostic

namespace StringEntry

def rows : List (Row StringEntry) :=
  [.optional "text" decodeString RendersText text (fun v e => { e with text := v }) "",
   .optional "nodeName" decodeString RendersText nodeName
     (fun v e => { e with nodeName := v }) "",
   .optional "lineNumber" int32 RendersInt32 lineNumber (fun v e => { e with lineNumber := v }) 0,
   .optional "fileName" decodeString RendersText fileName
     (fun v e => { e with fileName := v }) "",
   .optional "metadata" (decodeList decodeString) (RendersList RendersText) metadata
     (fun v e => { e with metadata := v }) [],
   .optional "isImplicitTag" decodeBool RendersBool isImplicitTag
     (fun v e => { e with isImplicitTag := v }) false]

theorem follows : form.Follows rows 1 where
  fields := rfl
  keep := rfl
  rowsSound :=
    ⟨Row.sound_optional decodes_text (by decide) rfl (fun _ => rfl) fun _ _ => rfl,
     Row.sound_optional decodes_text (by decide) rfl (fun _ => rfl) fun _ _ => rfl,
     Row.sound_optional decodes_int32 (by decide) rfl (fun _ => rfl) fun _ _ => rfl,
     Row.sound_optional decodes_text (by decide) rfl (fun _ => rfl) fun _ _ => rfl,
     Row.sound_optional (decodes_list decodes_text) (by decide) rfl (fun _ => rfl) fun _ _ => rfl,
     Row.sound_optional decodes_bool (by decide) rfl (fun _ => rfl) fun _ _ => rfl⟩
  names := by decide
  apart := by simp [rows, Row.Apart, Row.optional]
  full := by
    rintro ⟨⟩ ⟨⟩ h
    simpa [rows, Row.optional, eq_comm] using h

end StringEntry

namespace Instruction

def rows : List (Row Instruction) :=
  [.required "opcode" OpCode.decode (RendersVariant OpCode.spellings) opcode
     (fun v i => { i with opcode := v }),
   .optional "operands" (decodeList Operand.decode) (RendersList Operand.Renders) operands
     (fun v i => { i with operands := v }) []]

theorem follows : form.Follows rows 2 where
  fields := rfl
  keep := rfl
  rowsSound :=
    ⟨Row.sound_required decodes_opcode (by decide) (fun _ => rfl) fun _ _ => rfl,
     Row.sound_optional (decodes_list decodes_operand)
       (by decide) rfl (fun _ => rfl) fun _ _ => rfl⟩
  names := by decide
  apart := by simp [rows, Row.Apart, Row.optional, Row.required]
  full := by
    rintro ⟨⟩ ⟨⟩ h
    simpa [rows, Row.optional, Row.required, eq_comm] using h

end Instruction

namespace Header

def rows : List (Row Header) :=
  [.required "key" decodeString RendersText key (fun v h => { h with key := v }),
   .optional "value" decodeString RendersText value (fun v h => { h with value := v }) ""]

theorem follows : form.Follows rows 0 where
  fields := rfl
  keep := rfl
  rowsSound :=
    ⟨Row.sound_required decodes_text (by decide) (fun _ => rfl) fun _ _ => rfl,
     Row.sound_optional decodes_text (by decide) rfl (fun _ => rfl) fun _ _ => rfl⟩
  names := by decide
  apart := by simp [rows, Row.Apart, Row.optional, Row.required]
  full := by
    rintro ⟨⟩ ⟨⟩ h
    simpa [rows, Row.optional, Row.required, eq_comm] using h

end Header

namespace Node

def rows : List (Row Node) :=
  [.optional "name" decodeString RendersText name (fun v n => { n with name := v }) "",
   .optional "instructions" (decodeList Instruction.decode)
     (RendersList (RendersRecord Instruction.details)) instructions
     (fun v n => { n with instructions := v }) [],
   .optional "labels" (decodeTable int32) (RendersTable RendersInt32) labels
     (fun v n => { n with labels := v }) .empty,
   .optional "tags" (decodeList decodeString) (RendersList RendersText) tags
     (fun v n => { n with tags := v }) [],
   .optional "sourceTextStringID" (decodeOption decodeString) (RendersOption RendersText)
     sourceTextId (fun v n => { n with sourceTextId := v }) none,
   .optional "headers" (decodeList Header.decode) (RendersList (RendersRecord Header.details))
     headers (fun v n => { n with headers := v }) []]

theorem follows : form.Follows rows 4 where
  fields := rfl
  keep := rfl
  rowsSound :=
    ⟨Row.sound_optional decodes_text (by decide) rfl (fun _ => rfl) fun _ _ => rfl,
     Row.sound_optional (decodes_list (decodes_record Instruction.follows))
       (by decide) rfl (fun _ => rfl) fun _ _ => rfl,
     Row.sound_optional (decodes_table decodes_int32) (by decide) rfl (fun _ => rfl) fun _ _ => rfl,
     Row.sound_optional (decodes_list decodes_text) (by decide) rfl (fun _ => rfl) fun _ _ => rfl,
     Row.sound_optional (decodes_option decodes_text not_rendersText_null)
       (by decide) rfl (fun _ => rfl) fun _ _ => rfl,
     Row.sound_optional (decodes_list (decodes_record Header.follows))
       (by decide) rfl (fun _ => rfl) fun _ _ => rfl⟩
  names := by decide
  apart := by simp [rows, Row.Apart, Row.optional]
  full := by
    rintro ⟨⟩ ⟨⟩ h
    simpa [rows, Row.optional, eq_comm] using h

end Node

namespace Program

def rows : List (Row Program) :=
  [.optional "name" decodeString RendersText name (fun v p => { p with name := v }) "",
   .optional "nodes" (decodeTable Node.decode) (RendersTable (RendersRecord Node.details))
     nodes (fun v p => { p with nodes := v }) .empty,
   .optional "initialValues" (decodeTable Operand.decode) (RendersTable Operand.Renders)
     initialValues (fun v p => { p with initialValues := v }) .empty]

theorem follows : form.Follows rows 6 where
  fields := rfl
  keep := rfl
  rowsSound :=
    ⟨Row.sound_optional decodes_text (by decide) rfl (fun _ => rfl) fun _ _ => rfl,
     Row.sound_optional (decodes_table (decodes_record Node.follows))
       (by decide) rfl (fun _ => rfl) fun _ _ => rfl,
     Row.sound_optional (decodes_table decodes_operand)
       (by decide) rfl (fun _ => rfl) fun _ _ => rfl⟩
  names := by decide
  apart := by simp [rows, Row.Apart, Row.optional]
  full := by
    rintro ⟨⟩ ⟨⟩ h
    simpa [rows, Row.optional, eq_comm] using h

end Program

namespace Compilation

def rows : List (Row Compilation) :=
  [.optional "program" (decodeOption Program.decode)
     (RendersOption (RendersRecord Program.details)) program
     (fun v c => { c with program := v }) none,
   .optional "stringTable" (decodeTable StringEntry.decode)
     (RendersTable (RendersRecord StringEntry.details)) strings
     (fun v c => { c with strings := v }) .empty,
   .optional "diagnostics" (decodeList Diagnostic.decode)
     (RendersList (RendersRecord Diagnostic.details)) diagnostics
     (fun v c => { c with diagnostics := v }) []]

theorem follows : form.Follows rows 7 where
  fields := rfl
  keep := rfl
  rowsSound :=
    ⟨Row.sound_optional
       (decodes_option (decodes_record Program.follows) fun _ => not_rendersRecord_null)
       (by decide) rfl (fun _ => rfl) fun _ _ => rfl,
     Row.sound_optional (decodes_table (decodes_record StringEntry.follows))
       (by decide) rfl (fun _ => rfl) fun _ _ => rfl,
     Row.sound_optional (decodes_list (decodes_record Diagnostic.follows))
       (by decide) rfl (fun _ => rfl) fun _ _ => rfl⟩
  names := by decide
  apart := by simp [rows, Row.Apart, Row.optional]
  full := by
    rintro ⟨⟩ ⟨⟩ h
    simpa [rows, Row.optional, eq_comm] using h

end Compilation

/-! ## Documents -/

theorem decodes_compilation :
    Decodes Compilation.decode 8 (RendersRecord Compilation.details) :=
  decodes_record Compilation.follows

/-- Every document of a result is read as that result. -/
theorem Compilation.ofText_rendered {c : Compilation} {text : String} (h : c.Renders text) :
    Compilation.ofText text = .ok c := by
  obtain ⟨t, hrecord, hspelled⟩ := h
  have hdocument := ofText_spelled hspelled
  have hread := decodes_compilation c t hrecord maxDepth (by decide)
  simp only [Compilation.ofText, decodeText?, hdocument, hread, bind, Except.bind, pure,
    Except.pure, Bool.false_eq_true, ↓reduceIte]

set_option maxRecDepth 2000 in
/-- An object over an object, an unknown name over an array, a tagged operand beside another tag,
and a diagnostic as an array with all of its range left out. -/
theorem Compilation.ofText_rendered_mixed :
    let text := "\x7b\"x\":[1E5],\"program\":\x7b\"initialValues\":"
      ++ "\x7b\"a\":\x7b\"boolValue\":null,\"float_value\":1\x7d\x7d\x7d,"
      ++ "\"diagnostics\":[[\"m\",\"\",[],\"ERROR\"]]\x7d"
    let c : Compilation :=
      ⟨some ⟨"", .empty, .ofList [("a", .float (Operand.ofNumber (.int 1)))]⟩, .empty,
        [⟨"m", "", Extent.form.blank, .error⟩]⟩
    c.Renders text ∧ Compilation.ofText text = .ok c := by
  intro text c
  have hstring : ∀ s : String, s.toList.all (fun c => c ≠ '"' && c ≠ '\\' && 0x20 ≤ c.toNat) →
      SpellsScalar (.string (some s)) ('"' :: s.toList ++ ['"']) := fun s h =>
    .string (spellsText_plain h)
  have hlarge : Spells (.scalar (.number ⟨false, ['1'], [], some ⟨false, ['5']⟩⟩))
      ['1', 'E', '5'] := by
    refine .scalar (.number
      ⟨⟨.inl rfl, by simp, by simp, ?_⟩, _, .unsigned (.inr rfl), rfl⟩)
    rintro e ⟨⟩
    exact ⟨by decide, by simp⟩
  have hone : Spells (.scalar (.number ⟨false, ['1'], [], none⟩)) ['1'] :=
    .scalar (.number ⟨⟨.inl rfl, by simp, by simp, by simp⟩, _, .none, rfl⟩)
  have hunknown := Spells.array (.one hlarge.padded)
  have hoperand := Spells.object <|
    .more (hstring "boolValue" (by decide)).key (Spells.scalar .null).padded <|
      .one (hstring "float_value" (by decide)).key hone.padded
  have hvalues := Spells.object (.one (hstring "a" (by decide)).key hoperand.padded)
  have hprogram := Spells.object
    (.one (hstring "initialValues" (by decide)).key hvalues.padded)
  have hdiagnostic := Spells.array <|
    .more (Spells.scalar (hstring "m" (by decide))).padded <|
      .more (Spells.scalar (hstring "" (by decide))).padded <|
        .more (Spells.noItems isBlank_nil).padded <|
          .one (Spells.scalar (hstring "ERROR" (by decide))).padded
  have hspelled := Spells.object <|
    .more (hstring "x" (by decide)).key hunknown.padded <|
      .more (hstring "program" (by decide)).key hprogram.padded <|
        .one (hstring "diagnostics" (by decide)).key (Spells.array (.one hdiagnostic.padded)).padded
  have htext : ∀ {t : Tree} {cs : List Char}, SpellsPadded t cs → cs = text.toList →
      SpellsPadded t text.toList := by
    rintro t cs h rfl
    exact h
  have hrendered : c.Renders text := by
    refine ⟨_, .inl ⟨_, rfl, .unknown (by decide) hunknown <| .first ?_ <| .leftOut rfl <|
      .first ?_ (.done (by simp))⟩, htext hspelled.padded (by simp [text])⟩
    · refine .inl ⟨_, rfl, .leftOut rfl <| .leftOut rfl <| .first ?_ (.done (by simp))⟩
      refine ⟨_, rfl, .cons ⟨rfl, ?_⟩ .nil⟩
      show Operand.Renders _ (.object (["boolValue"].map nullMember
        ++ (textTree "float_value", .scalar (.number _)) :: [].map nullMember) .closed)
      exact .tagged (by simp [Operand.tags]) (.float rfl) (by simp)
    · refine ⟨_, rfl, .cons (.inr ⟨_, rfl, .field rfl <| .field rfl <| .field ?_ <|
        .field ⟨"ERROR", by decide, rfl⟩ (.done (by simp))⟩) .nil⟩
      exact .inr ⟨[], rfl, .done (by simp [Extent.details, Detail.optional, Extent.form])⟩
  exact ⟨hrendered, Compilation.ofText_rendered hrendered⟩

end DialogueBuild

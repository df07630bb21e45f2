import DialogueBuild.Json.Decoder
import DialogueBuild.Proofs.Json.NumberText
import DialogueBuild.Proofs.Json.Reading
import Mathlib.Data.List.Pairwise
/-!
Typed data in documents: how it may be written, and that it is read back.

A record may be written as an object, with its fields in any order and with members that nobody
knows in between, or as an array of its fields in order. In both forms a field may be left out
whose value is its default.

Results:

1. `decodes_list`, `decodes_table`, …   what is written for parts is read as part of a whole;
2. `decodes_record`                     a record is read back from both of its forms.
-/
namespace DialogueBuild.Json

variable {α β : Type}

/-! ## Renderings -/

/-- A text as a tree. -/
def textTree (s : String) : Tree := .scalar (.string (some s))

def RendersText (s : String) (t : Tree) : Prop := t = textTree s

def RendersBool (b : Bool) (t : Tree) : Prop := t = .scalar (.bool b)

/-- A whole number is written in decimal digits, without zeros in front. -/
def RendersInt32 (n : Int32) (t : Tree) : Prop :=
  t = .scalar (.number (Number.int n.toInt).numeral)

def RendersList (R : α → Tree → Prop) (items : List α) (t : Tree) : Prop :=
  ∃ trees, t = .array trees .closed ∧ List.Forall₂ R items trees

/-- The entries of a table are written in their order. -/
def RendersTable (R : α → Tree → Prop) (table : Table α) (t : Tree) : Prop :=
  ∃ members, t = .object members .closed ∧
    List.Forall₂ (fun e m => m.1 = textTree e.1 ∧ R e.2 m.2) table.entries members

def RendersOption (R : α → Tree → Prop) : Option α → Tree → Prop
  | none, t => t = .scalar .null
  | some a, t => R a t

/-- One of several spellings of a value. -/
def RendersVariant (spellings : α → List String) (a : α) (t : Tree) : Prop :=
  ∃ s ∈ spellings a, t = textTree s

/-- A field of a record as it is written. -/
structure Detail (α : Type) where
  name : String
  Renders : α → Tree → Prop
  /-- The field may be left out of this record. -/
  Omits : α → Prop

/-- A field that is always written. -/
def Detail.required (name : String) (R : β → Tree → Prop) (get : α → β) : Detail α :=
  ⟨name, fun a t => R (get a) t, fun _ => False⟩

/-- A field that may be left out when it has its default value. -/
def Detail.optional (name : String) (R : β → Tree → Prop) (get : α → β) (default : β) : Detail α :=
  ⟨name, fun a t => R (get a) t, fun a => get a = default⟩

/-- The members of an object that holds the given fields of a record: the fields in any order, and
unknown names over any values in between. -/
inductive RendersMembers (names : List String) (a : α) : List (Detail α) → List (Tree × Tree) → Prop
  | done {details : List (Detail α)} (h : ∀ p ∈ details, p.Omits a) :
    RendersMembers names a details []
  | field {before after : List (Detail α)} {p : Detail α} {t : Tree} {members : List (Tree × Tree)}
    (h : p.Renders a t) (hrest : RendersMembers names a (before ++ after) members) :
    RendersMembers names a (before ++ p :: after) ((textTree p.name, t) :: members)
  | unknown {details : List (Detail α)} {key : String} {t : Tree} {cs : List Char}
    {members : List (Tree × Tree)} (hkey : key ∉ names) (h : Spells t cs)
    (hrest : RendersMembers names a details members) :
    RendersMembers names a details ((textTree key, t) :: members)

/-- The items of an array that holds the given fields of a record, up to one behind which all
others may be left out. -/
inductive RendersItems (a : α) : List (Detail α) → List Tree → Prop
  | done {details : List (Detail α)} (h : ∀ p ∈ details, p.Omits a) : RendersItems a details []
  | field {details : List (Detail α)} {p : Detail α} {t : Tree} {items : List Tree}
    (h : p.Renders a t) (hrest : RendersItems a details items) :
    RendersItems a (p :: details) (t :: items)

namespace RendersMembers

variable {names : List String} {a : α} {p : Detail α} {details : List (Detail α)} {t : Tree}
  {members : List (Tree × Tree)}

/-- The fields that are written first may be those that are listed first. -/
theorem first (h : p.Renders a t) (hrest : RendersMembers names a details members) :
    RendersMembers names a (p :: details) ((textTree p.name, t) :: members) := by
  have hfield : RendersMembers names a ([] ++ p :: details) ((textTree p.name, t) :: members) :=
    .field h hrest
  exact hfield

/-- A field may be left out among others that are not. -/
theorem leftOut (h : p.Omits a) (hrest : RendersMembers names a details members) :
    RendersMembers names a (p :: details) members := by
  induction hrest with
  | done homits => exact .done (List.forall_mem_cons.mpr ⟨h, homits⟩)
  | @field before after q t members ht _ ih =>
    have hfield : RendersMembers names a ((p :: before) ++ q :: after)
        ((textTree q.name, t) :: members) := .field ht ih
    exact hfield
  | unknown hkey hspelled _ ih => exact .unknown hkey hspelled ih

end RendersMembers

/-- A record with these fields. -/
def RendersRecord (details : List (Detail α)) (a : α) (t : Tree) : Prop :=
  (∃ members, t = .object members .closed ∧
      RendersMembers (details.map Detail.name) a details members) ∨
    ∃ items, t = .array items .closed ∧ RendersItems a details items

/-! ## Reading parts -/

/-- What is written for a value is read as that value, if so many levels of arrays and objects are
allowed in it. -/
def Decodes (d : Decoder α) (depth : Nat) (R : α → Tree → Prop) : Prop :=
  ∀ a t, R a t → ∀ room, depth ≤ room → d room t = .ok a

theorem decodes_text : Decodes decodeString 0 RendersText := by
  rintro s t rfl room -
  rfl

theorem decodes_bool : Decodes decodeBool 0 RendersBool := by
  rintro b t rfl room -
  rfl

/-- Whole numbers of at most 64 bits stay whole. -/
theorem number_intNumeral {n : Int} (hlow : -2 ^ 63 ≤ n) (hhigh : n < 2 ^ 64) :
    (Number.int n).numeral.number? = some (.int n) := by
  have hvalue : digitsValue (Number.int n).numeral.whole = n.natAbs :=
    Decimal.digitsValue_digitsOf n.natAbs
  have hwhole : ((Number.int n).numeral.fraction.isEmpty
      && (Number.int n).numeral.exponent.isNone) = true := rfl
  unfold Numeral.number?
  simp only [hvalue, hwhole, Bool.true_and, Nat.pow_eq]
  by_cases hn : n < 0
  · have hneg : (Number.int n).numeral.negative = true := by simp [Number.numeral, hn]
    have hpos : 0 < n.natAbs ∧ n.natAbs ≤ 2 ^ 63 := by omega
    have hback : -(n.natAbs : Int) = n := by omega
    simp only [hneg, Bool.not_true, Bool.false_and, Bool.false_eq_true, ↓reduceIte, Bool.true_and,
      Bool.and_eq_true, decide_eq_true_eq]
    rw [if_pos hpos, hback]
  · have hneg : (Number.int n).numeral.negative = false := by simp [Number.numeral, hn]
    have hlt : n.natAbs < 2 ^ 64 := by omega
    have hback : (n.natAbs : Int) = n := by omega
    simp only [hneg, Bool.not_false, Bool.true_and, decide_eq_true_eq]
    rw [if_pos hlt, hback]

theorem decodes_int32 : Decodes int32 0 RendersInt32 := by
  rintro n t rfl room -
  have hlow := n.minValue_le_toInt
  have hhigh := n.toInt_le
  have hnumber : (Number.int n.toInt).numeral.number? = some (.int n.toInt) := by
    rw [Int32.toInt_minValue] at hlow
    rw [Int32.toInt_maxValue] at hhigh
    exact number_intNumeral (by omega) (by omega)
  have hfound : (Tree.scalar (.number (Number.int n.toInt).numeral)).found
      = .ok (.number (.int n.toInt)) := by
    simp only [Tree.found, Scalar.found, hnumber]
  have hread : decodeInt32 room (.scalar (.number (Number.int n.toInt).numeral))
      = .ok n.toInt := by
    unfold decodeInt32
    rw [hfound]
    exact if_pos ⟨hlow, hhigh⟩
  unfold int32
  rw [hread]
  exact congrArg Except.ok (Int32.ofInt_toInt n)

theorem decodeItems_rendered {d : Decoder α} {R : α → Tree → Prop} {depth room : Nat}
    (hd : Decodes d depth R) (hroom : depth ≤ room) {items : List α} {trees : List Tree}
    (h : List.Forall₂ R items trees) : decodeItems d room trees = .ok items := by
  induction h with
  | nil => rfl
  | cons hhead _ ih =>
    rw [decodeItems, hd _ _ hhead room hroom, ih]
    rfl

theorem decodes_list {d : Decoder α} {R : α → Tree → Prop} {depth : Nat} (hd : Decodes d depth R) :
    Decodes (decodeList d) (depth + 1) (RendersList R) := by
  rintro items t ⟨trees, rfl, h⟩ room hroom
  obtain ⟨room, rfl⟩ := Nat.exists_eq_add_of_le' hroom
  have hitems : decodeItems d (room + depth) trees = .ok items :=
    decodeItems_rendered hd (by omega) h
  show (do
    let values ← decodeItems d (room + depth) trees
    Ending.closed.check
    return values) = _
  rw [hitems]
  rfl

theorem decodeEntries_rendered {d : Decoder α} {R : α → Tree → Prop} {depth room : Nat}
    (hd : Decodes d depth R) (hroom : depth ≤ room) {entries : List (String × α)}
    {members : List (Tree × Tree)}
    (h : List.Forall₂ (fun e m => m.1 = textTree e.1 ∧ R e.2 m.2) entries members)
    (table : Table α) (hnodup : ((table.entries ++ entries).map Prod.fst).Nodup) :
    ∃ result, decodeEntries d room members table = .ok result ∧
      result.entries = table.entries ++ entries := by
  induction h generalizing table with
  | nil => exact ⟨table, rfl, by simp⟩
  | @cons e m entries members hhead _ ih =>
    obtain ⟨key, tree⟩ := m
    obtain ⟨rfl, hvalue⟩ := hhead
    -- no key comes twice, so every entry is added at the end
    have hinsert : (table.insert e.1 e.2).entries = table.entries ++ [e] :=
      insertEntry_of_nodup hnodup
    have hnodup' : (((table.insert e.1 e.2).entries ++ entries).map Prod.fst).Nodup := by
      rw [hinsert, List.append_assoc]
      exact hnodup
    obtain ⟨result, hresult, hentries⟩ := ih (table.insert e.1 e.2) hnodup'
    refine ⟨result, ?_, ?_⟩
    · rw [decodeEntries, hd _ _ hvalue room hroom]
      exact hresult
    · rw [hentries, hinsert, List.append_assoc]
      rfl

theorem decodes_table {d : Decoder α} {R : α → Tree → Prop} {depth : Nat} (hd : Decodes d depth R) :
    Decodes (decodeTable d) (depth + 1) (RendersTable R) := by
  rintro table t ⟨members, rfl, h⟩ room hroom
  obtain ⟨room, rfl⟩ := Nat.exists_eq_add_of_le' hroom
  have hroom : depth ≤ room + depth := by omega
  obtain ⟨result, hresult, hentries⟩ := decodeEntries_rendered hd hroom h .empty table.nodup
  show (do
    let table ← decodeEntries d (room + depth) members .empty
    Ending.closed.check
    return table) = _
  rw [hresult, Table.ext hentries]
  rfl

/-- No value is written like an absent one. -/
theorem decodes_option {d : Decoder α} {R : α → Tree → Prop} {depth : Nat} (hd : Decodes d depth R)
    (hnull : ∀ a, ¬ R a (.scalar .null)) : Decodes (decodeOption d) depth (RendersOption R) := by
  intro o t h room hroom
  cases o with
  | none =>
    cases h
    rfl
  | some a =>
    have hread := hd a t h room hroom
    unfold decodeOption
    split
    · exact absurd h (hnull a)
    · rw [hread]
      rfl

theorem decodes_variant {variants : List (String × α)} {spellings : α → List String}
    (h : ∀ a, ∀ s ∈ spellings a, findEntry? s variants = some a) :
    Decodes (decodeVariant variants) 0 (RendersVariant spellings) := by
  rintro a t ⟨s, hs, rfl⟩ room -
  show findVariant variants s = _
  rw [findVariant, h a s hs]

/-! ## Reading records -/

/-- A field of a record on both sides: as it is written, as it is read, and as it is copied from
one record to another. -/
structure Row (α : Type) where
  detail : Detail α
  field : Field α
  copy : (source target : α) → α

def Row.required (name : String) (d : Decoder β) (R : β → Tree → Prop) (get : α → β)
    (set : β → α → α) : Row α :=
  ⟨.required name R get, .mustHave name d set, fun a b => set (get a) b⟩

def Row.optional (name : String) (d : Decoder β) (R : β → Tree → Prop) (get : α → β)
    (set : β → α → α) (default : β) : Row α :=
  ⟨.optional name R get default, .mayHave name d set, fun a b => set (get a) b⟩

/-- What a field must satisfy beside the other fields of its record. -/
structure Row.Sound (blank : α) (depth : Nat) (r : Row α) : Prop where
  name : r.field.name = r.detail.name
  read : ∀ a t, r.detail.Renders a t → ∀ room, depth ≤ room → r.field.read room t = .ok (r.copy a)
  omits : ∀ a, r.detail.Omits a → r.field.required = false ∧ ∀ b, r.copy a b = r.copy blank b
  copy_self : ∀ a, r.copy a a = a
  copy_copy : ∀ a b, r.copy a (r.copy a b) = r.copy a b

theorem Row.sound_required {name : String} {d : Decoder β} {R : β → Tree → Prop} {get : α → β}
    {set : β → α → α} {n depth : Nat} {blank : α} (hd : Decodes d n R) (hn : n ≤ depth)
    (hself : ∀ a, set (get a) a = a) (hset : ∀ v a, set v (set v a) = set v a) :
    (Row.required name d R get set).Sound blank depth where
  name := rfl
  read a t ht room hroom := by
    have hread := hd (get a) t ht room (hn.trans hroom)
    show set <$> d room t = _
    rw [hread]
    rfl
  omits a h := h.elim
  copy_self := hself
  copy_copy a := hset (get a)

theorem Row.sound_optional {name : String} {d : Decoder β} {R : β → Tree → Prop} {get : α → β}
    {set : β → α → α} {default : β} {n depth : Nat} {blank : α} (hd : Decodes d n R)
    (hn : n ≤ depth) (hblank : get blank = default) (hself : ∀ a, set (get a) a = a)
    (hset : ∀ v a, set v (set v a) = set v a) :
    (Row.optional name d R get set default).Sound blank depth where
  name := rfl
  read a t ht room hroom := by
    have hread := hd (get a) t ht room (hn.trans hroom)
    show set <$> d room t = _
    rw [hread]
    rfl
  omits a h := by
    refine ⟨rfl, fun b => ?_⟩
    have hget : get a = get blank := h.trans hblank.symm
    show set (get a) b = set (get blank) b
    rw [hget]
  copy_self := hself
  copy_copy a := hset (get a)

/-- Two fields do not touch each other. -/
def Row.Apart (r s : Row α) : Prop := ∀ a b c, r.copy a (s.copy b c) = s.copy b (r.copy a c)

instance : Std.Symm (Row.Apart (α := α)) := ⟨fun _ _ h a b c => (h b a c).symm⟩

/-- A form reads records whose fields are written as the rows say. -/
structure Form.Follows (form : Form α) (rows : List (Row α)) (depth : Nat) : Prop where
  fields : form.fields = rows.map Row.field
  keep : form.keep? = none
  rowsSound : rows.Forall (Row.Sound form.blank depth)
  names : (rows.map fun r => r.detail.name).Nodup
  apart : rows.Pairwise Row.Apart
  /-- A record has no other fields. -/
  full : ∀ a b, (∀ r ∈ rows, r.copy a b = b) → b = a

/-- A field that was not given before is read. -/
theorem Form.fill_field {form : Form α} {room : Nat} {draft : Draft α} {name : String}
    {field : Field α} {t : Tree} {set : α → α}
    (hfield : form.fields.find? (·.name = name) = some field) (hnew : name ∉ draft.given)
    (hread : field.read room t = .ok set) (members : List (Tree × Tree)) :
    form.fill room ((textTree name, t) :: members) draft
      = form.fill room members ⟨name :: draft.given, set draft.filled⟩ := by
  simp only [Form.fill, textTree, decodeKey, hfield, hnew, hread, bind, Except.bind, ↓reduceIte]

namespace Form.Follows

variable {form : Form α} {rows : List (Row α)} {depth room : Nat} {a b : α}

theorem sound (h : form.Follows rows depth) {r : Row α} (hr : r ∈ rows) :
    r.Sound form.blank depth :=
  List.forall_iff_forall_mem.mp h.rowsSound r hr

theorem eq_of_name (h : form.Follows rows depth) {r s : Row α} (hr : r ∈ rows) (hs : s ∈ rows)
    (hname : r.detail.name = s.detail.name) : r = s :=
  List.inj_on_of_nodup_map h.names hr hs hname

/-- A record in which the fields that are left are blank, and the others are as in `a`. -/
def Filled (form : Form α) (rows : List (Row α)) (left : List String) (a b : α) : Prop :=
  ∀ r ∈ rows, r.copy (if r.detail.name ∈ left then form.blank else a) b = b

theorem filled_blank (h : form.Follows rows depth) :
    Filled form rows (rows.map fun r => r.detail.name) a form.blank := by
  intro r hr
  have hmem : r.detail.name ∈ rows.map fun r => r.detail.name := List.mem_map.mpr ⟨r, hr, rfl⟩
  rw [if_pos hmem]
  exact (h.sound hr).copy_self _

/-- Copying a field takes it off those that are left. -/
theorem filled_copy (h : form.Follows rows depth) {left left' : List String}
    (hb : Filled form rows left a b) {r : Row α} (hr : r ∈ rows)
    (hleft : ∀ n, n ∈ left' ↔ n ∈ left ∧ n ≠ r.detail.name) :
    Filled form rows left' a (r.copy a b) := by
  intro s hs
  by_cases hrs : s = r
  · subst hrs
    rw [if_neg fun hmem => ((hleft _).mp hmem).2 rfl]
    exact (h.sound hs).copy_copy a b
  -- another field is as it was, since the two do not touch each other
  · have hname : s.detail.name ≠ r.detail.name := fun hname => hrs (h.eq_of_name hs hr hname)
    have hsame : s.detail.name ∈ left' ↔ s.detail.name ∈ left := by
      rw [hleft]
      exact ⟨fun hmem => hmem.1, fun hmem => ⟨hmem, hname⟩⟩
    have hapart : s.Apart r := h.apart.forall hs hr hrs
    have hold := hb s hs
    simp only [hsame]
    rw [hapart, hold]

/-- Once the fields that are left can be left out, the record is complete. -/
theorem eq_of_filled (h : form.Follows rows depth) {left : List String}
    (hb : Filled form rows left a b)
    (homits : ∀ r ∈ rows, r.detail.name ∈ left → r.detail.Omits a) : b = a := by
  apply h.full
  intro r hr
  have hold := hb r hr
  split at hold
  · rename_i hmem
    rw [((h.sound hr).omits a (homits r hr hmem)).2 b]
    exact hold
  · exact hold

/-! ### Objects -/

theorem find_of_nodup {fields : List (Field α)} (h : (fields.map Field.name).Nodup) {f : Field α}
    (hf : f ∈ fields) : fields.find? (·.name = f.name) = some f := by
  induction fields with
  | nil => cases hf
  | cons g rest ih =>
    obtain ⟨hnot, hrest⟩ := List.nodup_cons.mp h
    rcases List.mem_cons.mp hf with rfl | hmem
    · rw [List.find?_cons_of_pos (by simp)]
    · have hne : ¬ g.name = f.name :=
        fun heq => hnot (heq ▸ List.mem_map.mpr ⟨f, hmem, rfl⟩)
      rw [List.find?_cons_of_neg (by simpa using hne), ih hrest hmem]

theorem names_fields (h : form.Follows rows depth) :
    form.fields.map Field.name = rows.map fun r => r.detail.name := by
  rw [h.fields, List.map_map]
  exact List.map_congr_left fun r hr => (h.sound hr).name

theorem find_field (h : form.Follows rows depth) {r : Row α} (hr : r ∈ rows) :
    form.fields.find? (·.name = r.detail.name) = some r.field := by
  have hnodup : (form.fields.map Field.name).Nodup := by
    rw [h.names_fields]
    exact h.names
  have hmem : r.field ∈ form.fields := by
    rw [h.fields]
    exact List.mem_map.mpr ⟨r, hr, rfl⟩
  rw [← (h.sound hr).name]
  exact find_of_nodup hnodup hmem

theorem find_unknown (h : form.Follows rows depth) {key : String}
    (hkey : key ∉ rows.map fun r => r.detail.name) : form.fields.find? (·.name = key) = none := by
  rw [List.find?_eq_none]
  intro f hf heq
  rw [← h.names_fields] at hkey
  exact hkey (List.mem_map.mpr ⟨f, hf, by simpa using heq⟩)

theorem fill_field (h : form.Follows rows depth) {r : Row α} (hr : r ∈ rows) {draft : Draft α}
    (hnew : r.detail.name ∉ draft.given) {t : Tree} {set : α → α}
    (hread : r.field.read room t = .ok set) (members : List (Tree × Tree)) :
    form.fill room ((textTree r.detail.name, t) :: members) draft
      = form.fill room members ⟨r.detail.name :: draft.given, set draft.filled⟩ :=
  Form.fill_field (h.find_field hr) hnew hread members

theorem fill_unknown (h : form.Follows rows depth) {key : String}
    (hkey : key ∉ rows.map fun r => r.detail.name) {t : Tree} (hskip : skip t = .ok ())
    (members : List (Tree × Tree)) (draft : Draft α) :
    form.fill room ((textTree key, t) :: members) draft = form.fill room members draft := by
  simp only [Form.fill, textTree, decodeKey, h.find_unknown hkey, h.keep, hskip, bind, Except.bind]

/-- Members are read into a record that agrees with the one that was written, once the fields that
are left can be left out. -/
theorem fill_rendered (h : form.Follows rows depth) (hroom : depth ≤ room)
    {details : List (Detail α)} {members : List (Tree × Tree)}
    (hm : RendersMembers (rows.map fun r => r.detail.name) a details members) (draft : Draft α)
    (hdetails : ∀ p ∈ details, p ∈ rows.map Row.detail) (hnodup : (details.map Detail.name).Nodup)
    (hgiven : ∀ r ∈ rows, r.detail.name ∈ draft.given ↔ r.detail.name ∉ details.map Detail.name)
    (hfilled : Filled form rows (details.map Detail.name) a draft.filled) :
    (form.fill room members draft >>= form.complete) = .ok a := by
  -- the names of the fields that are left are those that were not met yet
  induction hm generalizing draft with
  | @done details homits =>
    have hrow : ∀ r ∈ rows, r.detail.name ∈ details.map Detail.name → r.detail.Omits a := by
      intro r hr hmem
      obtain ⟨p, hp, hname⟩ := List.mem_map.mp hmem
      obtain ⟨s, hs, rfl⟩ := List.mem_map.mp (hdetails p hp)
      rw [← h.eq_of_name hs hr hname]
      exact homits _ hp
    have hcomplete : form.complete draft = .ok draft.filled := by
      unfold Form.complete
      have hnone : form.fields.find?
          (fun f => f.required && !draft.given.contains f.name) = none := by
        rw [List.find?_eq_none]
        intro f hf
        rw [h.fields] at hf
        obtain ⟨r, hr, rfl⟩ := List.mem_map.mp hf
        rw [(h.sound hr).name]
        by_cases hmem : r.detail.name ∈ details.map Detail.name
        · simp [((h.sound hr).omits a (hrow r hr hmem)).1]
        · simp [(hgiven r hr).mpr hmem]
      rw [hnone]
    show form.complete draft = _
    rw [hcomplete, h.eq_of_filled hfilled hrow]
  | @field before after p t members ht _ ih =>
    obtain ⟨r, hr, rfl⟩ := List.mem_map.mp (hdetails p (by simp))
    have hread := (h.sound hr).read a t ht room hroom
    have hnew : r.detail.name ∉ draft.given := by
      rw [hgiven r hr]
      simp
    rw [List.map_append, List.map_cons, List.nodup_middle, List.nodup_cons, ← List.map_append]
      at hnodup
    obtain ⟨hnot, hrest⟩ := hnodup
    have hleft : ∀ n, n ∈ (before ++ after).map Detail.name
        ↔ n ∈ (before ++ r.detail :: after).map Detail.name ∧ n ≠ r.detail.name := by
      intro n
      simp only [List.map_append, List.map_cons, List.mem_append, List.mem_cons] at hnot ⊢
      constructor
      · intro hmem
        refine ⟨hmem.imp_right .inr, ?_⟩
        rintro rfl
        exact hnot hmem
      · rintro ⟨hmem | rfl | hmem, hne⟩
        · exact .inl hmem
        · exact absurd rfl hne
        · exact .inr hmem
    rw [h.fill_field hr hnew hread]
    apply ih
    · intro q hq
      apply hdetails q
      rcases List.mem_append.mp hq with hq | hq <;> simp [hq]
    · exact hrest
    · intro s hs
      rw [List.mem_cons, hgiven s hs, hleft]
      tauto
    · exact h.filled_copy hfilled hr hleft
  | unknown hkey hspelled _ ih =>
    -- nothing is read of the value, but it must be one
    rw [h.fill_unknown hkey (skip_spelled hspelled)]
    exact ih draft hdetails hnodup hgiven hfilled

theorem names_details (rows : List (Row α)) :
    (rows.map Row.detail).map Detail.name = rows.map fun r => r.detail.name := by
  rw [List.map_map]
  rfl

/-! ### Arrays -/

/-- Items are read in the order of the fields; those behind the last item stay blank. -/
theorem fillInOrder_rendered (h : form.Follows rows depth) (hroom : depth ≤ room)
    {left : List (Row α)} {items : List Tree} (hm : RendersItems a (left.map Row.detail) items)
    (hleft : ∀ r ∈ left, r ∈ rows) (hnodup : (left.map fun r => r.detail.name).Nodup)
    (hfilled : Filled form rows (left.map fun r => r.detail.name) a b) (index : Nat) :
    form.fillInOrder room .closed (left.map Row.field) items index b = .ok a := by
  induction left generalizing items b index with
  | nil =>
    cases hm with
    | done _ =>
      have heq : b = a := h.eq_of_filled hfilled fun r _ hmem => by cases hmem
      rw [heq]
      rfl
  | cons r left ih =>
    have hr := hleft r (by simp)
    obtain ⟨hnot, hrest⟩ := List.nodup_cons.mp hnodup
    have hnames : ∀ n, n ∈ left.map (fun r => r.detail.name)
        ↔ n ∈ (r :: left).map (fun r => r.detail.name) ∧ n ≠ r.detail.name := by
      intro n
      rw [List.map_cons, List.mem_cons]
      constructor
      · intro hmem
        refine ⟨.inr hmem, ?_⟩
        rintro rfl
        exact hnot hmem
      · rintro ⟨rfl | hmem, hne⟩
        · exact absurd rfl hne
        · exact hmem
    have hcopied := h.filled_copy hfilled hr hnames
    cases hm with
    | done homits =>
      obtain ⟨hrequired, hcopy⟩ := (h.sound hr).omits a (homits r.detail (by simp))
      -- a field that is left out is blank already
      have hblank : r.copy a b = b := by
        have hold := hfilled r hr
        rw [if_pos (by simp)] at hold
        rw [hcopy, hold]
      rw [hblank] at hcopied
      have hlater := ih (.done fun p hp => homits p (by simp [hp]))
        (fun s hs => hleft s (by simp [hs])) hrest hcopied (index + 1)
      simpa only [List.map_cons, Form.fillInOrder, Ending.check, hrequired, bind, Except.bind,
        Bool.false_eq_true, ↓reduceIte] using hlater
    | field ht hitems =>
      have hread := (h.sound hr).read a _ ht room hroom
      have hlater := ih hitems (fun s hs => hleft s (by simp [hs])) hrest hcopied (index + 1)
      simpa only [List.map_cons, Form.fillInOrder, hread, bind, Except.bind] using hlater

end Form.Follows

/-! ### Records -/

/-- A record is not written like an absent value. -/
theorem not_rendersRecord_null {details : List (Detail α)} {a : α} :
    ¬ RendersRecord details a (.scalar .null) := by
  rintro (⟨members, h, -⟩ | ⟨items, h, -⟩) <;> cases h

/-- A record is read back from both of its forms. -/
theorem decodes_record {form : Form α} {rows : List (Row α)} {depth : Nat}
    (h : form.Follows rows depth) :
    Decodes form.decode (depth + 1) (RendersRecord (rows.map Row.detail)) := by
  intro a t ht room hroom
  obtain ⟨room, rfl⟩ := Nat.exists_eq_add_of_le' hroom
  have hroom' : depth ≤ room + depth := by omega
  rcases ht with ⟨members, rfl, hm⟩ | ⟨items, rfl, hm⟩
  · have hnames := Form.Follows.names_details rows
    have hfill := h.fill_rendered hroom' (hnames ▸ hm) ⟨[], form.blank⟩ (fun p hp => hp)
      (hnames ▸ h.names)
      (fun r hr => by
        rw [hnames]
        simp only [List.not_mem_nil, false_iff, not_not]
        exact List.mem_map.mpr ⟨r, hr, rfl⟩)
      (hnames ▸ h.filled_blank)
    show (form.fill (room + depth) members ⟨[], form.blank⟩ >>= form.complete) = _
    exact hfill
  · have hfill := h.fillInOrder_rendered hroom' hm (fun r hr => hr) h.names h.filled_blank 0
    rw [← h.fields] at hfill
    exact hfill

end DialogueBuild.Json

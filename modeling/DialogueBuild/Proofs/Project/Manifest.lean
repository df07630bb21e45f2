import DialogueBuild.Project.Manifest
import DialogueBuild.Proofs.Json.Keeping
/-!
Manifests are read back from their texts.

Results:

1. `sound_ofText`, `sound_new`   what is kept in a manifest is no field and fits into a document;
2. `ofText_text`                 such a manifest is read back, with everything that it keeps.
-/
namespace DialogueBuild.Manifest

open Json

variable {m : Manifest} {room : Nat}

/-! ## What is kept -/

/-- The levels of arrays and objects that a member of a manifest may have. -/
def roomInside : Nat := maxDepth - 1

/-- What the manifest keeps is no field and can be read inside a manifest. -/
def Sound (m : Manifest) : Prop :=
  ∀ e ∈ m.extra.entries, form.fields.find? (·.name = e.1) = none ∧ e.2.Fits roomInside

theorem sound_new (excludeBuilds : Bool) : (new excludeBuilds).Sound := by
  intro e he
  cases he

/-- No field touches what is kept. -/
theorem extra_field {field : Json.Field Manifest} (hfield : field ∈ form.fields) {t : Tree}
    {set : Manifest → Manifest} (hset : field.read room t = .ok set) (m : Manifest) :
    (set m).extra = m.extra := by
  simp only [form, List.mem_cons, List.not_mem_nil, or_false] at hfield
  rcases hfield with rfl | rfl | rfl | rfl | rfl
  all_goals
    obtain ⟨value, -, rfl⟩ := map_eq_ok.mp hset
    rfl

theorem sound_fill {members : List (Tree × Tree)} {draft draft' : Draft Manifest}
    (h : form.fill roomInside members draft = .ok draft') (hdraft : draft.filled.Sound) :
    draft'.filled.Sound := by
  refine Form.fill_invariant ?_ ?_ h hdraft
  · intro field hfield t set hset m hm
    unfold Sound
    rw [extra_field hfield hset]
    exact hm
  · rintro keep name t value ⟨⟩ hunknown hvalue m hm e he
    rcases mem_insertEntry he with rfl | he
    · exact ⟨hunknown, fits_decodeValue hvalue⟩
    · exact hm e he

/-- Manifests that were read are sound. -/
theorem sound_ofText {text : String} (h : ofText text = .ok m) : m.Sound := by
  unfold ofText decodeText? at h
  obtain ⟨found, hfound, h⟩ := bind_eq_ok.mp h
  have hm : found = m := by
    split at h
    · cases h
    · cases h
      rfl
  subst hm
  obtain ⟨members, draft, hdraft, rfl⟩ := Form.decodeObject_eq_ok hfound
  exact sound_fill hdraft (sound_new false)

/-! ## Texts -/

/-- The fields of a manifest as members; absent definitions are left out. -/
def fieldMembers (m : Manifest) : List (String × Value) :=
  [("projectFileVersion", .ofInt32 m.version), ("sourceFiles", .ofTexts m.sourcePatterns),
   ("excludeFiles", .ofTexts m.excludePatterns), ("baseLanguage", .string m.baseLanguage)]
  ++ match m.definitions with
    | some path => [("definitions", .string path)]
    | none => []

theorem toJson_eq (m : Manifest) : m.toJson = .object (m.fieldMembers ++ m.extra.entries) := rfl

theorem itemFloats_texts (texts : List String) : itemFloats (texts.map .string) = [] := by
  induction texts with
  | nil => rfl
  | cons s rest ih => simp only [List.map_cons, itemFloats, ih, Value.floats, List.append_nil]

/-- All floats in a manifest are in what it keeps. -/
theorem floats_toJson (m : Manifest) : m.toJson.floats = memberFloats m.extra.entries := by
  have hfields : memberFloats m.fieldMembers = [] := by
    unfold fieldMembers
    cases m.definitions <;>
      simp [memberFloats, Value.ofInt32, Value.ofInt, Value.ofTexts, Value.floats, itemFloats_texts]
  rw [toJson_eq, Value.floats, memberFloats_append, hfields, List.nil_append]

theorem rendersList_texts (texts : List String) :
    RendersList RendersText texts (Value.ofTexts texts).tree := by
  refine ⟨itemTrees (texts.map .string), by rw [Value.ofTexts, Value.tree], ?_⟩
  induction texts with
  | nil => exact .nil
  | cons s rest ih =>
    rw [List.map_cons, itemTrees, Value.tree]
    exact .cons rfl ih

theorem nodup_fields : (form.fields.map Json.Field.name).Nodup := by
  decide +kernel

/-- A field that was not given before is set to what is read. -/
theorem fill_field {β : Type} {name : String} {required : Bool} {d : Decoder β}
    {set : β → Manifest → Manifest} {given : List String} {t : Tree} {value : β}
    (hfield : ⟨name, required, fun room t => set <$> d room t⟩ ∈ form.fields)
    (hnew : name ∉ given) (hread : d room t = .ok value) (members : List (Tree × Tree))
    (filled : Manifest) :
    form.fill room ((textTree name, t) :: members) ⟨given, filled⟩
      = form.fill room members ⟨name :: given, set value filled⟩ :=
  Form.fill_field (Form.Follows.find_of_nodup nodup_fields hfield) hnew
    (map_eq_ok.mpr ⟨value, hread, rfl⟩) members

/-- The fields that a manifest is written with are read back. -/
theorem fill_fields (m : Manifest) (members : List (Tree × Tree)) :
    ∃ given, "projectFileVersion" ∈ given ∧
      form.fill roomInside (memberTrees m.fieldMembers ++ members) ⟨[], form.blank⟩
        = form.fill roomInside members ⟨given, { m with extra := .empty }⟩ := by
  have hversion := decodes_int32 m.version _ rfl roomInside (Nat.zero_le _)
  have hsources := decodes_list decodes_text m.sourcePatterns _ (rendersList_texts _) roomInside
    (by decide)
  have hexcludes := decodes_list decodes_text m.excludePatterns _ (rendersList_texts _) roomInside
    (by decide)
  have hlanguage := decodes_text m.baseLanguage _ rfl roomInside (Nat.zero_le _)
  have halways (others : List (Tree × Tree)) :
      form.fill roomInside (memberTrees
          [("projectFileVersion", .ofInt32 m.version), ("sourceFiles", .ofTexts m.sourcePatterns),
            ("excludeFiles", .ofTexts m.excludePatterns), ("baseLanguage", .string m.baseLanguage)]
          ++ others) ⟨[], form.blank⟩
        = form.fill roomInside others
          ⟨["baseLanguage", "excludeFiles", "sourceFiles", "projectFileVersion"],
            { m with definitions := none, extra := .empty }⟩ := by
    simp only [memberTrees, List.cons_append, List.nil_append]
    refine (fill_field (.head _) (by simp) hversion _ _).trans ?_
    refine (fill_field (.tail _ (.head _)) (by simp) hsources _ _).trans ?_
    refine (fill_field (.tail _ (.tail _ (.head _))) (by simp) hexcludes _ _).trans ?_
    exact fill_field (.tail _ (.tail _ (.tail _ (.head _)))) (by simp) hlanguage _ _
  rw [fieldMembers, memberTrees_append, List.append_assoc, halways]
  cases hdefinitions : m.definitions with
  | none =>
    refine ⟨_, ?_, rfl⟩
    simp
  | some path =>
    -- a text is not null, so the definitions are given
    have hpath : decodeOption decodeString roomInside (Value.string path).tree
        = .ok (some path) := by
      rw [Value.tree]
      rfl
    refine ⟨_, ?_, fill_field (.tail _ (.tail _ (.tail _ (.tail _ (.head _))))) ?_ hpath _ _⟩
    · simp
    · simp

/-- Everything else is read back behind what was kept before. -/
theorem fill_extra {entries : List (String × Value)}
    (hentries : ∀ e ∈ entries, form.fields.find? (·.name = e.1) = none ∧ e.2.Fits room)
    (hfloats : ∀ x ∈ memberFloats entries, ReadsBack x) (given : List String) (filled : Manifest)
    (hnodup : ((filled.extra.entries ++ entries).map Prod.fst).Nodup) :
    ∃ extra, extra.entries = filled.extra.entries ++ entries ∧
      form.fill room (memberTrees entries) ⟨given, filled⟩
        = .ok ⟨given, { filled with extra := extra }⟩ := by
  induction entries generalizing filled with
  | nil => exact ⟨filled.extra, by simp, rfl⟩
  | cons e rest ih =>
    obtain ⟨key, value⟩ := e
    rw [memberFloats, List.forall_mem_append] at hfloats
    obtain ⟨⟨hunknown, hfits⟩, hrest⟩ := List.forall_mem_cons.mp hentries
    have hinsert : (filled.extra.insert key value).entries
        = filled.extra.entries ++ [(key, value)] := insertEntry_of_nodup hnodup
    obtain ⟨extra, hextra, hfill⟩ := ih hrest hfloats.2
      { filled with extra := filled.extra.insert key value }
      (by rwa [hinsert, List.append_assoc, List.singleton_append])
    refine ⟨extra, ?_, ?_⟩
    · rw [hextra, hinsert, List.append_assoc, List.singleton_append]
    · rw [memberTrees, Form.fill_kept rfl hunknown (decodeValue_tree hfits hfloats.1)]
      exact hfill

theorem complete_of_version {given : List String} (h : "projectFileVersion" ∈ given)
    (filled : Manifest) : form.complete ⟨given, filled⟩ = .ok filled := by
  simp [Form.complete, form, Json.Field.mustHave, Json.Field.mayHave, h]

/-- The tree of a sound manifest is read as the manifest. -/
theorem decode_tree (h : m.Sound) (hfloats : ∀ x ∈ memberFloats m.extra.entries, ReadsBack x) :
    decode maxDepth m.toJson.tree = .ok m := by
  obtain ⟨given, hversion, hfields⟩ := fill_fields m (memberTrees m.extra.entries)
  obtain ⟨extra, hextra, hkept⟩ := fill_extra h hfloats given { m with extra := .empty }
    m.extra.nodup
  have hm : { m with extra := extra } = m := by
    rw [Table.ext hextra]
  rw [toJson_eq, Value.tree, memberTrees_append]
  show (form.fill roomInside (memberTrees m.fieldMembers ++ memberTrees m.extra.entries)
    ⟨[], form.blank⟩ >>= form.complete) = _
  rw [hfields, hkept]
  show form.complete ⟨given, { m with extra := extra }⟩ = _
  rw [complete_of_version hversion, hm]

/-- A sound manifest is read back from its text. -/
theorem ofText_text (h : m.Sound) (hfloats : ∀ x ∈ memberFloats m.extra.entries, ReadsBack x) :
    ofText m.text = .ok m := by
  have hfinite : m.toJson.IsFinite := isFinite_of_floats (by rwa [floats_toJson])
  have hspelled : SpellsPadded m.toJson.tree m.text.toList := by
    have hline : IsBlank ['\n'] := by
      intro c hc
      exact .inr (.inl (List.mem_singleton.mp hc))
    have hpadded := SpellsPadded.value isBlank_nil (spells_indented 0 hfinite) hline
    simpa [text, Value.pretty] using hpadded
  unfold ofText decodeText?
  rw [ofText_spelled hspelled]
  show (decode maxDepth m.toJson.tree >>= fun value => _) = _
  rw [decode_tree h hfloats]
  rfl

end DialogueBuild.Manifest

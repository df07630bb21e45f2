import DialogueBuild.Line
import DialogueBuild.Proofs.Table
/-!
The tags of a line.

A tag is parted at its first colon, and blanks around both halves do not count. So tags that differ
in blanks, or in a missing colon, have the same key, and then the last one has the say; but the key
stands where it came first.

Results:

1. `splitTag_join`             trimmed halves around a colon are parted at it;
2. `normal_parseTag`           what a tag is parted into is trimmed, and is parted in the same way;
3. `tags_ofEntry_eq_none_iff`  a line has no tags if and only if its entry has no metadata;
4. `ofEntry_normalTag`         tags can be replaced by their normal forms;
5. `tags_in_place`             what the tags of a line are.
-/
namespace DialogueBuild

/-! ## Single tags -/

/-- Neither end of the text is blank. -/
def Text.IsTrimmed (cs : List Char) : Prop :=
  (∀ c ∈ cs.head?, isBlank c = false) ∧ ∀ c ∈ cs.getLast?, isBlank c = false

open Text (IsTrimmed)

theorem isTrimmed_trim (cs : List Char) : IsTrimmed (Text.trim cs) :=
  Text.trim_eq_self_iff.mp (Text.trim_trim cs)

theorem colon_notMem_splitTag (raw : List Char) : ':' ∉ (splitTag raw).1 := by
  intro h
  have htaken := (Text.trim_sublist _).subset h
  simpa using List.all_eq_true.mp List.all_takeWhile ':' htaken

/-- Trimmed halves around a colon are parted at it. -/
theorem splitTag_join {key value : List Char} (hcolon : ':' ∉ key) (hkey : IsTrimmed key)
    (hvalue : IsTrimmed value) : splitTag (key ++ ':' :: value) = (key, value) := by
  have hall : ∀ c ∈ key, decide (c ≠ ':') = true := by
    intro c hc
    have hne : c ≠ ':' := ne_of_mem_of_not_mem hc hcolon
    simpa using hne
  have htaken : (key ++ ':' :: value).takeWhile (· ≠ ':') = key := by
    rw [List.takeWhile_append_of_pos hall]
    simp
  have hdropped : (key ++ ':' :: value).dropWhile (· ≠ ':') = ':' :: value := by
    rw [List.dropWhile_append_of_pos hall]
    simp
  rw [splitTag, htaken, hdropped, List.drop_one, List.tail_cons, Text.trim_eq_self_iff.mpr hkey,
    Text.trim_eq_self_iff.mpr hvalue]

/-- A key and a value as a tag of their own. -/
def joinTag (key value : String) : String := key ++ ":" ++ value

/-- A key and a value that a tag can have: they are trimmed, the key has no colon, and the tag that
they make up is parted into them. -/
structure IsNormal (key value : String) : Prop where
  noColon : ':' ∉ key.toList
  trimmedKey : IsTrimmed key.toList
  trimmedValue : IsTrimmed value.toList
  parted : parseTag (joinTag key value) = (key, value)

/-- Every tag has a normal key and a normal value. -/
theorem normal_parseTag (raw : String) : IsNormal (parseTag raw).1 (parseTag raw).2 := by
  have hcolon := colon_notMem_splitTag raw.toList
  have hkey : IsTrimmed (splitTag raw.toList).1 := isTrimmed_trim _
  have hvalue : IsTrimmed (splitTag raw.toList).2 := isTrimmed_trim _
  unfold parseTag
  generalize splitTag raw.toList = halves at hcolon hkey hvalue
  obtain ⟨key, value⟩ := halves
  refine ⟨by simpa using hcolon, by simpa using hkey, by simpa using hvalue, ?_⟩
  have hparted := splitTag_join hcolon hkey hvalue
  simp [parseTag, joinTag, hparted]

/-- The tag in its normal form. -/
def normalTag (raw : String) : String := joinTag (parseTag raw).1 (parseTag raw).2

theorem parseTag_normalTag (raw : String) : parseTag (normalTag raw) = parseTag raw :=
  (normal_parseTag raw).parted

/-! ## Tags of lines -/

namespace Line

theorem tagsOf_eq (raw : List String) :
    tagsOf raw = if raw = [] then none else some (.ofList (raw.map parseTag)) := by
  cases raw <;> rfl

theorem tags_ofEntry_eq_none_iff (e : StringEntry) : (ofEntry e).tags = none ↔ e.metadata = [] := by
  rw [ofEntry, tagsOf_eq]
  split <;> simp_all

theorem tags_ofEntry_eq_some {e : StringEntry} {tags : Table String}
    (h : (ofEntry e).tags = some tags) : tags = .ofList (e.metadata.map parseTag) := by
  rw [ofEntry, tagsOf_eq] at h
  split at h
  · cases h
  · cases h
    rfl

/-- Tags can be replaced by their normal forms. -/
theorem ofEntry_normalTag (e : StringEntry) :
    ofEntry { e with metadata := e.metadata.map normalTag } = ofEntry e := by
  have hsame : (e.metadata.map normalTag).map parseTag = e.metadata.map parseTag := by
    rw [List.map_map]
    exact List.map_congr_left fun raw _ => parseTag_normalTag raw
  rw [ofEntry, ofEntry, tagsOf_eq, tagsOf_eq, hsame]
  simp only [List.map_eq_nil_iff]

/-- The tags of a line are those of its entry: there are none if and only if the entry has no
metadata; else the keys stand where they come first, and their values are those that come last. A
key has no colon, neither key nor value has a blank end, and together they make up a tag with this
key and value, so that every tag can be replaced by its normal form. -/
theorem tags_in_place :
    (∀ e : StringEntry,
      ((ofEntry e).tags = none ↔ e.metadata = [])
        ∧ (∀ tags, (ofEntry e).tags = some tags →
            InFirstPlaces (e.metadata.map fun raw => (parseTag raw).1) tags.keys
              ∧ ∀ key value, tags.get? key = some value
                ↔ LastUnder (e.metadata.map parseTag) key value)
        ∧ ofEntry { e with metadata := e.metadata.map normalTag } = ofEntry e)
      ∧ ∀ raw key value, parseTag raw = (key, value) → IsNormal key value := by
  refine ⟨fun e => ⟨tags_ofEntry_eq_none_iff e, fun tags h => ?_, ofEntry_normalTag e⟩,
    fun raw key value h => ?_⟩
  · obtain rfl := tags_ofEntry_eq_some h
    have hkeys := Table.inFirstPlaces_ofList (e.metadata.map parseTag)
    rw [List.map_map] at hkeys
    exact ⟨hkeys, fun key value => Table.get?_ofList_eq_some_iff⟩
  · have hnormal := normal_parseTag raw
    rwa [h] at hnormal

/-- Two tags whose keys differ in blanks alone, around one without a colon. -/
theorem tags_in_place_repeated :
    ∃ tags,
      (ofEntry ⟨"", "", 0, "", ["mood:angry", " wild", " mood :\ta:b"], false⟩).tags = some tags
      ∧ tags.keys = ["mood", "wild"] ∧ tags.get? "mood" = some "a:b" := by
  refine ⟨_, rfl, by decide, ?_⟩
  have hvalue := ((tags_in_place.1
    ⟨"", "", 0, "", ["mood:angry", " wild", " mood :\ta:b"], false⟩).2.1 _ rfl).2 "mood" "a:b"
  exact hvalue.mpr ⟨[("mood", "angry"), ("wild", "")], [], by decide, by decide⟩

end Line

end DialogueBuild

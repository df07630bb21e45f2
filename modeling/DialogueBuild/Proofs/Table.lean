import DialogueBuild.Table
import Mathlib.Data.List.Basic
import Mathlib.Data.List.Induction
/-!
Tables that are written entry by entry.

A name that comes again keeps its place and takes the new value. So the names of a table stand in
the order of their first entries, and the values are those of the last ones.

Results:

1. `InFirstPlaces.concat`        what one more entry does to the names;
2. `lastUnder_concat`            and to the values;
3. `inFirstPlaces_ofList`        the names stand in the order of their first entries;
4. `get?_ofList_eq_some_iff`, `get?_ofList`
                                 the value of a name is that of its last entry.
-/
namespace DialogueBuild

/-! ## Places of names -/

/-- The distinct names of a list, in the order of their first places in it. -/
structure InFirstPlaces (all keys : List String) : Prop where
  mem_iff : ∀ k, k ∈ keys ↔ k ∈ all
  ascending : keys.Pairwise fun a b => all.idxOf a < all.idxOf b

theorem inFirstPlaces_nil : InFirstPlaces [] [] := ⟨fun _ => Iff.rfl, .nil⟩

/-- One more name: it counts if it is a new one. -/
theorem InFirstPlaces.concat {all keys : List String} (h : InFirstPlaces all keys) (key : String) :
    InFirstPlaces (all ++ [key]) (if key ∈ keys then keys else keys ++ [key]) := by
  have hplace {a : String} (ha : a ∈ keys) : (all ++ [key]).idxOf a = all.idxOf a :=
    List.idxOf_append_of_mem ((h.mem_iff a).mp ha)
  have hold : keys.Pairwise fun a b => (all ++ [key]).idxOf a < (all ++ [key]).idxOf b :=
    h.ascending.imp_of_mem fun ha hb hlt => by rwa [hplace ha, hplace hb]
  by_cases hkey : key ∈ keys
  · rw [if_pos hkey]
    refine ⟨fun k => ?_, hold⟩
    rw [h.mem_iff, List.mem_append, List.mem_singleton]
    constructor
    · exact .inl
    · rintro (hk | rfl)
      · exact hk
      · exact (h.mem_iff k).mp hkey
  · rw [if_neg hkey]
    have hnew : key ∉ all := mt (h.mem_iff key).mpr hkey
    refine ⟨fun k => ?_, List.pairwise_append.mpr ⟨hold, List.pairwise_singleton _ _, ?_⟩⟩
    · rw [List.mem_append, List.mem_append, h.mem_iff]
    · intro a ha b hb
      rw [List.mem_singleton.mp hb, hplace ha, List.idxOf_append_of_notMem hnew]
      have hlt := List.idxOf_lt_length_of_mem ((h.mem_iff a).mp ha)
      omega

/-! ## Last values -/

variable {α : Type} {entries : List (String × α)} {key k : String} {value v : α}

/-- The value of the last entry under a name. -/
def LastUnder (entries : List (String × α)) (key : String) (value : α) : Prop :=
  ∃ before after, entries = before ++ (key, value) :: after ∧ key ∉ after.map Prod.fst

theorem not_lastUnder_nil : ¬ LastUnder [] key value := by
  rintro ⟨before, after, h, -⟩
  simp at h

/-- A list with one more item at its end, parted at an item: that is the last one, or one of the
others. -/
theorem concat_eq_append_cons {xs before after : List α} {e x : α} :
    xs ++ [e] = before ++ x :: after
      ↔ (after = [] ∧ xs = before ∧ e = x)
        ∨ ∃ later, after = later ++ [e] ∧ xs = before ++ x :: later := by
  have hinj (ys : List α) (y : α) : xs ++ [e] = ys ++ [y] ↔ xs = ys ∧ e = y := by simp
  rcases List.eq_nil_or_concat' after with rfl | ⟨later, last, rfl⟩
  · simp [hinj]
  · have hassoc : before ++ x :: (later ++ [last]) = (before ++ x :: later) ++ [last] := by simp
    rw [hassoc, hinj]
    constructor
    · rintro ⟨rfl, rfl⟩
      exact .inr ⟨later, rfl, rfl⟩
    · rintro (⟨hnil, -⟩ | ⟨others, heq, rfl⟩)
      · simp at hnil
      · obtain ⟨rfl, rfl⟩ : later = others ∧ last = e := by simpa using heq
        exact ⟨rfl, rfl⟩

theorem lastUnder_concat :
    LastUnder (entries ++ [(key, value)]) k v ↔ if k = key then v = value
      else LastUnder entries k v := by
  split
  · rename_i hk
    subst hk
    constructor
    · rintro ⟨before, after, heq, hafter⟩
      obtain ⟨-, -, he⟩ | ⟨later, rfl, -⟩ := concat_eq_append_cons.mp heq
      · exact (congrArg Prod.snd he).symm
      · simp at hafter
    · rintro rfl
      exact ⟨entries, [], rfl, by simp⟩
  · rename_i hk
    constructor
    · rintro ⟨before, after, heq, hafter⟩
      obtain ⟨-, -, he⟩ | ⟨later, rfl, hothers⟩ := concat_eq_append_cons.mp heq
      · exact absurd (congrArg Prod.fst he).symm hk
      · exact ⟨before, later, hothers, fun hmem => hafter (by simp [List.mem_map.mp hmem])⟩
    · rintro ⟨before, after, rfl, hafter⟩
      refine ⟨before, after ++ [(key, value)], by simp, ?_⟩
      simpa [hk] using hafter

/-! ## Tables -/

namespace Table

theorem ofList_concat (entries : List (String × α)) (key : String) (value : α) :
    ofList (entries ++ [(key, value)]) = (ofList entries).insert key value := by
  simp [ofList]

/-- The names of a table stand in the order of their first entries. -/
theorem inFirstPlaces_ofList (entries : List (String × α)) :
    InFirstPlaces (entries.map Prod.fst) (ofList entries).keys := by
  induction entries using List.reverseRecOn with
  | nil => exact inFirstPlaces_nil
  | append_singleton entries e ih =>
    rw [ofList_concat, keys_insert, List.map_append, List.map_singleton]
    exact ih.concat e.1

/-- The value of a name is that of its last entry. -/
theorem get?_ofList_eq_some_iff : (ofList entries).get? k = some v ↔ LastUnder entries k v := by
  induction entries using List.reverseRecOn with
  | nil => exact iff_of_false (by simp [ofList, get?, empty, findEntry?]) not_lastUnder_nil
  | append_singleton entries e ih =>
    rw [ofList_concat, lastUnder_concat]
    by_cases hk : k = e.1
    · subst hk
      rw [get?_insert_self, if_pos rfl, Option.some.injEq, eq_comm]
    · rw [get?_insert_of_ne _ _ hk, if_neg hk, ih]

theorem get?_ofList (entries : List (String × α)) (key : String) :
    (ofList entries).get? key = entries.reverse.lookup key := by
  induction entries using List.reverseRecOn with
  | nil => rfl
  | append_singleton entries e ih =>
    rw [ofList_concat, List.reverse_append, List.reverse_singleton, List.singleton_append,
      List.lookup_cons]
    by_cases hkey : key = e.1
    · rw [hkey, get?_insert_self, beq_self_eq_true]
    · rw [get?_insert_of_ne _ _ hkey, ih, beq_eq_false_iff_ne.mpr hkey]

end Table

end DialogueBuild

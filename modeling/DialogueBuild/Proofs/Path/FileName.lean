import DialogueBuild.Proofs.Path.Components
/-!
File names: the last component of a path, and the extension behind its last dot.

Results:

1. `splitName_append`, `splitName_snd_eq_some_iff`   a name is split at its last dot, if a stem is
   left in front of it;
2. `fileName?_join`                                  what is appended to a path lends it its name;
3. `extension?_eq_some_iff`                          which extension a path has;
4. `slash_notMem_stem`                               stems are free of slashes.
-/
namespace DialogueBuild.Path

variable {p q : Path} {cs n stem ext back : List Char}

/-! ## Names and their extensions -/

theorem takeWhile_reverse_append (h : '.' ∉ ext) :
    ((stem ++ '.' :: ext).reverse.takeWhile (· ≠ '.')).reverse = ext := by
  have hdot : ∀ c ∈ ext.reverse, decide (c ≠ '.') = true := by
    intro c hc
    rw [decide_eq_true_iff]
    rintro rfl
    exact h (List.mem_reverse.mp hc)
  have hreverse : (stem ++ '.' :: ext).reverse = ext.reverse ++ '.' :: stem.reverse := by simp
  rw [hreverse, List.takeWhile_append_of_pos hdot, List.takeWhile_cons_of_neg (by simp),
    List.append_nil, List.reverse_reverse]

/-- A name is split at its last dot, unless nothing stands in front of it. -/
theorem splitName_append (h : '.' ∉ ext) :
    splitName (stem ++ '.' :: ext)
      = if stem = [] then ('.' :: ext, none) else (stem, some ext) := by
  have hbefore : (stem ++ '.' :: ext).take ((stem ++ '.' :: ext).length - ext.length - 1)
      = stem := by
    have hlength : (stem ++ '.' :: ext).length - ext.length - 1 = stem.length := by
      simp only [List.length_append, List.length_cons]
      omega
    rw [hlength, List.take_left]
  have hafter : ext.length ≠ (stem ++ '.' :: ext).length := by
    simp only [List.length_append, List.length_cons]
    omega
  unfold splitName
  simp only [takeWhile_reverse_append h, hbefore, hafter, decide_false, Bool.false_or,
    List.isEmpty_iff]
  split
  · rename_i hnil
    rw [hnil]
    rfl
  · rfl

theorem splitName_of_notMem (h : '.' ∉ n) : splitName n = (n, none) := by
  have hdot : ∀ c ∈ n.reverse, decide (c ≠ '.') = true := by
    intro c hc
    rw [decide_eq_true_iff]
    rintro rfl
    exact h (List.mem_reverse.mp hc)
  unfold splitName
  simp only [List.takeWhile_eq_self_iff.mpr hdot, List.reverse_reverse, decide_true, Bool.true_or,
    if_true]

/-- The extension of a name stands behind its last dot, and a stem in front of the dot. -/
theorem splitName_snd_eq_some_iff :
    (splitName n).2 = some ext ↔ '.' ∉ ext ∧ ∃ stem, stem ≠ [] ∧ n = stem ++ '.' :: ext := by
  constructor
  · intro h
    by_cases hdot : '.' ∈ n
    · obtain ⟨stem, after, rfl, hafter⟩ := Text.exists_last hdot
      rw [splitName_append hafter] at h
      split at h
      · cases h
      · rename_i hstem
        cases h
        exact ⟨hafter, stem, hstem, rfl⟩
    · rw [splitName_of_notMem hdot] at h
      cases h
  · rintro ⟨hext, stem, hstem, rfl⟩
    rw [splitName_append hext, if_neg hstem]

/-- The stem of a name is its start. -/
theorem splitName_starts (n : List Char) : (splitName n).1 <+: n := by
  by_cases hdot : '.' ∈ n
  · obtain ⟨stem, after, rfl, hafter⟩ := Text.exists_last hdot
    rw [splitName_append hafter]
    split
    · rename_i hstem
      rw [hstem]
      exact List.prefix_rfl
    · exact List.prefix_append _ _
  · simp only [splitName_of_notMem hdot, List.prefix_rfl]

/-! ## File names of paths -/

theorem fileName?_eq_some_iff :
    p.fileName? = some n ↔ (steps p.text.toList).getLast? = some (.name n) := by
  have hlast : p.fileName? = some n ↔ p.components.getLast? = some (.name n) := by
    unfold fileName?
    split
    · rename_i hname
      rw [hname]
      simp
    · rename_i hother
      exact iff_of_false (by simp) fun h => hother n h
  rw [hlast, components_eq, List.getLast?_append]
  rcases leading_cases p.text.toList with h | h | h <;> rw [h.1] <;>
    cases (steps p.text.toList).getLast? <;> simp

theorem steps_eq_filterMap_names (cs : List Char) :
    steps cs = (names cs).filterMap componentOfPart := (filterMap_names cs).symm

/-- What is appended to a path lends it its file name. -/
theorem fileName?_join (h : q.fileName? = some n) : (p.join q).fileName? = some n := by
  rw [fileName?_eq_some_iff, steps_eq_filterMap_names] at h ⊢
  obtain ⟨front, hfront⟩ := names_join p q
  rw [hfront, List.filterMap_append, List.getLast?_append, h]
  rfl

/-- The last part of a path is its file name, if it is a name. -/
theorem fileName?_of_names {front : List (List Char)} (h : names p.text.toList = front ++ [n])
    (hname : componentOfPart n = some (.name n)) : p.fileName? = some n := by
  rw [fileName?_eq_some_iff, steps_eq_filterMap_names, h, List.filterMap_append]
  simp [hname]

/-- The text of what is appended to a path comes last. -/
theorem suffix_join (p q : Path) : q.text.toList <:+ (p.join q).text.toList := by
  unfold join
  split
  · exact List.suffix_rfl
  split
  · exact ⟨_, (String.toList_append ..).symm⟩
  · exact ⟨_, (String.toList_append ..).symm⟩

theorem slash_notMem_fileName (h : p.fileName? = some n) : '/' ∉ n := by
  rw [fileName?_eq_some_iff] at h
  obtain ⟨part, hpart, hcomponent⟩ := List.mem_filterMap.mp (List.mem_of_getLast? h)
  unfold componentOfPart at hcomponent
  split at hcomponent <;> cases hcomponent
  exact Text.sep_notMem_split hpart

theorem slash_notMem_stem (h : p.stem? = some stem) : '/' ∉ stem := by
  obtain ⟨n, hn, rfl⟩ := Option.map_eq_some_iff.mp h
  exact fun hslash => slash_notMem_fileName hn ((splitName_starts n).subset hslash)

/-! ## Extensions of paths -/

/-- The file name of a path ends in a dot and an extension, and has a stem in front of them. -/
def HasExtension (p : Path) (ext : List Char) : Prop :=
  ∃ stem, stem ≠ [] ∧ p.fileName? = some (stem ++ '.' :: ext)

theorem extension?_eq_some_iff (hext : '.' ∉ ext) :
    p.extension? = some ext ↔ p.HasExtension ext := by
  unfold extension? HasExtension
  rw [Option.bind_eq_some_iff]
  simp only [splitName_snd_eq_some_iff]
  constructor
  · rintro ⟨n, hn, -, stem, hstem, rfl⟩
    exact ⟨stem, hstem, hn⟩
  · rintro ⟨stem, hstem, hn⟩
    exact ⟨_, hn, hext, stem, hstem, rfl⟩

theorem HasExtension.join (h : q.HasExtension ext) : (p.join q).HasExtension ext := by
  obtain ⟨stem, hstem, hname⟩ := h
  exact ⟨stem, hstem, fileName?_join hname⟩

end DialogueBuild.Path

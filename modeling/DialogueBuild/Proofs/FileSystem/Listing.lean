import DialogueBuild.Proofs.FileSystem.Creation
/-!
What is listed in a file system, and what paths lead to.

Results:

1. `mem_below_iff`, `mem_names_iff`   what is listed below a location is what has an entry there;
2. `locate_of_isDirectory`            a path to a directory leads to its destination;
3. `checkPath_of_prefix`              what a path to an entry starts with can be a path as well.
-/
namespace DialogueBuild.FileSystem

/-! ## Names -/

/-- A text that can be the name of an entry. -/
structure IsName (n : List Char) : Prop where
  notEmpty : n ≠ []
  noSlash : '/' ∉ n
  notDots : ¬ IsDots n

instance (n : List Char) : Decidable (IsName n) :=
  decidable_of_iff (n ≠ [] ∧ '/' ∉ n ∧ ¬ IsDots n)
    ⟨fun h => ⟨h.1, h.2.1, h.2.2⟩, fun h => ⟨h.notEmpty, h.noSlash, h.notDots⟩⟩

/-- All entries are at names, as those of directories are. -/
def WellNamed (fs : FileSystem) : Prop := ∀ l ∈ fs.entries.map Prod.fst, ∀ n ∈ l, IsName n

instance (fs : FileSystem) : Decidable fs.WellNamed :=
  inferInstanceAs (Decidable (∀ l ∈ fs.entries.map Prod.fst, ∀ n ∈ l, IsName n))

variable {fs : FileSystem} {p q : Path} {loc l : Location} {n : List Char}

theorem entryAt?_isSome_iff (h : l ≠ []) :
    (fs.entryAt? l).isSome ↔ l ∈ fs.entries.map Prod.fst := by
  cases l with
  | nil => exact absurd rfl h
  | cons m rest =>
    rw [entryAt?, Option.isSome_iff_ne_none, Ne, findEntry?_eq_none_iff, not_not]
    exact List.cons_ne_nil m rest

theorem mem_below_iff :
    l ∈ fs.below loc ↔ ∃ names, names ≠ [] ∧ l = loc ++ names ∧ (fs.entryAt? l).isSome := by
  unfold below
  rw [List.mem_mergeSort, List.mem_filter, Bool.and_eq_true, List.isPrefixOf_iff_prefix,
    decide_eq_true_iff]
  constructor
  · rintro ⟨hmem, ⟨names, rfl⟩, hlength⟩
    have hne : names ≠ [] := by
      rintro rfl
      simp at hlength
    exact ⟨names, hne, rfl, (entryAt?_isSome_iff (by simp [hne])).mpr hmem⟩
  · rintro ⟨names, hne, rfl, hentry⟩
    refine ⟨(entryAt?_isSome_iff (by simp [hne])).mp hentry, ⟨names, rfl⟩, ?_⟩
    rw [List.length_append]
    have := List.length_pos_iff.mpr hne
    omega

theorem mem_names_iff : n ∈ fs.names loc ↔ (fs.entryAt? (loc ++ [n])).isSome := by
  unfold names
  simp only [List.mem_filterMap, List.mem_filter, mem_below_iff, decide_eq_true_eq]
  constructor
  · rintro ⟨_, ⟨⟨names, -, rfl, hentry⟩, hlength⟩, hlast⟩
    rw [List.length_append, Nat.add_left_cancel_iff, List.length_eq_one_iff] at hlength
    obtain ⟨m, rfl⟩ := hlength
    rw [List.getLast?_concat, Option.some.injEq] at hlast
    rwa [← hlast]
  · intro hentry
    exact ⟨loc ++ [n], ⟨⟨[n], List.cons_ne_nil _ _, rfl, hentry⟩, by simp⟩, by simp⟩

theorem WellNamed.isName (h : fs.WellNamed) (hentry : (fs.entryAt? (loc ++ l)).isSome)
    (hn : n ∈ l) : IsName n := by
  have hne : loc ++ l ≠ [] := by
    intro hnil
    rw [(List.append_eq_nil_iff.mp hnil).2] at hn
    cases hn
  exact h _ ((entryAt?_isSome_iff hne).mp hentry) n (List.mem_append_right _ hn)

/-! ## Kinds of entries -/

theorem isFile_iff : fs.isFile p = true ↔ ∃ f, fs.lookup p = .ok (.file f) := by
  unfold isFile
  split
  · rename_i f hf
    simp [hf]
  · rename_i hne
    simp only [Bool.false_eq_true, false_iff, not_exists]
    exact hne

theorem lookup_of_isDirectory (h : fs.isDirectory p = true) : fs.lookup p = .ok .directory := by
  unfold isDirectory at h
  split at h
  · assumption
  · cases h

theorem isPresent_of_isDirectory (h : fs.isDirectory p = true) : fs.isPresent p = true :=
  isPresent_iff.mpr ⟨_, lookup_of_isDirectory h⟩

theorem isPresent_of_isFile (h : fs.isFile p = true) : fs.isPresent p = true := by
  obtain ⟨f, hf⟩ := isFile_iff.mp h
  exact isPresent_iff.mpr ⟨_, hf⟩

theorem locate_of_isDirectory (h : fs.isDirectory p = true) :
    fs.locate p = .ok (fs.destination p) := by
  obtain ⟨hcheck, hwalk, -⟩ := lookup_eq_ok_iff.mp (lookup_of_isDirectory h)
  exact locate_eq_ok_iff.mpr ⟨hcheck, hwalk, rfl⟩

theorem checkPath_of_isPresent (h : fs.isPresent p = true) : checkPath p = .ok () := by
  obtain ⟨e, he⟩ := isPresent_iff.mp h
  exact (lookup_eq_ok_iff.mp he).1

theorem isEmpty_of_checkPath (h : checkPath p = .ok ()) : p.isEmpty = false :=
  (checkPath_eq_ok_iff.mp h).2.1

theorem checkPath_of_prefix (htext : p.text.toList <+: q.text.toList) (hp : p.isEmpty = false)
    (hq : checkPath q = .ok ()) : checkPath p = .ok () := by
  obtain ⟨hnul, -, hlength⟩ := checkPath_eq_ok_iff.mp hq
  exact checkPath_eq_ok_iff.mpr ⟨fun hmem => hnul (htext.subset hmem), hp,
    isTooLong_mono htext hlength⟩

theorem not_isDirectory_of_isFile (h : fs.isFile p = true) : fs.isDirectory p = false := by
  obtain ⟨f, hf⟩ := isFile_iff.mp h
  unfold FileSystem.isDirectory
  rw [hf]

theorem not_isFile_of_endsInSlash (h : endsInSlash p = true) : fs.isFile p = false := by
  rw [← Bool.not_eq_true, isFile_iff]
  rintro ⟨f, hf⟩
  obtain ⟨-, hwalk, hfile⟩ := lookup_eq_ok_iff.mp hf
  rw [parts_eq, if_pos h, walkable_append] at hwalk
  rw [destination, hwalk.2.1.directory] at hfile
  cases hfile

end DialogueBuild.FileSystem

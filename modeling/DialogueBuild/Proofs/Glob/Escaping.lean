import DialogueBuild.Proofs.Glob.Walk
/-!
Patterns below a directory.

The components of an escaped path are patterns with sets of one character, and the walk lists
directories to go along with them. It comes to where the components lead as they are.

Results:

1. `finds_ofEscaped_iff`    an escaped component leads where its text does;
2. `textFinds_placed_iff`   so that below an escaped directory a pattern finds what it finds below
                            the directory itself;
3. `components_prefix`      the components of the directory come first in those of what is found.
-/
namespace DialogueBuild.Glob

open FileSystem

variable {fs : FileSystem} {d q : Path} {n part cs : List Char} {ps : List Pattern}
  {parts : List (List Char)}

/-! ## Components without wildcards -/

theorem finds_literal_iff :
    Finds fs (literal n :: ps) d q
      ↔ '/' ∉ n ∧ leads fs d n = true ∧ Finds fs ps (inside d n) q := by
  have hliteral : (literal n).literal? = some n := literal?_eq_some_iff.mpr rfl
  constructor
  · intro h
    cases h with
    | literal hname hslash hleads h =>
      cases hliteral.symm.trans hname
      exact ⟨hslash, hleads, h⟩
    | name hwild => cases hliteral.symm.trans hwild
    | dots hwild => cases hliteral.symm.trans hwild
    | deeper hany => cases hliteral.symm.trans (literal?_of_isAnyDirectories hany)
    | again hany => cases hliteral.symm.trans (literal?_of_isAnyDirectories hany)
  · rintro ⟨hslash, hleads, h⟩
    exact .literal hliteral hslash hleads h

/-- A path that goes on to a file is one that the file system takes. -/
theorem Finds.checkPath_inside (h : Finds fs ps (inside d n) q) (hq : fs.isFile q = true)
    (hd : checkPath d = .ok ()) (hn : '/' ∉ n) (hleads : leads fs d n = true) :
    checkPath (inside d n) = .ok () := by
  unfold leads at hleads
  split at hleads
  · rename_i hdots
    by_cases hhere : d.components = [.here]
    · rw [inside_of_here hhere]
      rcases hdots with rfl | rfl <;> decide
    · have hleaves : d.Leaves := ⟨isEmpty_of_checkPath hd, hhere⟩
      exact h.check (hleaves.extends (extends_inside hleaves hn)) hq
  · exact checkPath_of_isPresent hleads

/-- Only names have something to escape. -/
theorem isName_of_metacharacter (h : ∃ c ∈ n, c ∈ metacharacters) (hn : '/' ∉ n) : IsName n := by
  obtain ⟨c, hc, hmeta⟩ := h
  have hdot : c ≠ '.' := by
    rintro rfl
    exact absurd hmeta (by decide)
  refine ⟨List.ne_nil_of_mem hc, hn, ?_⟩
  rintro (rfl | rfl) <;> simp [hdot] at hc

/-- An escaped component leads where its text does. -/
theorem finds_ofEscaped_iff (hq : fs.isFile q = true) (hd : checkPath d = .ok ())
    (hn : '/' ∉ n) :
    Finds fs (ofEscaped n :: ps) d q ↔ leads fs d n = true ∧ Finds fs ps (inside d n) q := by
  by_cases hplain : ∀ c ∈ n, c ∉ metacharacters
  · rw [ofEscaped_of_plain hplain, finds_literal_iff, and_iff_right hn]
  · have hmeta : ∃ c ∈ n, c ∈ metacharacters := by simpa using hplain
    have hwild := literal?_ofEscaped hmeta
    have hsingle := isAnyDirectories_ofEscaped n
    have hname := isName_of_metacharacter hmeta hn
    have hdots := hname.notDots
    have hleads : leads fs d n = fs.isPresent (inside d n) := if_neg hdots
    rw [hleads]
    constructor
    · intro h
      cases h with
      | literal hliteral => cases hwild.symm.trans hliteral
      | name _ _ hdirectory _ hstands h =>
        cases standsFor_ofEscaped.mp hstands
        have hcheck := h.check (leaves_inside (isEmpty_of_checkPath hd) hname) hq
        exact ⟨h.isPresent hcheck (isPresent_of_isFile hq), h⟩
      | dots _ _ _ hdots' _ hstands =>
        cases standsFor_ofEscaped.mp hstands
        exact absurd hdots' hdots
      | deeper hany => cases hsingle.symm.trans hany
      | again hany => cases hsingle.symm.trans hany
    · rintro ⟨hpresent, h⟩
      exact .name hwild hsingle (isDirectory_of_isPresent_inside hd hn hpresent) hname
        (standsFor_ofEscaped.mpr rfl) h

theorem finds_map_ofEscaped_iff (hq : fs.isFile q = true) (hd : checkPath d = .ok ())
    (hparts : ∀ part ∈ parts, '/' ∉ part) :
    Finds fs (parts.map ofEscaped ++ ps) d q ↔ Finds fs (parts.map literal ++ ps) d q := by
  induction parts generalizing d with
  | nil => rfl
  | cons part rest ih =>
    obtain ⟨hpart, hrest⟩ := List.forall_mem_cons.mp hparts
    rw [List.map_cons, List.map_cons, List.cons_append, List.cons_append,
      finds_ofEscaped_iff hq hd hpart, finds_literal_iff, and_iff_right hpart]
    refine and_congr_right fun hleads => ⟨fun h => ?_, fun h => ?_⟩
    · exact (ih (h.checkPath_inside hq hd hpart hleads) hrest).mp h
    · exact (ih (h.checkPath_inside hq hd hpart hleads) hrest).mpr h

/-! ## Below a directory -/

/-- Below a directory, whatever its name is, the pattern with a text finds a path. -/
def FoundBelow (fs : FileSystem) (directory : Path) (cs : List Char) (q : Path) : Prop :=
  ∃ ps, (Path.splitSlashes cs).mapM Pattern.ofText = .ok ps
    ∧ Finds fs ((componentTexts directory.text.toList).map literal ++ ps)
      (origin directory.text.toList) q

theorem mapM_ofText_escape (parts : List (List Char)) :
    (parts.map escape).mapM Pattern.ofText = .ok (parts.map ofEscaped) := by
  rw [mapM_eq_ok]
  induction parts with
  | nil => exact .nil
  | cons part rest ih => exact .cons (ofText_escape part) ih

theorem isAbsoluteText_escape (back : List Char) (h : cs ≠ []) :
    Path.isAbsoluteText (escape cs ++ back) = Path.isAbsoluteText cs := by
  obtain ⟨c, rest, rfl⟩ := List.exists_cons_of_ne_nil h
  unfold Path.isAbsoluteText
  rw [escape_cons]
  split
  · rename_i hmeta
    have hc : c ≠ '/' := by
      rintro rfl
      exact absurd hmeta (by decide)
    simp [hc]
  · simp

theorem splitSlashes_placed (cs back : List Char) :
    Path.splitSlashes (escape cs ++ '/' :: back)
      = (Path.splitSlashes cs).map escape ++ Path.splitSlashes back := by
  rw [← splitSlashes_escape]
  exact Text.split_append '/' (escape cs) back

theorem componentTexts_placed (back : List Char) (h : cs ≠ []) :
    componentTexts (escape cs ++ '/' :: back)
      = (componentTexts cs).map escape ++ Path.splitSlashes back := by
  unfold componentTexts belowOrigin
  rw [isAbsoluteText_escape _ h]
  split
  · rename_i habsolute
    obtain ⟨rest, rfl⟩ := List.head?_eq_some_iff.mp (of_decide_eq_true habsolute)
    exact splitSlashes_placed rest back
  · exact splitSlashes_placed cs back

theorem checkPath_origin (cs : List Char) : checkPath (origin cs) = .ok () := by
  unfold origin
  split <;> decide

theorem slash_notMem_componentTexts (h : part ∈ componentTexts cs) : '/' ∉ part :=
  Text.sep_notMem_split h

/-- Below an escaped directory a pattern finds what it finds below the directory itself. -/
theorem textFinds_placed_iff (hd : d.isEmpty = false) (hq : fs.isFile q = true) :
    TextFinds fs (escape d.text.toList ++ '/' :: cs) q ↔ FoundBelow fs d cs q := by
  have hne := Path.toList_ne_nil hd
  have horigin : origin (escape d.text.toList ++ '/' :: cs) = origin d.text.toList := by
    unfold origin
    rw [isAbsoluteText_escape _ hne]
  have hfinds (ps : List Pattern) :
      Finds fs ((componentTexts d.text.toList).map ofEscaped ++ ps) (origin d.text.toList) q
        ↔ Finds fs ((componentTexts d.text.toList).map literal ++ ps) (origin d.text.toList) q :=
    finds_map_ofEscaped_iff hq (checkPath_origin d.text.toList) fun _ => slash_notMem_componentTexts
  unfold TextFinds FoundBelow
  simp only [componentTexts_placed cs hne, horigin, mapM_append_eq_ok, mapM_ofText_escape]
  constructor
  · rintro ⟨_, ⟨front, back, hfront, hback, rfl⟩, h⟩
    cases hfront
    exact ⟨back, hback, (hfinds back).mp h⟩
  · rintro ⟨back, hback, h⟩
    exact ⟨_, ⟨_, back, rfl, hback, rfl⟩, (hfinds back).mpr h⟩

/-! ## What is found is below the directory -/

theorem finds_foldl_inside (h : Finds fs (parts.map literal ++ ps) d q) :
    Finds fs ps (parts.foldl inside d) q := by
  induction parts generalizing d with
  | nil => exact h
  | cons part rest ih => exact ih (finds_literal_iff.mp h).2.2

/-- Parts that are put behind a path come with their components. -/
theorem components_foldl_inside (hd : d.Leaves) (hparts : ∀ part ∈ parts, '/' ∉ part) :
    (parts.foldl inside d).Leaves
      ∧ (parts.foldl inside d).components
        = d.components ++ parts.filterMap Path.componentOfPart := by
  induction parts generalizing d with
  | nil => exact ⟨hd, (List.append_nil _).symm⟩
  | cons part rest ih =>
    obtain ⟨hpart, hrest⟩ := List.forall_mem_cons.mp hparts
    obtain ⟨hleaves, hcomponents⟩ := ih (hd.extends (extends_inside hd hpart)) hrest
    refine ⟨hleaves, hcomponents.trans ?_⟩
    rw [inside_of_leaves hd, Path.components_join hd.notEmpty hpart, List.append_assoc]
    cases hc : Path.componentOfPart part <;> simp [hc]

theorem components_way_root (rest : List Char) :
    ((Path.splitSlashes rest).foldl inside ⟨"/"⟩).Leaves
      ∧ ((Path.splitSlashes rest).foldl inside ⟨"/"⟩).components
        = Path.componentsOfText ('/' :: rest) := by
  have hroot : (Path.mk "/").Leaves := ⟨by decide, by decide⟩
  obtain ⟨hleaves, hcomponents⟩ :=
    components_foldl_inside hroot fun _ (h : _ ∈ Text.split '/' rest) => Text.sep_notMem_split h
  have hsteps : Path.steps ('/' :: rest) = Path.steps rest := Path.steps_append_slash [] rest
  refine ⟨hleaves, hcomponents.trans ?_⟩
  rw [Path.componentsOfText_eq, hsteps]
  rfl

theorem components_way_relative (hne : cs ≠ []) (habsolute : Path.isAbsoluteText cs = false)
    (hstart : Path.startsHere cs = false) :
    ((Path.splitSlashes cs).foldl inside here).Leaves
      ∧ ((Path.splitSlashes cs).foldl inside here).components = Path.componentsOfText cs := by
  -- the first part leaves the working directory, and the others go on from there
  obtain ⟨first, rest, hparts, hne, hdot⟩ := Path.exists_first_part hne habsolute hstart
  have hslash : ∀ part ∈ first :: rest, '/' ∉ part := by
    rw [← hparts]
    exact fun _ => Text.sep_notMem_split
  obtain ⟨hfirst, hrest⟩ := List.forall_mem_cons.mp hslash
  obtain ⟨hleaves, hcomponents⟩ :=
    components_foldl_inside (Path.leaves_ofList hfirst hne hdot) hrest
  rw [hparts, List.foldl_cons, inside_of_here (by decide)]
  refine ⟨hleaves, hcomponents.trans ?_⟩
  rw [Path.componentsOfText_eq, Path.leading, habsolute, hstart, Path.steps, hparts,
    Path.components_ofList_of_notMem hfirst hdot]
  cases hc : Path.componentOfPart first <;> simp [hc]

/-- The way to a directory, unless it starts with a `.`, is written as the directory is. -/
theorem components_way (hd : d.isEmpty = false) (hhere : d.components.head? ≠ some .here) :
    ((componentTexts d.text.toList).foldl inside (origin d.text.toList)).Leaves
      ∧ ((componentTexts d.text.toList).foldl inside (origin d.text.toList)).components
        = d.components := by
  rcases Path.leading_cases d.text.toList with
    ⟨-, habsolute, -⟩ | hcs | ⟨-, habsolute, hstart⟩
  · obtain ⟨rest, hrest⟩ := List.head?_eq_some_iff.mp (of_decide_eq_true habsolute)
    unfold Path.components
    rw [hrest]
    exact components_way_root rest
  · exact absurd (Path.head?_eq_here_iff.mpr hcs) hhere
  · rw [componentTexts, belowOrigin_of_relative habsolute, origin_of_relative habsolute]
    exact components_way_relative (Path.toList_ne_nil hd) habsolute hstart

/-- The components of a directory come first in those of what is found below it. -/
theorem FoundBelow.components_prefix (h : FoundBelow fs d cs q) (hd : d.isEmpty = false)
    (hhere : d.components.head? ≠ some .here) : d.components <+: q.components := by
  obtain ⟨ps, -, h⟩ := h
  obtain ⟨hleaves, hcomponents⟩ := components_way hd hhere
  rw [← hcomponents]
  exact ((finds_foldl_inside h).extends hleaves).components

theorem head?_components_of_finds (h : Finds fs (parts.map literal ++ ps) here q)
    (hparts : parts.filterMap Path.componentOfPart ≠ []) :
    q.components.head? ≠ some .here := by
  induction parts with
  | nil => exact absurd rfl hparts
  | cons part rest ih =>
    obtain ⟨hslash, hleads, h⟩ := finds_literal_iff.mp h
    rw [inside_of_here (by decide)] at h
    cases hpart : Path.componentOfPart part with
    | none =>
      rw [List.filterMap_cons, hpart] at hparts
      rcases Path.eq_of_componentOfPart_none hpart with rfl | rfl
      · -- the empty path is nowhere
        cases hleads
      · exact ih h hparts
    | some c =>
      have hdot : part ≠ ['.'] := by
        rintro rfl
        cases hpart
      have hne : part ≠ [] := by
        rintro rfl
        cases hpart
      obtain ⟨others, hothers⟩ := (h.extends (Path.leaves_ofList hslash hne hdot)).components
      rw [Path.components_ofList_of_notMem hslash hdot, hpart] at hothers
      rw [← hothers]
      have hc : c ∈ Path.steps part := by
        rw [Path.steps_of_notMem hslash, hpart]
        exact List.mem_singleton_self c
      simpa using (Path.steps_ne hc).2

/-- A `.` at the start of a directory is not written in what is found below it, unless the directory
is the working directory itself. -/
theorem FoundBelow.head?_components (h : FoundBelow fs d cs q)
    (hhere : d.components.head? = some .here) (hmore : d.components ≠ [.here]) :
    q.components.head? ≠ some .here := by
  obtain ⟨ps, -, h⟩ := h
  obtain ⟨hleading, habsolute, -⟩ := Path.head?_eq_here_iff.mp hhere
  rw [origin_of_relative habsolute] at h
  refine head?_components_of_finds h fun hnil => hmore ?_
  rw [componentTexts, belowOrigin_of_relative habsolute] at hnil
  rw [Path.components_eq, hleading, Path.steps, hnil]
  rfl

end DialogueBuild.Glob

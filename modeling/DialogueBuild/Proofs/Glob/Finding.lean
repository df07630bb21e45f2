import DialogueBuild.Glob.Walk
import DialogueBuild.Proofs.FileSystem.Listing
import DialogueBuild.Proofs.Glob.Reading
/-!
What a pattern finds, told one component after the other.

A component leads from a directory to a path in it. What is listed in the directory does not come
into this, but for what has to be there already.

Results:

1. `destination_inside`                  the path of an entry leads to it;
2. `isDirectory_of_isPresent_inside`     and what it is in is a directory;
3. `Finds.extends`                       what is found from a path is written behind it;
4. `Finds.isPresent`                     and where it is there, the path is there as well.
-/
namespace DialogueBuild.Glob

open FileSystem

variable {fs : FileSystem} {d q : Path} {n : List Char}

/-! ## Paths of entries -/

theorem inside_of_leaves (hd : d.Leaves) (n : List Char) :
    inside d n = d.join ⟨String.ofList n⟩ := by
  unfold inside
  rw [if_neg]
  rw [Path.same_iff]
  exact hd.notHere

theorem inside_of_here (hd : d.components = [.here]) (n : List Char) :
    inside d n = ⟨String.ofList n⟩ := by
  unfold inside
  rw [if_pos]
  rw [Path.same_iff, hd]
  decide

/-- What is in the working directory has left it. -/
theorem leaves_inside (hd : d.isEmpty = false) (hn : IsName n) : (inside d n).Leaves := by
  by_cases hhere : d.components = [.here]
  · rw [inside_of_here hhere]
    exact Path.leaves_ofList hn.noSlash hn.notEmpty fun hdot => hn.notDots (.inl hdot)
  · rw [inside_of_leaves ⟨hd, hhere⟩]
    exact Path.Leaves.extends ⟨hd, hhere⟩ (Path.extends_join hd hn.noSlash)

/-- The parts of the working directory stay where they are. -/
theorem stays_of_here (hd : d.components = [.here]) : Path.Stays (Path.names d.text.toList) := by
  have hsteps := (Path.steps_of_here hd).2
  intro part hpart
  rw [Path.steps, ← Path.filterMap_names, List.filterMap_eq_nil_iff] at hsteps
  rcases Path.eq_of_componentOfPart_none (hsteps part hpart) with rfl | h
  · simp [Path.names] at hpart
  · exact h

theorem follow_of_stays {loc : Location} {parts : List (List Char)} (h : Path.Stays parts) :
    follow loc parts = loc := by
  induction parts with
  | nil => rfl
  | cons part rest ih =>
    obtain ⟨hpart, hrest⟩ := List.forall_mem_cons.mp h
    rw [hpart]
    exact ih hrest

theorem walkable_of_stays {loc : Location} {parts : List (List Char)} (h : Path.Stays parts)
    (hloc : fs.entryAt? loc = some .directory) : fs.Walkable loc parts := by
  induction parts with
  | nil => trivial
  | cons part rest ih =>
    obtain ⟨rfl, hrest⟩ := List.forall_mem_cons.mp h
    exact ⟨⟨hloc, fun hn => absurd (.inl rfl) hn, fun hn => absurd (.inl rfl) hn⟩, ih hrest⟩

theorem start_inside (fs : FileSystem) (hd : d.isEmpty = false) (hn : '/' ∉ n) :
    fs.start (inside d n) = fs.start d := by
  by_cases hhere : d.components = [.here]
  · rw [inside_of_here hhere, start, start, Path.isAbsolute_ofList hn,
      (Path.steps_of_here hhere).1]
  · rw [inside_of_leaves ⟨hd, hhere⟩]
    exact Eq.symm <| start_of_prefix fs (Path.extends_join hd hn).text hd

/-- A name that is put behind a path is its last part, and the other parts lead to where those of
the path do. -/
theorem names_inside (hd : d.isEmpty = false) (hn : '/' ∉ n) (hne : n ≠ []) :
    ∃ front, Path.names (inside d n).text.toList = front ++ [n]
      ∧ (front = Path.names d.text.toList
        ∨ front = [] ∧ Path.Stays (Path.names d.text.toList)) := by
  have hnames : Path.names (Path.mk (String.ofList n)).text.toList = [n] := by
    rw [String.toList_ofList, Path.names_of_notMem hn hne]
  by_cases hhere : d.components = [.here]
  · rw [inside_of_here hhere]
    exact ⟨[], hnames, .inr ⟨rfl, stays_of_here hhere⟩⟩
  · rw [inside_of_leaves ⟨hd, hhere⟩,
      Path.names_join_of_relative d (Path.isAbsolute_ofList hn), hnames]
    exact ⟨_, rfl, .inl rfl⟩

theorem destination_inside (fs : FileSystem) (hd : d.isEmpty = false) (hn : IsName n) :
    fs.destination (inside d n) = fs.destination d ++ [n] := by
  obtain ⟨front, hnames, hfront⟩ := names_inside hd hn.noSlash hn.notEmpty
  have hsame : follow (fs.start d) front = follow (fs.start d) (Path.names d.text.toList) := by
    rcases hfront with rfl | ⟨rfl, hstays⟩
    · rfl
    · exact (follow_of_stays hstays).symm
  unfold destination
  rw [start_inside fs hd hn.noSlash, hnames, follow_append, hsame]
  exact turn_name hn.notDots

theorem endsInSlash_join_nil (hd : d.isEmpty = false) :
    endsInSlash (d.join ⟨String.ofList []⟩) = true := by
  unfold endsInSlash Path.join
  rw [if_neg (by decide), hd, Bool.false_or]
  split
  · rename_i hslash
    simpa using hslash
  · simp

/-- Entries are in directories. -/
theorem isDirectory_of_isPresent_inside (hd : checkPath d = .ok ()) (hn : '/' ∉ n)
    (h : fs.isPresent (inside d n) = true) : fs.isDirectory d = true := by
  have hempty : d.isEmpty = false := isEmpty_of_checkPath hd
  obtain ⟨e, he⟩ := isPresent_iff.mp h
  obtain ⟨hcheck, hwalk, -⟩ := lookup_eq_ok_iff.mp he
  rw [start_inside fs hempty hn, parts_eq] at hwalk
  rw [isDirectory_iff]
  refine ⟨hd, ?_⟩
  -- an empty name puts a slash behind the path, which asks for a directory
  by_cases hne : n = []
  · subst hne
    by_cases hhere : d.components = [.here]
    · rw [inside_of_here hhere, checkPath_eq_ok_iff] at hcheck
      exact absurd hcheck.2.1 (by decide)
    · rw [inside_of_leaves ⟨hempty, hhere⟩, endsInSlash_join_nil hempty, if_pos rfl,
        Path.names_join_of_relative d (Path.isAbsolute_ofList hn), walkable_append] at hwalk
      have hnil : Path.names (Path.mk (String.ofList [])).text.toList = [] := rfl
      rw [hnil, List.append_nil] at hwalk
      exact ⟨hwalk.1, hwalk.2.1.directory⟩
  · obtain ⟨front, hnames, hfront⟩ := names_inside hempty hn hne
    rw [hnames, List.append_assoc, walkable_append] at hwalk
    obtain ⟨hwalk, hlast, -⟩ := hwalk
    rcases hfront with rfl | ⟨rfl, hstays⟩
    · exact ⟨hwalk, hlast.directory⟩
    · refine ⟨walkable_of_stays hstays hlast.directory, ?_⟩
      unfold destination
      rw [follow_of_stays hstays]
      exact hlast.directory

/-! ## What patterns find -/

/-- Some components of a pattern find a path from a directory on. -/
inductive Finds (fs : FileSystem) : List Pattern → Path → Path → Prop
  /-- At the end of the pattern the path is found. -/
  | done (path : Path) : Finds fs [] path path
  /-- A component without wildcards leads where its text does. -/
  | literal {p : Pattern} {rest : List Pattern} {directory path : Path} {name : List Char}
    (hliteral : p.literal? = some name) (hname : '/' ∉ name)
    (hleads : leads fs directory name = true) (h : Finds fs rest (inside directory name) path) :
    Finds fs (p :: rest) directory path
  /-- A component with wildcards leads to the names for which it stands. -/
  | name {p : Pattern} {rest : List Pattern} {directory path : Path} {name : List Char}
    (hwild : p.literal? = none) (hsingle : p.isAnyDirectories = false)
    (hdirectory : fs.isDirectory directory = true) (hname : IsName name)
    (hstands : p.StandsFor name) (h : Finds fs rest (inside directory name) path) :
    Finds fs (p :: rest) directory path
  /-- It leads to `.` and `..` only if it starts with a dot. -/
  | dots {p : Pattern} {rest : List Pattern} {directory path : Path} {name : List Char}
    (hwild : p.literal? = none) (hsingle : p.isAnyDirectories = false)
    (hdirectory : fs.isDirectory directory = true) (hdots : IsDots name)
    (hstart : p.head? = some (.char '.')) (hstands : p.StandsFor name)
    (h : Finds fs rest (directory.join ⟨String.ofList name⟩) path) :
    Finds fs (p :: rest) directory path
  /-- Behind `**` a component may stand for a name in any directory below. -/
  | deeper {p next : Pattern} {rest : List Pattern} {directory path : Path}
    {names : List (List Char)} {name : List Char}
    (hany : p.isAnyDirectories = true) (hsingle : next.isAnyDirectories = false)
    (hdirectory : fs.isDirectory directory = true) (hnames : ∀ n ∈ names, IsName n)
    (hname : IsName name) (hstands : next.StandsFor name)
    (h : Finds fs rest (inside (names.foldl inside directory) name) path) :
    Finds fs (p :: next :: rest) directory path
  /-- A second `**` makes no difference. -/
  | again {p next : Pattern} {rest : List Pattern} {directory path : Path}
    (hany : p.isAnyDirectories = true) (hagain : next.isAnyDirectories = true)
    (h : Finds fs (next :: rest) directory path) : Finds fs (p :: next :: rest) directory path

variable {ps : List Pattern}

theorem slash_notMem_of_isDots (h : IsDots n) : '/' ∉ n := by
  rcases h with rfl | rfl <;> decide

theorem extends_inside (hd : d.Leaves) (hn : '/' ∉ n) : d.Extends (inside d n) := by
  rw [inside_of_leaves hd]
  exact Path.extends_join hd.notEmpty hn

theorem extends_foldl_inside {names : List (List Char)} (hd : d.Leaves)
    (hnames : ∀ n ∈ names, IsName n) : d.Extends (names.foldl inside d) := by
  induction names generalizing d with
  | nil => exact .refl d
  | cons n rest ih =>
    rw [List.forall_mem_cons] at hnames
    have hn := extends_inside hd hnames.1.noSlash
    exact hn.trans (ih (hd.extends hn) hnames.2)

/-- A path that has left the working directory is the start of what is found from it. -/
theorem Finds.extends (h : Finds fs ps d q) (hd : d.Leaves) : d.Extends q := by
  induction h with
  | done path => exact .refl path
  | literal _ hname _ _ ih =>
    have hn := extends_inside hd hname
    exact hn.trans (ih (hd.extends hn))
  | name _ _ _ hname _ _ ih =>
    have hn := extends_inside hd hname.noSlash
    exact hn.trans (ih (hd.extends hn))
  | dots _ _ _ hdots _ _ _ ih =>
    have hn := Path.extends_join hd.notEmpty (slash_notMem_of_isDots hdots)
    exact hn.trans (ih (hd.extends hn))
  | deeper _ _ _ hnames hname _ _ ih =>
    have hfront := extends_foldl_inside hd hnames
    have hn := extends_inside (hd.extends hfront) hname.noSlash
    exact (hfront.trans hn).trans (ih ((hd.extends hfront).extends hn))
  | again _ _ _ ih => exact ih hd

/-- What leads to a file can be a path to an entry. -/
theorem Finds.check (h : Finds fs ps d q) (hd : d.Leaves) (hq : fs.isFile q = true) :
    checkPath d = .ok () :=
  checkPath_of_prefix (h.extends hd).text hd.notEmpty
    (checkPath_of_isPresent (isPresent_of_isFile hq))

/-- What leads to something that is there is there. -/
theorem Finds.isPresent (h : Finds fs ps d q) (hd : checkPath d = .ok ())
    (hq : fs.isPresent q = true) : fs.isPresent d = true := by
  induction h with
  | done path => exact hq
  | literal hliteral hname hleads h ih =>
    unfold leads at hleads
    split at hleads
    · exact isPresent_of_isDirectory hleads
    · exact isPresent_of_isDirectory (isDirectory_of_isPresent_inside hd hname hleads)
  | name _ _ hdirectory _ _ _ _ => exact isPresent_of_isDirectory hdirectory
  | dots _ _ hdirectory _ _ _ _ _ => exact isPresent_of_isDirectory hdirectory
  | deeper _ _ hdirectory _ _ _ _ _ => exact isPresent_of_isDirectory hdirectory
  | again _ _ _ ih => exact ih hd hq

end DialogueBuild.Glob

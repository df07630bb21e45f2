import DialogueBuild.Proofs.FileSystem.Directories
import DialogueBuild.Proofs.FileSystem.Replacement
/-!
Creating a file where nothing is.

Where a new file goes is settled by the files and directories alone. The disk may then refuse to
create it, or to write it once it is created.

Results:

1. `vacancy_eq_ok_iff`            where a new file goes;
2. `entries_of_vacancy`           what becomes of the file system when one is put there;
3. `readText_of_vacancy`          and that it is read back;
4. `not_isPresent_of_vacancy`     nothing was there before;
5. `vacancy_of_vacant`            where nothing is, there is room for a new file;
6. `vacancy_of_isPresent`         what is there is refused, unless the path asks for a directory;
7. `isPresent_of_vacancy`         and only what is there is refused for that reason;
8. `createNew_eq_ok_iff`, `createNew_eq_exists_iff`   the same on a disk.
-/
namespace DialogueBuild.FileSystem

variable {disk : Disk} {fs created : FileSystem} {p : Path} {loc : Location}

theorem vacancy_eq_ok_iff :
    fs.vacancy p = .ok loc
      ↔ fs.slot p = .ok (.named loc false) ∧ checkName loc = .ok () ∧ fs.entryAt? loc = none := by
  unfold vacancy
  constructor
  · intro h
    obtain ⟨target, hslot, h⟩ := bind_eq_ok.mp h
    cases target with
    | inside => cases h
    | named place slash =>
      cases slash with
      | true => cases h
      | false =>
        obtain ⟨⟨⟩, hname, h⟩ := bind_eq_ok.mp h
        split at h
        · cases h
        · rename_i hfree
          cases h
          exact ⟨hslot, hname, hfree⟩
  · rintro ⟨hslot, hname, hfree⟩
    simp only [hslot, hname, hfree, bind, Except.bind, Bool.false_eq_true, ↓reduceIte]
    rfl

theorem destination_of_vacancy (h : fs.vacancy p = .ok loc) :
    loc = fs.destination p ∧ loc ≠ [] := by
  obtain ⟨hslot, -, -⟩ := vacancy_eq_ok_iff.mp h
  obtain ⟨hnames, -⟩ := slot_eq_named_iff.mp hslot
  exact ⟨hnames.destination, hnames.ne_nil⟩

theorem free_of_vacancy (h : fs.vacancy p = .ok loc) : fs.entryAt? loc = none :=
  (vacancy_eq_ok_iff.mp h).2.2

/-- A new file is put where nothing was, and nothing else changes. -/
theorem entries_of_vacancy (h : fs.vacancy p = .ok loc) (f : File) :
    fs.entryAt? (fs.destination p) = none
      ∧ (fs.put loc (.file f)).entryAt? (fs.destination p) = some (.file f)
      ∧ (∀ l, l ≠ fs.destination p → (fs.put loc (.file f)).entryAt? l = fs.entryAt? l)
      ∧ (fs.put loc (.file f)).workingDirectory = fs.workingDirectory := by
  obtain ⟨hdestination, hne⟩ := destination_of_vacancy h
  rw [← hdestination]
  exact ⟨free_of_vacancy h, entryAt?_put_self hne, fun _ hne => entryAt?_put_of_ne hne, rfl⟩

theorem not_directory_of_free (h : fs.entryAt? loc = none) : fs.entryAt? loc ≠ some .directory := by
  rw [h]
  exact nofun

/-- A new file is read back. -/
theorem readText_of_vacancy (h : fs.vacancy p = .ok loc) (text : String) :
    (fs.put loc (.file (.ofText text))).readText p = .ok text := by
  obtain ⟨hslot, hname, hfree⟩ := vacancy_eq_ok_iff.mp h
  exact readText_put_file hslot hname (not_directory_of_free hfree)

theorem isPresent_iff : fs.isPresent p = true ↔ ∃ e, fs.lookup p = .ok e := by
  unfold isPresent
  split
  · rename_i e he
    simp [he]
  · rename_i fault hfault
    simp [hfault]

theorem isPresent_of_readText {text : String} (h : fs.readText p = .ok text) :
    fs.isPresent p = true := by
  unfold readText fileAt at h
  obtain ⟨file, hfile, -⟩ := bind_eq_ok.mp h
  obtain ⟨e, he, -⟩ := bind_eq_ok.mp hfile
  exact isPresent_iff.mpr ⟨e, he⟩

theorem not_isPresent_of_vacancy (h : fs.vacancy p = .ok loc) : fs.isPresent p = false := by
  obtain ⟨hslot, hname, hfree⟩ := vacancy_eq_ok_iff.mp h
  rw [Bool.eq_false_iff]
  intro hpresent
  obtain ⟨e, he⟩ := isPresent_iff.mp hpresent
  rw [lookup_of_slot hslot hname, hfree] at he
  cases he

/-! ## Where nothing is -/

/-- Nothing is where the path leads, but the directory is there in which it names something. A path
without a directory names something in the working directory. -/
structure Vacant (fs : FileSystem) (path : Path) : Prop where
  named : ∃ directory name, path = Path.join directory ⟨name⟩ ∧
    '/' ∉ name.toList ∧ name ≠ "" ∧ name ≠ "." ∧ name ≠ ".." ∧
    fs.isDirectory (if directory.isEmpty then ⟨"."⟩ else directory) = true
  free : fs.lookup path = .error .notFound

theorem not_isAbsolute_of_name {name : String} (hslash : '/' ∉ name.toList) :
    Path.isAbsolute ⟨name⟩ = false := by
  unfold Path.isAbsolute Path.isAbsoluteText
  rw [decide_eq_false_iff_not]
  exact fun hhead => hslash (List.mem_of_head? hhead)

/-- The text of a path to a name in a directory. -/
theorem text_join {name : String} (hslash : '/' ∉ name.toList) (directory : Path) :
    ∃ front, (directory.join ⟨name⟩).text.toList = front ++ name.toList ∧
      directory.text.toList <+: front ∧ (directory.isEmpty = true → front = []) := by
  unfold Path.join
  rw [if_neg (by rw [not_isAbsolute_of_name hslash]; exact Bool.false_ne_true)]
  split
  · refine ⟨directory.text.toList, String.toList_append .., List.prefix_rfl, fun hempty => ?_⟩
    rw [String.toList_eq_nil_iff]
    exact String.isEmpty_iff.mp hempty
  · rename_i hempty
    rw [Bool.or_eq_true, not_or] at hempty
    exact ⟨directory.text.toList ++ ['/'], by simp, List.prefix_append _ _,
      fun h => absurd h hempty.1⟩

/-- The directory in which a path names something is where the path leads up to its name. -/
theorem directory_of_join {name : String} (hslash : '/' ∉ name.toList) {directory : Path}
    (h : fs.isDirectory (if directory.isEmpty then ⟨"."⟩ else directory) = true) :
    fs.Walkable (fs.start (directory.join ⟨name⟩)) (Path.names directory.text.toList) ∧
      fs.entryAt? (follow (fs.start (directory.join ⟨name⟩)) (Path.names directory.text.toList))
        = some .directory := by
  obtain ⟨front, htext, hback, hnone⟩ := text_join hslash directory
  by_cases hempty : directory.isEmpty
  · rw [if_pos hempty] at h
    obtain ⟨-, -, hhere⟩ := isDirectory_iff.mp h
    have hstart : fs.start (directory.join ⟨name⟩) = fs.workingDirectory := by
      have hname := not_isAbsolute_of_name hslash
      unfold Path.isAbsolute at hname
      unfold FileSystem.start Path.isAbsolute
      rw [htext, hnone hempty, List.nil_append, hname]
      rfl
    have hnames : directory.text.toList = [] := by
      rw [String.toList_eq_nil_iff]
      exact String.isEmpty_iff.mp hempty
    rw [hstart, hnames]
    exact ⟨trivial, hhere⟩
  · rw [if_neg hempty] at h
    obtain ⟨-, hwalk, hdirectory⟩ := isDirectory_iff.mp h
    have hstart : fs.start directory = fs.start (directory.join ⟨name⟩) :=
      start_of_prefix fs (by rw [htext]; exact hback.trans (List.prefix_append _ _))
        (Bool.eq_false_iff.mpr hempty)
    unfold FileSystem.destination at hdirectory
    rw [hstart] at hwalk hdirectory
    exact ⟨hwalk, hdirectory⟩

theorem checkPath_of_free (h : fs.lookup p = .error .notFound) (hp : p.isEmpty = false) :
    checkPath p = .ok () := by
  unfold lookup locate at h
  cases hcheck : checkPath p with
  | ok u => rfl
  | error fault =>
    rw [hcheck] at h
    cases h
    unfold checkPath at hcheck
    rw [hp] at hcheck
    split at hcheck
    · cases hcheck
    · split at hcheck
      · rename_i hfalse
        cases hfalse
      · split at hcheck <;> cases hcheck

/-- A name that is not found in a directory is none that is refused, and nothing has it. -/
theorem free_of_lookup (h : fs.lookup p = .error .notFound) (hnames : fs.Names p loc)
    (hslash : endsInSlash p = false) : checkName loc = .ok () ∧ fs.entryAt? loc = none := by
  have hslot : fs.slot p = .ok (.named loc false) := slot_eq_named_iff.mpr ⟨hnames, hslash.symm⟩
  have hname : checkName loc = .ok () := by
    obtain ⟨hcheck, front, last, hparts, hdots, hwalk, hdirectory, rfl⟩ := hnames
    rw [checkName_concat]
    by_contra hlong
    -- the walk gets to the directory and ends there
    have hstep : fs.step (follow (fs.start p) front) last = .error .nameTooLong := by
      unfold IsDots at hdots
      rw [not_or] at hdots
      unfold step
      simp only [hdirectory, if_neg hdots.1, if_neg hdots.2, Bool.not_eq_false] at hlong ⊢
      rw [if_pos hlong]
    unfold lookup locate at h
    rw [hcheck, parts_eq, hslash, hparts] at h
    simp only [Bool.false_eq_true, ↓reduceIte, List.append_nil, bind, Except.bind,
      walk_append hwalk, walk, hstep] at h
    cases h
  refine ⟨hname, ?_⟩
  by_contra hentry
  obtain ⟨e, he⟩ := Option.ne_none_iff_exists'.mp hentry
  rw [(lookup_of_slot hslot hname).mpr he] at h
  cases h

/-- There is room for a new file where nothing is. -/
theorem vacancy_of_vacant (h : fs.Vacant p) : ∃ loc, fs.vacancy p = .ok loc := by
  obtain ⟨⟨directory, name, rfl, hslash, hempty, hdot, hdots, hdirectory⟩, hfree⟩ := h
  obtain ⟨front, htext, -, -⟩ := text_join hslash directory
  have hne : name.toList ≠ [] := fun hnil => hempty (String.toList_eq_nil_iff.mp hnil)
  have hlast : endsInSlash (directory.join ⟨name⟩) = false := by
    unfold endsInSlash
    rw [decide_eq_false_iff_not, htext, List.getLast?_append, List.getLast?_eq_some_getLast hne,
      Option.some_or]
    intro heq
    exact hslash (Option.some_inj.mp heq ▸ List.getLast_mem hne)
  have hcheck : checkPath (directory.join ⟨name⟩) = .ok () := by
    refine checkPath_of_free hfree ?_
    rw [Bool.eq_false_iff]
    intro hnil
    rw [String.toList_eq_nil_iff.mpr (String.isEmpty_iff.mp hnil)] at htext
    exact hne (List.append_eq_nil_iff.mp htext.symm).2
  have hnames := Path.names_join_of_relative directory (not_isAbsolute_of_name hslash)
  rw [Path.names_of_notMem hslash hne] at hnames
  obtain ⟨hwalk, hplace⟩ := directory_of_join hslash hdirectory
  have hnotDots : ¬ IsDots name.toList := by
    rintro (heq | heq)
    · exact hdot (String.toList_inj.mp heq)
    · exact hdots (String.toList_inj.mp heq)
  have hloc : fs.Names (directory.join ⟨name⟩) _ :=
    ⟨hcheck, _, _, hnames, hnotDots, hwalk, hplace, rfl⟩
  obtain ⟨hname, hentry⟩ := free_of_lookup hfree hloc hlast
  exact ⟨_, vacancy_eq_ok_iff.mpr ⟨slot_eq_named_iff.mpr ⟨hloc, hlast.symm⟩, hname, hentry⟩⟩

/-! ## What is there already -/

theorem vacancy_of_slot_inside (h : fs.slot p = .ok .inside) :
    fs.vacancy p = .error .exists := by
  unfold vacancy
  rw [h]
  rfl

/-- What is there is not created again. -/
theorem vacancy_of_isPresent (hpresent : fs.isPresent p = true)
    (hslash : endsInSlash p = false) : fs.vacancy p = .error .exists := by
  obtain ⟨e, he⟩ := isPresent_iff.mp hpresent
  obtain ⟨hcheck, hwalk, hentry⟩ := lookup_eq_ok_iff.mp he
  rw [parts_eq, if_neg (by rw [hslash]; exact Bool.false_ne_true), List.append_nil] at hwalk
  rcases List.eq_nil_or_concat (Path.names p.text.toList) with hnil | ⟨front, last, hnames⟩
  · exact vacancy_of_slot_inside (slot_of_names_nil hcheck hnil)
  rw [List.concat_eq_append] at hnames
  rw [hnames, walkable_append] at hwalk
  obtain ⟨hfront, hlast, -⟩ := hwalk
  have hslot := slot_of_names_concat hcheck hnames hfront hlast.directory
  by_cases hdots : IsDots last
  · rw [if_pos hdots] at hslot
    exact vacancy_of_slot_inside hslot
  · rw [if_neg hdots, hslash] at hslot
    have hname : checkName (follow (fs.start p) front ++ [last]) = .ok () :=
      (checkName_concat _ _).mpr (hlast.notTooLong hdots)
    obtain ⟨e', he'⟩ := Option.isSome_iff_exists.mp (hlast.present hdots)
    unfold vacancy
    simp only [hslot, hname, he', bind, Except.bind, Bool.false_eq_true, ↓reduceIte]
    rfl

theorem step_ne_exists (fs : FileSystem) (loc : Location) (part : List Char) :
    fs.step loc part ≠ .error .exists := by
  unfold step
  split
  · exact nofun
  · exact nofun
  split
  · exact nofun
  split
  · exact nofun
  split
  · exact nofun
  split <;> exact nofun

theorem walk_ne_exists (fs : FileSystem) (loc : Location) (parts : List (List Char)) :
    fs.walk loc parts ≠ .error .exists := by
  induction parts generalizing loc with
  | nil => exact nofun
  | cons part rest ih =>
    unfold walk
    cases hstep : fs.step loc part with
    | ok next => exact ih next
    | error fault =>
      intro h
      cases h
      exact step_ne_exists fs loc part hstep

theorem checkPath_ne_exists (p : Path) : checkPath p ≠ .error .exists := by
  unfold checkPath
  split
  · exact nofun
  split
  · exact nofun
  split <;> exact nofun

/-- A path to something new is refused for other reasons than that it is there. -/
theorem slot_ne_exists (fs : FileSystem) (p : Path) : fs.slot p ≠ .error .exists := by
  unfold slot
  cases hcheck : checkPath p with
  | error fault =>
    intro h
    cases h
    exact checkPath_ne_exists p hcheck
  | ok u =>
    simp only [bind, Except.bind]
    split
    · exact nofun
    · split
      · rename_i hwalk
        intro h
        cases h
        exact walk_ne_exists _ _ _ hwalk
      · split
        · split <;> exact nofun
        · exact nofun
        · exact nofun

theorem slot_inside_cases (h : fs.slot p = .ok .inside) :
    checkPath p = .ok () ∧ (Path.names p.text.toList = []
      ∨ ∃ front last, Path.names p.text.toList = front ++ [last] ∧ IsDots last
        ∧ fs.Walkable (fs.start p) front
        ∧ fs.entryAt? (follow (fs.start p) front) = some .directory) := by
  obtain ⟨hcheck, ⟨hnil, -⟩ | ⟨front, last, hnames, hwalk, hdirectory, hslot⟩⟩ := slot_cases h
  · exact ⟨hcheck, .inl hnil⟩
  · have hdots : IsDots last := by
      by_contra hname
      rw [if_neg hname] at hslot
      cases hslot
    exact ⟨hcheck, .inr ⟨front, last, hnames, hdots, hwalk, hdirectory⟩⟩

/-- A path into a directory leads to one. Only `..` need not: what is above a directory may be
missing. -/
theorem isDirectory_of_slot_inside (h : fs.slot p = .ok .inside)
    (hup : ∀ front, Path.names p.text.toList ≠ front ++ [['.', '.']]) :
    fs.isDirectory p = true := by
  obtain ⟨hcheck, hnil | ⟨front, last, hnames, hdots, hwalk, hdirectory⟩⟩ := slot_inside_cases h
  · have habsolute : p.isAbsolute = true := by
      refine Path.isAbsolute_of_names_nil hnil ?_
      exact (checkPath_eq_ok_iff.mp hcheck).2.1
    refine isDirectory_iff.mpr ⟨hcheck, by rw [hnil]; trivial, ?_⟩
    unfold FileSystem.destination FileSystem.start
    rw [hnil, if_pos habsolute]
    rfl
  · rcases hdots with rfl | rfl
    · refine isDirectory_iff.mpr ⟨hcheck, ?_, ?_⟩
      · rw [hnames, walkable_append]
        exact ⟨hwalk, ⟨hdirectory, fun hn => absurd (.inl rfl) hn, fun hn => absurd (.inl rfl) hn⟩,
          trivial⟩
      · unfold FileSystem.destination
        rw [hnames, follow_append]
        exact hdirectory
    · exact absurd hnames (hup front)

/-- Only what is there is refused because it is there. -/
theorem isPresent_of_vacancy (h : fs.vacancy p = .error .exists)
    (hup : ∀ front, Path.names p.text.toList ≠ front ++ [['.', '.']]) :
    fs.isPresent p = true := by
  unfold vacancy at h
  cases hslot : fs.slot p with
  | error fault =>
    rw [hslot] at h
    cases h
    exact absurd hslot (slot_ne_exists fs p)
  | ok target =>
    rw [hslot] at h
    simp only [bind, Except.bind] at h
    cases target with
    | inside =>
      have hdirectory := isDirectory_of_slot_inside hslot hup
      unfold isDirectory at hdirectory
      unfold isPresent
      split at hdirectory
      · rename_i hlookup
        rw [hlookup]
      · cases hdirectory
    | named loc slash =>
      cases slash with
      | true => cases h
      | false =>
        cases hname : checkName loc with
        | error fault =>
          simp only [hname] at h
          unfold checkName at hname
          split at hname <;> cases hname
          cases h
        | ok u =>
          cases hentry : fs.entryAt? loc with
          | none =>
            simp only [hname, hentry] at h
            cases h
          | some e => exact isPresent_iff.mpr ⟨e, (lookup_of_slot hslot hname).mpr hentry⟩

/-! ## On a disk -/

theorem createNew_eq_ok_iff :
    fs.createNew disk p = .ok (loc, created)
      ↔ fs.vacancy p = .ok loc ∧ disk.refusal? .create = none
        ∧ created = fs.put loc (.file .blank) := by
  unfold createNew
  cases fs.vacancy p with
  | error fault => simp [bind, Except.bind]
  | ok place =>
    cases disk.refusal? .create with
    | some fault => simp [bind, Except.bind, throw, throwThe, MonadExceptOf.throw]
    | none =>
      simp only [bind, Except.bind, pure, Except.pure, Except.ok.injEq, Prod.mk.injEq, true_and]
      constructor
      · rintro ⟨rfl, rfl⟩
        exact ⟨rfl, rfl⟩
      · rintro ⟨rfl, rfl⟩
        exact ⟨rfl, rfl⟩

/-- Something is said to be there if it is, or if the disk says so. -/
theorem createNew_eq_exists_iff :
    fs.createNew disk p = .error .exists
      ↔ fs.vacancy p = .error .exists
        ∨ (∃ loc, fs.vacancy p = .ok loc) ∧ disk.refusal? .create = some .exists := by
  unfold createNew
  cases fs.vacancy p with
  | error fault => simp [bind, Except.bind]
  | ok place =>
    cases disk.refusal? .create with
    | some fault => simp [bind, Except.bind, throw, throwThe, MonadExceptOf.throw]
    | none => simp [bind, Except.bind, pure, Except.pure]

end DialogueBuild.FileSystem

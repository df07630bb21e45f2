import DialogueBuild.Proofs.Project.Inputs
import DialogueBuild.Proofs.Project.Saving
/-!
Compiling a project that was just created.

The path of a new project is made of a text, while projects are told by the file name of their
paths. The two agree but for a name that is empty or ends in a slash: the file name is then only the
extension with its dot, which is no extension of anything.

Results:

1. `pathFor_hasExtension_iff`        which names make a path that is that of a project;
2. `created_compiles_if_named`       what is created, and what it is when it is compiled;
3. `exists_created_loose_source`     a new project that is compiled as a source.
-/
namespace DialogueBuild.Project

variable {disk : FileSystem.Disk} {fs fs' : FileSystem} {loc : Location} {name : String}
  {excludeBuilds : Bool} {directory path : Path}

/-! ## The paths of new projects -/

/-- Something stands in front of the extension that a new project is given. -/
def NamesSomething (name : String) : Prop := name ≠ "" ∧ name.toList.getLast? ≠ some '/'

/-- What the extension adds to a name. -/
def suffix : List Char := '.' :: fileExtension

theorem toList_suffixed (name : String) :
    (name ++ "." ++ String.ofList fileExtension).toList = name.toList ++ suffix := by
  rw [String.append_assoc, String.toList_append, String.toList_append, String.toList_ofList]
  rfl

/-- A name that has an extension does not keep it from being one when it is in a directory. -/
theorem pathFor_of_hasExtension (h : Path.HasExtension ⟨name⟩ fileExtension) :
    (pathFor name directory).HasExtension fileExtension := by
  rw [pathFor, if_pos (isProjectPath_iff.mpr h)]
  exact h.join

/-- The last part of a suffixed text is its file name, whatever it starts with. -/
theorem componentOfPart_suffixed (back : List Char) :
    Path.componentOfPart (back ++ suffix) = some (.name (back ++ suffix)) := by
  have hsuffix : suffix.length = 12 := by decide
  have hlength : 12 ≤ (back ++ suffix).length := by
    rw [List.length_append, hsuffix]
    exact Nat.le_add_left ..
  unfold Path.componentOfPart
  split
  case h_4 => rfl
  all_goals
    rename_i heq
    rw [heq] at hlength
    exact absurd hlength (by simp)

/-- The file name of a new project ends in what stood behind the last slash of its name. -/
theorem fileName?_pathFor (h : ¬ Path.HasExtension ⟨name⟩ fileExtension) {back : List Char}
    (hback : Path.EndsWith back name.toList) :
    (pathFor name directory).fileName? = some (back ++ suffix) := by
  rw [pathFor, if_neg (mt isProjectPath_iff.mp h)]
  refine Path.fileName?_join ?_
  have hslash : '/' ∉ suffix := by decide
  obtain ⟨front, hnames⟩ := hback.exists_names hslash (by decide)
  rw [← toList_suffixed] at hnames
  exact Path.fileName?_of_names hnames (componentOfPart_suffixed back)

theorem pathFor_hasExtension_iff :
    (pathFor name directory).HasExtension fileExtension
      ↔ Path.HasExtension ⟨name⟩ fileExtension ∨ NamesSomething name := by
  by_cases h : Path.HasExtension ⟨name⟩ fileExtension
  · exact iff_of_true (pathFor_of_hasExtension h) (.inl h)
  rw [or_iff_right h]
  obtain ⟨back, hback⟩ := Path.exists_endsWith name.toList
  have hfile : (pathFor name directory).fileName? = some (back ++ suffix) :=
    fileName?_pathFor h hback
  have hnil : back ≠ [] ↔ NamesSomething name := by
    rw [ne_eq, hback.eq_nil_iff, not_or, NamesSomething, String.toList_eq_nil_iff]
  rw [← hnil]
  constructor
  · rintro ⟨stem, hstem, hname⟩ rfl
    rw [hfile, Option.some_inj] at hname
    exact hstem (List.append_cancel_right hname).symm
  · exact fun hne => ⟨back, hne, hfile⟩

/-! ## Creating -/

/-- No file is created at a path that ends in a slash. -/
theorem getLast?_of_vacancy (h : fs.vacancy (pathFor name directory) = .ok loc)
    (hname : Path.HasExtension ⟨name⟩ fileExtension) : name.toList.getLast? ≠ some '/' := by
  obtain ⟨hslot, -⟩ := FileSystem.vacancy_eq_ok_iff.mp h
  obtain ⟨-, hslash⟩ := FileSystem.slot_eq_named_iff.mp hslot
  rw [pathFor, if_pos (isProjectPath_iff.mpr hname)] at hslash
  intro hlast
  obtain ⟨front, hfront⟩ := Path.suffix_join directory ⟨name⟩
  have hjoin : FileSystem.endsInSlash (directory.join ⟨name⟩) = true := by
    rw [FileSystem.endsInSlash, decide_eq_true_iff, ← hfront, List.getLast?_append, hlast]
    rfl
  rw [hjoin] at hslash
  cases hslash

theorem ne_empty_of_hasExtension {ext : List Char} (h : Path.HasExtension ⟨name⟩ ext) :
    name ≠ "" := by
  rintro rfl
  obtain ⟨stem, -, hfile⟩ := h
  cases hfile

/-- The path at which a project was created is that of a project if the name names something. -/
theorem isProjectPath_of_vacancy (h : fs.vacancy (pathFor name directory) = .ok loc) :
    isProjectPath (pathFor name directory) = true ↔ NamesSomething name := by
  rw [isProjectPath_iff, pathFor_hasExtension_iff, or_iff_right_iff_imp]
  exact fun hname => ⟨ne_empty_of_hasExtension hname, getLast?_of_vacancy h hname⟩

/-- Else its file is called like the bare extension. -/
theorem fileName?_of_loose (hloose : isProjectPath (pathFor name directory) = false) :
    (pathFor name directory).fileName? = some suffix := by
  have hnone : ¬ (pathFor name directory).HasExtension fileExtension := by
    rw [← isProjectPath_iff, hloose]
    exact Bool.false_ne_true
  obtain ⟨back, hback⟩ := Path.exists_endsWith name.toList
  have hfile : (pathFor name directory).fileName? = some (back ++ suffix) :=
    fileName?_pathFor (fun hname => hnone (pathFor_of_hasExtension hname)) hback
  by_cases hne : back = []
  · rw [hfile, hne]
    rfl
  · exact absurd ⟨back, hne, hfile⟩ hnone

/-- The patterns of a new project can be read. -/
theorem patternsValid_new (excludeBuilds : Bool) (path : Path) :
    PatternsValid ⟨(new excludeBuilds).manifest, path⟩ := by
  constructor
  · intro pattern hpattern
    cases excludeBuilds with
    | false => cases hpattern
    | true =>
      rw [List.mem_singleton.mp hpattern]
      exact ⟨_, rfl⟩
  · intro pattern hpattern part hpart
    rw [List.mem_singleton.mp hpattern] at hpart
    have hparts : Path.splitSlashes "**/*.yarn".toList = ["**".toList, "*.yarn".toList] := by
      decide
    rw [hparts] at hpart
    rcases List.mem_cons.mp hpart with rfl | hpart
    · exact ⟨_, rfl⟩
    · rw [List.mem_singleton.mp hpart]
      exact ⟨_, rfl⟩

/-- A project that was created, on whatever disk, is there, new, in a file where nothing was, and
nothing else has changed. If its name is neither empty nor ends in a slash, its path is that of a
project, and every run with this path as its input compiles the new project: its patterns can be
read, its version is the current one, and it declares nothing. Else the file is called like the bare
extension, and every run takes it for a source. -/
theorem created_compiles_if_named
    (h : createOn disk fs name excludeBuilds directory = (fs', .ok path)) :
    path = pathFor name directory
    ∧ load fs' path = .ok ⟨(new excludeBuilds).manifest, path⟩
    ∧ (fs.entryAt? (fs.destination path) = none
      ∧ fs'.entryAt? (fs.destination path)
        = some (.file (.ofText (new excludeBuilds).manifest.text))
      ∧ (∀ loc, loc ≠ fs.destination path → fs'.entryAt? loc = fs.entryAt? loc)
      ∧ fs'.workingDirectory = fs.workingDirectory)
    ∧ (isProjectPath path = true ↔ name ≠ "" ∧ name.toList.getLast? ≠ some '/')
    ∧ (isProjectPath path = true →
      ∃ sources, Project.sources ⟨(new excludeBuilds).manifest, path⟩ fs' = .ok sources
        ∧ ∀ version, Job.ofInputs fs' [path] version = .ok ⟨sources, Manifest.currentVersion, []⟩)
    ∧ (isProjectPath path = false →
      path.fileName? = some ('.' :: fileExtension)
        ∧ ∀ version, Job.ofInputs fs' [path] version = .ok ⟨[path], version, []⟩) := by
  obtain ⟨rfl, loc, hvacant, -, -, rfl⟩ := createOn_eq_ok_iff.mp h
  let fs' := fs.put loc (.file (.ofText (new excludeBuilds).manifest.text))
  have hload : load fs' (pathFor name directory)
      = .ok ⟨(new excludeBuilds).manifest, pathFor name directory⟩ :=
    load_eq_ok_iff.mpr ⟨_, FileSystem.readText_of_vacancy hvacant _,
      Manifest.ofText_text (Manifest.sound_new excludeBuilds) nofun, rfl⟩
  refine ⟨rfl, hload, FileSystem.entries_of_vacancy hvacant _, isProjectPath_of_vacancy hvacant,
    fun hproject => ?_, fun hloose => ?_⟩
  · have hvalid := patternsValid_new excludeBuilds (pathFor name directory)
    obtain ⟨sources, hsources⟩ : ∃ sources, Project.sources _ fs' = .ok sources :=
      exists_sources_iff.mpr hvalid
    refine ⟨sources, hsources, fun version => ?_⟩
    rw [Job.ofInputs_of_project (isProjectPath_iff.mp hproject), hload]
    exact Job.ofProject_eq_ok_iff.mpr ⟨hsources, rfl, fun _ => rfl, nofun⟩
  · refine ⟨fileName?_of_loose hloose, fun version => Job.ofInputs_of_loose ?_⟩
    intro q hq
    rw [List.mem_singleton.mp hq, ← isProjectPath_iff, hloose]
    exact Bool.false_ne_true

/-- A name with a directory part and another extension. -/
theorem created_compiles_if_named_inside :
    let fs : FileSystem := ⟨[(["games".toList], .directory)], by decide, []⟩
    let path : Path := ⟨"./games/Foo.yarn.yarnproject"⟩
    ∃ fs', createOn fs.soundDisk fs "games/Foo.yarn" true ⟨"."⟩ = (fs', .ok path)
      ∧ load fs' path = .ok ⟨(new true).manifest, path⟩
      ∧ isProjectPath path = true
      ∧ ∃ sources, ∀ version,
        Job.ofInputs fs' [path] version = .ok ⟨sources, Manifest.currentVersion, []⟩ := by
  intro fs path
  have hslot : fs.slot path
      = .ok (.named ["games".toList, "Foo.yarn.yarnproject".toList] false) := by
    unfold fs path
    rfl
  have hvacant : fs.vacancy path = .ok _ :=
    FileSystem.vacancy_eq_ok_iff.mpr ⟨hslot, by decide, by decide⟩
  have hcreate : createOn fs.soundDisk fs "games/Foo.yarn" true ⟨"."⟩ = (_, .ok path) :=
    createOn_eq_ok_iff.mpr ⟨by decide, _, hvacant, rfl, rfl, rfl⟩
  obtain ⟨-, hload, -, hproject, hcompiled, -⟩ := created_compiles_if_named hcreate
  have hpath : isProjectPath path = true := hproject.mpr (by decide)
  obtain ⟨sources, -, hjob⟩ := hcompiled hpath
  exact ⟨_, hcreate, hload, hpath, sources, hjob⟩

/-- Without a name there is a new project, but it is compiled as a source, beside which the sources
in its directory are left out. -/
theorem exists_created_loose_source :
    let fs : FileSystem := ⟨[(["a.yarn".toList], .file (.ofText ""))], by decide, []⟩
    let path : Path := ⟨"./.yarnproject"⟩
    ∃ fs', createOn fs.soundDisk fs "" false ⟨"."⟩ = (fs', .ok path)
      ∧ load fs' path = .ok ⟨(new false).manifest, path⟩
      ∧ isProjectPath path = false
      ∧ Job.ofInputs fs' [path] Job.defaultVersion = .ok ⟨[path], Job.defaultVersion, []⟩ := by
  intro fs path
  have hslot : fs.slot path = .ok (.named [".yarnproject".toList] false) := by
    unfold fs path
    rfl
  have hvacant : fs.vacancy path = .ok _ :=
    FileSystem.vacancy_eq_ok_iff.mpr ⟨hslot, by decide, by decide⟩
  have hloose : isProjectPath path = false := by decide
  refine ⟨_, createOn_eq_ok_iff.mpr ⟨by decide, _, hvacant, rfl, rfl, rfl⟩, ?_, hloose,
    Job.ofInputs_of_loose ?_⟩
  · exact load_eq_ok_iff.mpr ⟨_, FileSystem.readText_of_vacancy hvacant _,
      Manifest.ofText_text (Manifest.sound_new false) nofun, rfl⟩
  · intro q hq
    rw [List.mem_singleton.mp hq, ← isProjectPath_iff, hloose]
    exact Bool.false_ne_true

end DialogueBuild.Project

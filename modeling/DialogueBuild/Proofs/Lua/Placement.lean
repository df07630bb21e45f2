import DialogueBuild.Proofs.FileSystem.Creation
import DialogueBuild.Proofs.Lua.ModuleFile
import DialogueBuild.Proofs.Path.FileName
/-!
Where modules land.

The scratch file is placed by the directory of the output alone, and the module by the directory
and its name. The name of a module that lends it from its inputs is free of slashes, so that both
are neighbours. A given name is taken as it is: what stands in front of its last slash leads on from
the directory, or from the root.

Results:

1. `destination_join`                    where a path in a directory leads;
2. `exists_scratch_of_install`           the scratch file is in the directory of the output;
3. `destination_programPath_of_notMem`, `destination_programPath_of_slash`
                                         where the module is, by its name;
4. `slash_notMem_moduleName`             names that are lent from inputs are free of slashes;
5. `modules_land_as_named`               all of this of a module that was written;
6. `exists_module_elsewhere`             a module that is not in the directory of the output.
-/
namespace DialogueBuild

open FileSystem

/-! ## Paths in a directory -/

theorem Path.isAbsolute_join (directory : Path) {q : Path} (hq : q.isAbsolute = false) :
    (directory.join q).isAbsolute = directory.isAbsolute := by
  have hprefix : directory.text.toList <+: (directory.join q).text.toList := by
    unfold join
    rw [hq, if_neg Bool.false_ne_true]
    split
    · exact ⟨_, (String.toList_append ..).symm⟩
    · rw [String.toList_append, String.toList_append, List.append_assoc]
      exact List.prefix_append _ _
  cases hcs : directory.text.toList with
  | nil =>
    have hempty : directory.isEmpty = true := by
      rw [isEmpty, String.toList_eq_nil_iff.mp hcs]
      rfl
    have hjoin : (directory.join q).text.toList = q.text.toList := by
      unfold join
      rw [hq, if_neg Bool.false_ne_true, hempty, Bool.true_or, if_pos rfl, String.toList_append,
        hcs, List.nil_append]
    rw [isAbsolute, hjoin]
    exact hq.trans (by rw [isAbsolute, hcs]; rfl)
  | cons c rest =>
    obtain ⟨more, hmore⟩ := hprefix
    rw [isAbsolute, isAbsolute, ← hmore, hcs]
    rfl

namespace FileSystem

variable {fs : FileSystem} {directory q : Path}

/-- A relative path leads on from the directory it is appended to. -/
theorem destination_join (fs : FileSystem) (directory : Path) (hq : q.isAbsolute = false) :
    fs.destination (directory.join q)
      = follow (fs.destination directory) (Path.names q.text.toList) := by
  unfold destination FileSystem.start
  rw [Path.isAbsolute_join directory hq, Path.names_join_of_relative directory hq, follow_append]

/-- An absolute path leads where it leads on its own. -/
theorem destination_join_of_absolute (fs : FileSystem) (directory : Path)
    (hq : q.isAbsolute = true) :
    fs.destination (directory.join q) = follow [] (Path.names q.text.toList) := by
  unfold destination FileSystem.start Path.join
  rw [if_pos hq, if_pos hq]

/-- A scratch file has a name in the directory that it is created in. -/
theorem exists_name_of_createScratch {disk : Disk} {scratch : Location} {created : FileSystem}
    (h : fs.createScratch disk directory = .ok (scratch, created)) :
    ∃ name, scratch = fs.destination directory ++ [name] := by
  unfold createScratch at h
  obtain ⟨loc, hlocate, h⟩ := bind_eq_ok.mp h
  obtain ⟨-, -, rfl⟩ := locate_eq_ok_iff.mp hlocate
  split at h
  · cases h
  · cases h
  · split at h <;> cases h
    exact ⟨_, rfl⟩

end FileSystem

namespace Lua

variable {disk : Disk} {fs fs' : FileSystem} {directory path : Path} {text : String}
  {inputs : List Path} {c : Compilation} {o : ModuleOptions} {artifact : Artifact}

/-! ## Scratch files -/

/-- The scratch files for a directory lead to it, also if it is left empty. -/
theorem destination_scratchDirectory (fs : FileSystem) (directory : Path) :
    fs.destination (scratchDirectory directory) = fs.destination directory := by
  unfold scratchDirectory
  split
  · rename_i hempty
    have hdirectory : directory = ⟨""⟩ := congrArg Path.mk (String.isEmpty_iff.mp hempty)
    rw [hdirectory]
    rfl
  · rfl

/-- What is installed is written to a scratch file in the directory first. -/
theorem exists_scratch_of_install (h : install disk fs directory path text = (fs', .ok ())) :
    ∃ fs₁ name created, fs.createDirectories directory = (fs₁, .ok ())
      ∧ fs₁.createScratch disk (scratchDirectory directory)
        = .ok (fs.destination directory ++ [name], created) := by
  unfold install at h
  split at h
  · cases h
  rename_i fs₁ hcreate
  have hadds : AddsDirectories (trail fs directory) fs fs₁ := addsDirectories_createFirst hcreate
  unfold replaceFile at h
  cases hscratch : fs₁.createScratch disk (scratchDirectory directory) with
  | error fault =>
    rw [hscratch] at h
    cases h
  | ok place =>
    obtain ⟨scratch, created⟩ := place
    obtain ⟨name, rfl⟩ := exists_name_of_createScratch hscratch
    rw [destination_scratchDirectory, hadds.grows.destination] at hscratch
    exact ⟨fs₁, name, created, hcreate, hscratch⟩

/-! ## Modules -/

/-- A module is never called `.` or `..`. -/
theorem not_isDots_append (back : List Char) : ¬ IsDots (back ++ moduleExtension.toList) := by
  have hextension : moduleExtension.toList.length = 10 := by decide
  have hlength : 10 ≤ (back ++ moduleExtension.toList).length := by
    rw [List.length_append, hextension]
    exact Nat.le_add_left ..
  rintro (hdots | hdots) <;> rw [hdots] at hlength <;> exact absurd hlength (by decide)

theorem isAbsolute_append (name : String) :
    Path.isAbsolute ⟨name ++ moduleExtension⟩ = Path.isAbsolute ⟨name⟩ := by
  unfold Path.isAbsolute Path.isAbsoluteText
  rw [String.toList_append, List.head?_append]
  cases name.toList.head? <;> rfl

theorem names_append_of_notMem {name : String} (h : '/' ∉ name.toList) :
    Path.names (name ++ moduleExtension).toList = [(name ++ moduleExtension).toList] := by
  refine Path.names_of_notMem ?_ ?_
  · rw [String.toList_append, List.mem_append, not_or]
    exact ⟨h, by decide⟩
  · rw [String.toList_append]
    exact List.append_ne_nil_of_right_ne_nil _ (by decide)

/-- A module whose name is free of slashes is in the directory. -/
theorem destination_programPath_of_notMem (fs : FileSystem) (directory : Path) {name : String}
    (h : '/' ∉ name.toList) :
    fs.destination (directory.join ⟨name ++ moduleExtension⟩)
      = fs.destination directory ++ [(name ++ moduleExtension).toList] := by
  have hrelative : Path.isAbsolute ⟨name ++ moduleExtension⟩ = false := by
    rw [isAbsolute_append]
    exact not_isAbsolute_of_name h
  rw [destination_join fs directory hrelative, names_append_of_notMem h]
  rw [String.toList_append]
  exact turn_name (not_isDots_append _)

/-- What stands in front of the last slash of a name leads on to the module. -/
theorem destination_programPath_of_slash (fs : FileSystem) (directory : Path) {name : String}
    {front back : List Char} (hname : name.toList = front ++ '/' :: back) (hback : '/' ∉ back) :
    fs.destination (directory.join ⟨name ++ moduleExtension⟩)
      = follow (if Path.isAbsolute ⟨name⟩ then [] else fs.destination directory)
          (Path.names front) ++ [back ++ moduleExtension.toList] := by
  have hlast : Path.names (back ++ moduleExtension.toList) = [back ++ moduleExtension.toList] :=
    Path.names_of_notMem (by rw [List.mem_append, not_or]; exact ⟨hback, by decide⟩)
      (List.append_ne_nil_of_right_ne_nil _ (by decide))
  have hnames : Path.names (name ++ moduleExtension).toList
      = Path.names front ++ [back ++ moduleExtension.toList] := by
    rw [String.toList_append, hname, List.append_assoc, List.cons_append,
      Path.names_append_slash, hlast]
  split
  · rename_i habsolute
    rw [destination_join_of_absolute fs directory (by rw [isAbsolute_append, habsolute]), hnames,
      follow_append]
    exact turn_name (not_isDots_append _)
  · rename_i hrelative
    rw [destination_join fs directory (by rw [isAbsolute_append, Bool.eq_false_iff.mpr hrelative]),
      hnames, follow_append]
    exact turn_name (not_isDots_append _)

/-- A module is in the directory, under its name, if and only if its name is free of slashes. -/
theorem destination_programPath_iff (fs : FileSystem) (directory : Path) (name : String) :
    fs.destination (directory.join ⟨name ++ moduleExtension⟩)
        = fs.destination directory ++ [(name ++ moduleExtension).toList]
      ↔ '/' ∉ name.toList := by
  refine ⟨fun hplace hslash => ?_, destination_programPath_of_notMem fs directory⟩
  obtain ⟨front, back, hname, hback⟩ := Text.exists_last hslash
  rw [destination_programPath_of_slash fs directory hname hback] at hplace
  have hlast := List.singleton_inj.mp (List.append_inj_right' hplace rfl)
  rw [String.toList_append] at hlast
  rw [List.append_cancel_right hlast] at hback
  exact hback hslash

/-- Inputs lend no slash to the name of a module. -/
theorem slash_notMem_moduleName {given : Option String}
    (h : given = none ∨ given = some defaultName) (inputs : List Path) :
    '/' ∉ (moduleName inputs given).toList := by
  have hdefault : '/' ∉ defaultName.toList := by decide
  have hgiven : given.filter (· ≠ defaultName) = none := by
    rcases h with rfl | rfl <;> rfl
  unfold moduleName
  rw [hgiven]
  split
  · exact absurd ‹_› (by simp)
  · split
    · rename_i stem hstem
      rw [String.toList_ofList]
      exact Path.slash_notMem_stem hstem
    · exact hdefault
  · exact hdefault

/-- Every other name is taken as it is given. -/
theorem moduleName_of_given {name : String} (h : name ≠ defaultName) (inputs : List Path) :
    moduleName inputs (some name) = name := by
  unfold moduleName
  rw [Option.filter_some, decide_eq_true h, if_pos rfl]

/-- A module that was written went to a scratch file in the directory of the output first, and then
took its place; apart from directories on the way nothing else has changed. Its place is the one in
the same directory that its name and extension say if and only if its name is free of slashes. If
it is not, what stands in front of the last slash leads on, from the root if the name starts there,
else from the directory. Names that are lent from inputs are free of slashes; all others are taken
as they are given. -/
theorem modules_land_as_named (h : writeModuleOn disk fs inputs c o = (fs', .ok artifact)) :
    let place := fs.destination o.directory
    let target := fs.destination artifact.programPath
    (∃ fs₁ scratch created, fs.createDirectories o.directory = (fs₁, .ok ())
      ∧ fs₁.createScratch disk (scratchDirectory o.directory) = .ok (place ++ [scratch], created))
    ∧ Placed (trail fs o.directory) target (String.ofList (chunkText artifact.name c)).toUTF8 fs fs'
    ∧ (target = place ++ [(artifact.name ++ moduleExtension).toList]
      ↔ '/' ∉ artifact.name.toList)
    ∧ (∀ front back, artifact.name.toList = front ++ '/' :: back → '/' ∉ back →
      target = follow (if Path.isAbsolute ⟨artifact.name⟩ then [] else place) (Path.names front)
        ++ [back ++ moduleExtension.toList])
    ∧ (o.name = none ∨ o.name = some defaultName → '/' ∉ artifact.name.toList)
    ∧ ∀ name, o.name = some name → name ≠ defaultName → artifact.name = name := by
  intro place target
  obtain ⟨rfl, hinstall⟩ := writeModuleOn_ok h
  refine ⟨exists_scratch_of_install hinstall, placed_install hinstall,
    destination_programPath_iff fs o.directory _,
    fun front back => destination_programPath_of_slash fs o.directory,
    fun hgiven => slash_notMem_moduleName hgiven inputs, ?_⟩
  intro name hname hother
  show moduleName inputs o.name = name
  rw [hname]
  exact moduleName_of_given hother inputs

/-- The name of a module that is lent from its input, whose path leads elsewhere. -/
theorem modules_land_as_named_lent :
    let fs : FileSystem := ⟨[(["w".toList], .directory)], by decide, ["w".toList]⟩
    let disk : Disk := ⟨["t".toList], fun _ => none, id⟩
    let c : Compilation := ⟨none, .empty, []⟩
    let o : ModuleOptions := ⟨⟨"o/p"⟩, none, none⟩
    let inputs : List Path := [⟨"../x/Foo.yarn"⟩]
    ∃ fs' artifact, writeModuleOn disk fs inputs c o = (fs', .ok artifact)
      ∧ '/' ∉ artifact.name.toList
      ∧ fs.destination artifact.programPath
        = fs.destination ⟨"o/p"⟩ ++ [(artifact.name ++ moduleExtension).toList] := by
  intro fs disk c o inputs
  have hwrite := writeModuleOn_of_toBool
    (show (writeModuleOn disk fs inputs c o).2.toBool = true by decide +kernel +zetaReduce)
  obtain ⟨-, -, hplace, -, hlent, -⟩ := modules_land_as_named hwrite
  have hname := hlent (.inl rfl)
  exact ⟨_, _, hwrite, hname, hplace.mpr hname⟩

/-- A module that is given a name that starts with `..` is written, but beside the directory of the
output; its scratch file was in the directory. -/
theorem exists_module_elsewhere :
    let fs : FileSystem := ⟨[(["w".toList], .directory)], by decide, ["w".toList]⟩
    let disk : Disk := ⟨["t".toList], fun _ => none, id⟩
    let c : Compilation := ⟨none, .empty, []⟩
    let o : ModuleOptions := ⟨⟨"o"⟩, some "../Foo", none⟩
    ∃ fs' artifact, writeModuleOn disk fs [] c o = (fs', .ok artifact)
      ∧ fs'.locate artifact.programPath = .ok ["w".toList, "Foo.yarnc.lua".toList]
      ∧ fs.destination o.directory = ["w".toList, "o".toList]
      ∧ ∃ fs₁ created, fs.createDirectories o.directory = (fs₁, .ok ())
        ∧ fs₁.createScratch disk (scratchDirectory o.directory)
          = .ok (["w".toList, "o".toList, "t".toList], created) := by
  intro fs disk c o
  have hwrite := writeModuleOn_of_toBool
    (show (writeModuleOn disk fs [] c o).2.toBool = true by decide +kernel +zetaReduce)
  obtain ⟨-, hinstall⟩ := writeModuleOn_ok hwrite
  let made := fs.put ["w".toList, "o".toList] .directory
  refine ⟨_, _, hwrite, ?_, by decide +zetaReduce, made,
    made.put ["w".toList, "o".toList, "t".toList] (.file File.blank), ?_, ?_⟩
  · rw [locate_of_install hinstall]
    decide +zetaReduce
  · unfold fs o made
    rfl
  · unfold made fs disk o
    rfl

end Lua

end DialogueBuild

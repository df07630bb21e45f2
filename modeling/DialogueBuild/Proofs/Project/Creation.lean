import DialogueBuild.Project.Basic
import DialogueBuild.Proofs.FileSystem.Creation
/-!
Creating projects.

Results:

1. `pathFor_not_up`         the path of a new project does not end in `..`;
2. `saveOn_cases`           all that saving a manifest can come to;
3. `save_eq_ok_iff`         when it succeeds on a disk that refuses nothing;
4. `createOn_eq_ok_iff`     and when a project is created.
-/
namespace DialogueBuild.Project

variable {disk : FileSystem.Disk} {fs fs' : FileSystem} {p : Project} {path : Path}
  {name : String} {excludeBuilds : Bool} {directory : Path}

/-! ## Where projects go -/

/-- A path with a file name has parts, and the last one is not `..`. -/
theorem names_of_fileName? {n : List Char} (h : path.fileName? = some n) :
    ∃ front last, Path.names path.text.toList = front ++ [last] ∧ last ≠ ['.', '.'] := by
  unfold Path.fileName? Path.components Path.componentsOfText at h
  simp only [← Path.filterMap_names] at h
  rcases List.eq_nil_or_concat (Path.names path.text.toList) with hnil | ⟨front, last, hnames⟩
  · rw [hnil, List.filterMap_nil, List.append_nil] at h
    split at h
    · rename_i hlast
      split at hlast
      · cases hlast
      · split at hlast <;> cases hlast
    · cases h
  · rw [List.concat_eq_append] at hnames
    refine ⟨front, last, hnames, ?_⟩
    rintro rfl
    have hup : [['.', '.']].filterMap Path.componentOfPart = [Path.Component.up] := rfl
    rw [hnames, List.filterMap_append, hup, ← List.append_assoc, List.getLast?_concat] at h
    cases h

/-- The path of a new project does not end in `..`. -/
theorem pathFor_not_up (name : String) (directory : Path) (front : List (List Char)) :
    Path.names (pathFor name directory).text.toList ≠ front ++ [['.', '.']] := by
  intro hup
  unfold pathFor at hup
  split at hup
  · rename_i hproject
    unfold isProjectPath Path.extension? at hproject
    rw [decide_eq_true_iff, Option.bind_eq_some_iff] at hproject
    obtain ⟨n, hn, -⟩ := hproject
    obtain ⟨own, last, hown, hlast⟩ := names_of_fileName? hn
    obtain ⟨before, hjoin⟩ := Path.names_join directory ⟨name⟩
    rw [hjoin, hown, ← List.append_assoc] at hup
    exact hlast (List.singleton_inj.mp (List.append_inj_right' hup rfl))
  · have htext : (name ++ "." ++ String.ofList fileExtension).toList
        = (name ++ ".yarnprojec").toList ++ ['t'] := by
      have hext : ("." ++ String.ofList fileExtension).toList = ".yarnprojec".toList ++ ['t'] := by
        decide
      rw [String.append_assoc, String.toList_append, hext, String.toList_append, List.append_assoc]
    obtain ⟨before, hjoin⟩ :=
      Path.names_join directory ⟨name ++ "." ++ String.ofList fileExtension⟩
    obtain ⟨own, part, hown⟩ := Path.names_concat (name ++ ".yarnprojec").toList
      (show 't' ≠ '/' by decide)
    rw [hjoin, htext, hown, ← List.append_assoc] at hup
    have hlast := List.singleton_inj.mp (List.append_inj_right' hup rfl)
    have hend : 't' = '.' := by
      simpa using congrArg List.getLast? hlast
    exact absurd hend (by decide)

/-! ## Saving -/

/-- A manifest is saved, or is refused because something is there, or cannot be created. Or it is
created and cannot be written: then its file stays, with what has reached the disk. -/
theorem saveOn_cases (p : Project) (disk : FileSystem.Disk) (fs : FileSystem) (path : Path) :
    (∃ loc, fs.vacancy path = .ok loc ∧ disk.refusal? .create = none
        ∧ disk.refusal? .write = none
        ∧ p.saveOn disk fs path = (fs.put loc (.file (.ofText p.manifest.text)), .ok ()))
      ∨ (fs.createNew disk path = .error .exists
        ∧ p.saveOn disk fs path = (fs, .error (.misuse (.projectExists path))))
      ∨ (∃ fault, fs.createNew disk path = .error fault ∧ fault ≠ .exists
        ∧ p.saveOn disk fs path = (fs, .error (.access path fault)))
      ∨ ∃ loc fault, fs.vacancy path = .ok loc ∧ disk.refusal? .create = none
        ∧ disk.refusal? .write = some fault
        ∧ p.saveOn disk fs path
          = (fs.put loc (.file ⟨disk.torn p.manifest.text.toUTF8, File.defaultMode⟩),
            .error (.access path fault)) := by
  unfold saveOn
  split
  · rename_i hcreate
    exact .inr (.inl ⟨hcreate, rfl⟩)
  · rename_i fault hne hcreate
    exact .inr (.inr (.inl ⟨fault, hcreate, fun heq => hne (heq ▸ rfl), rfl⟩))
  · rename_i loc created hcreate
    obtain ⟨hvacant, hallowed, rfl⟩ := FileSystem.createNew_eq_ok_iff.mp hcreate
    unfold FileSystem.writeNew
    cases hwrite : disk.refusal? .write with
    | none => exact .inl ⟨loc, hvacant, hallowed, rfl, by simp only [FileSystem.put_put]; rfl⟩
    | some fault =>
      refine .inr (.inr (.inr ⟨loc, fault, hvacant, hallowed, rfl, ?_⟩))
      simp only [FileSystem.put_put]

theorem saveOn_eq_ok_iff :
    p.saveOn disk fs path = (fs', .ok ())
      ↔ ∃ loc, fs.vacancy path = .ok loc ∧ disk.refusal? .create = none
        ∧ disk.refusal? .write = none ∧ fs' = fs.put loc (.file (.ofText p.manifest.text)) := by
  constructor
  · intro h
    rcases saveOn_cases p disk fs path with ⟨loc, hvacant, hcreate, hwrite, hsave⟩ | ⟨-, hsave⟩ |
      ⟨fault, -, -, hsave⟩ | ⟨loc, fault, -, -, -, hsave⟩ <;> rw [hsave] at h <;> cases h
    exact ⟨loc, hvacant, hcreate, hwrite, rfl⟩
  · rintro ⟨loc, hvacant, hcreate, hwrite, rfl⟩
    unfold saveOn FileSystem.writeNew
    rw [FileSystem.createNew_eq_ok_iff.mpr ⟨hvacant, hcreate, rfl⟩]
    simp only [hwrite, FileSystem.put_put]
    rfl

/-- A disk that refuses nothing is only in need of room for the file. -/
theorem save_eq_ok_iff :
    p.save fs path = .ok fs'
      ↔ ∃ loc, fs.vacancy path = .ok loc ∧ fs' = fs.put loc (.file (.ofText p.manifest.text)) := by
  have hsave : p.save fs path = .ok fs' ↔ p.saveOn fs.soundDisk fs path = (fs', .ok ()) := by
    unfold save
    split
    · rename_i files heq
      simp [heq]
    · rename_i heq
      simp [heq]
  rw [hsave, saveOn_eq_ok_iff]
  constructor
  · rintro ⟨loc, hvacant, -, -, rfl⟩
    exact ⟨loc, hvacant, rfl⟩
  · rintro ⟨loc, hvacant, rfl⟩
    exact ⟨loc, hvacant, rfl, rfl, rfl⟩

/-- A project is created if its manifest is saved. -/
theorem createOn_eq_ok_iff :
    createOn disk fs name excludeBuilds directory = (fs', .ok path)
      ↔ path = pathFor name directory
        ∧ ∃ loc, fs.vacancy path = .ok loc ∧ disk.refusal? .create = none
          ∧ disk.refusal? .write = none
          ∧ fs' = fs.put loc (.file (.ofText (new excludeBuilds).manifest.text)) := by
  have hcreate : createOn disk fs name excludeBuilds directory = (fs', .ok path)
      ↔ path = pathFor name directory
        ∧ (new excludeBuilds).saveOn disk fs (pathFor name directory) = (fs', .ok ()) := by
    unfold createOn
    dsimp only
    split
    · rename_i files heq
      simp [heq, eq_comm, and_comm]
    · rename_i heq
      simp [heq]
  rw [hcreate, saveOn_eq_ok_iff]
  constructor
  · rintro ⟨rfl, h⟩
    exact ⟨rfl, h⟩
  · rintro ⟨rfl, h⟩
    exact ⟨rfl, h⟩

end DialogueBuild.Project

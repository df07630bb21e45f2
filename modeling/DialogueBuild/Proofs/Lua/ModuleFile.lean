import DialogueBuild.Lua.Module
import DialogueBuild.Proofs.FileSystem.Directories
import DialogueBuild.Proofs.FileSystem.Replacement
/-!
Module files take their place as a whole, and touch nothing else.

A disk may refuse any step. What happens is read off two stages: directories are added on the way,
then a single file is replaced or nothing happens.

Results:

1. `addsDirectories_install`   after a failure only directories are new;
2. `placed_install`            after a success all that is known of every location;
3. `install_again`             the second time nothing changes;
4. `entryAt?_placed_twice`     two files in different places do not see each other;
5. `modules_take_their_place`  the same for the modules of compilations.
-/
namespace DialogueBuild.Lua

open FileSystem

variable {disk : Disk} {fs fs' : FileSystem} {directory path : Path} {text : String}

/-! ## Installing a text -/

/-- The locations of the directories on the way to a directory, with its own. -/
def trail (fs : FileSystem) (directory : Path) : List Location :=
  (ancestors directory).map fs.destination

/-- A file is put at a location by way of directories, all of which are there afterwards. The rest
is as it was before, and so is the mode of a file that was replaced. -/
structure Placed (trail : List Location) (loc : Location) (contents : ByteArray)
    (fs fs' : FileSystem) : Prop where
  workingDirectory : fs'.workingDirectory = fs.workingDirectory
  file : fs'.entryAt? loc = some (.file ⟨contents, fs.modeAt loc⟩)
  aside : loc ∉ trail
  before : ∀ l ∈ trail, fs.entryAt? l = none ∨ fs.entryAt? l = some .directory
  after : ∀ l ∈ trail, fs'.entryAt? l = some .directory
  others : ∀ l, l ≠ loc → l ∉ trail → fs'.entryAt? l = fs.entryAt? l

/-- A text is installed in two stages. -/
theorem install_ok (h : install disk fs directory path text = (fs', .ok ())) :
    ∃ fs₁ loc, fs.createDirectories directory = (fs₁, .ok ())
      ∧ fs₁.slot path = .ok (.named loc false) ∧ checkName loc = .ok ()
      ∧ fs₁.entryAt? loc ≠ some .directory
      ∧ fs' = fs₁.put loc (.file ⟨text.toUTF8, fs₁.modeAt loc⟩) := by
  unfold install at h
  split at h
  · cases h
  · rename_i fs₁ hcreate
    split at h
    · rename_i hreplace
      cases h
      obtain ⟨loc, hslot, hname, hentry, hput⟩ := replaceFile_ok hreplace
      exact ⟨fs₁, loc, hcreate, hslot, hname, hentry, hput⟩
    · cases h

/-- What is left of a text that could not be installed are directories. -/
theorem install_error {failure : Failure}
    (h : install disk fs directory path text = (fs', .error failure)) :
    ∃ result, fs.createDirectories directory = (fs', result) := by
  unfold install at h
  split at h
  · rename_i fault hcreate
    cases h
    exact ⟨.error fault, hcreate⟩
  · rename_i fs₁ hcreate
    split at h
    · cases h
    · rename_i hreplace
      cases h
      rw [replaceFile_error hreplace]
      exact ⟨.ok (), hcreate⟩

theorem addsDirectories_install {failure : Failure}
    (h : install disk fs directory path text = (fs', .error failure)) :
    AddsDirectories (trail fs directory) fs fs' := by
  obtain ⟨result, hcreate⟩ := install_error h
  exact addsDirectories_createFirst hcreate

theorem isDirectory_of_install (h : install disk fs directory path text = (fs', .ok ())) :
    ∀ q ∈ ancestors directory, fs'.isDirectory q = true := by
  obtain ⟨fs₁, loc, hcreate, hslot, -, hentry, rfl⟩ := install_ok h
  intro q hq
  exact isDirectory_mono (grows_put_file (slot_eq_named_iff.mp hslot).1.ne_nil hentry)
    (isDirectory_of_createFirst (Path.leadUp_ancestors directory) hcreate q hq)

theorem placed_install (h : install disk fs directory path text = (fs', .ok ())) :
    Placed (trail fs directory) (fs.destination path) text.toUTF8 fs fs' := by
  obtain ⟨fs₁, loc, hcreate, hslot, -, hentry, rfl⟩ := install_ok h
  have hadds : AddsDirectories (trail fs directory) fs fs₁ := addsDirectories_createFirst hcreate
  have hnames := (slot_eq_named_iff.mp hslot).1
  have hloc : loc = fs.destination path := hnames.destination.trans (hadds.grows.destination path)
  have htrail : ∀ l ∈ trail fs directory, fs₁.entryAt? l = some .directory := by
    intro l hl
    obtain ⟨q, hq, rfl⟩ := List.mem_map.mp hl
    have hdirectory := isDirectory_of_createFirst (Path.leadUp_ancestors directory) hcreate q hq
    rw [← hadds.grows.destination q]
    exact (isDirectory_iff.mp hdirectory).2.2
  have haside : loc ∉ trail fs directory := fun hmem => hentry (htrail loc hmem)
  rw [← hloc]
  refine ⟨hadds.workingDirectory, ?_, haside, ?_, ?_, ?_⟩
  · rw [entryAt?_put_self hnames.ne_nil]
    unfold modeAt
    rcases hadds.entry loc with heq | ⟨hmem, -⟩
    · rw [heq]
    · exact absurd hmem haside
  · intro l hl
    rcases hadds.entry l with heq | ⟨-, hfree, -⟩
    · exact .inr (heq.symm.trans (htrail l hl))
    · exact .inl hfree
  · intro l hl
    have hne : l ≠ loc := by
      rintro rfl
      exact haside hl
    rw [entryAt?_put_of_ne hne, htrail l hl]
  · intro l hne hl
    rw [entryAt?_put_of_ne hne]
    rcases hadds.entry l with heq | ⟨hmem, -⟩
    · exact heq
    · exact absurd hmem hl

theorem readText_of_install (h : install disk fs directory path text = (fs', .ok ())) :
    fs'.readText path = .ok text := by
  obtain ⟨fs₁, loc, -, hslot, hname, hentry, rfl⟩ := install_ok h
  exact readText_put_file hslot hname hentry

/-- The path leads to the file that was installed. -/
theorem locate_of_install (h : install disk fs directory path text = (fs', .ok ())) :
    fs'.locate path = .ok (fs.destination path) := by
  have hplaced := placed_install h
  obtain ⟨fs₁, loc, -, hslot, hname, hentry, rfl⟩ := install_ok h
  obtain ⟨hcheck, hwalk, -⟩ := lookup_eq_ok_iff.mp (lookup_put_file hslot hname hentry)
  refine locate_eq_ok_iff.mpr ⟨hcheck, hwalk, ?_⟩
  unfold FileSystem.destination FileSystem.start
  rw [hplaced.workingDirectory]

/-! ## Twice -/

/-- Whatever the disk does the second time, what was installed stays. -/
theorem install_of_installed {other : Disk}
    (h : install disk fs directory path text = (fs', .ok ())) :
    (install other fs' directory path text).1 = fs' := by
  have hcreated : fs'.createDirectories directory = (fs', .ok ()) :=
    createFirst_of_directories (isDirectory_of_install h)
  obtain ⟨fs₁, loc, -, hslot, -, hentry, hput⟩ := install_ok h
  have hagain : fs'.slot path = .ok (.named loc false) := by
    rw [hput]
    exact slot_put_file hslot hentry
  unfold install
  rw [hcreated]
  simp only
  split
  · rename_i fs₂ hreplace
    obtain ⟨loc', hslot', -, -, rfl⟩ := replaceFile_ok hreplace
    rw [hagain] at hslot'
    cases hslot'
    have hmode : fs'.modeAt loc = fs₁.modeAt loc := by
      rw [hput, modeAt, entryAt?_put_self (slot_eq_named_iff.mp hslot).1.ne_nil]
    rw [hmode, hput, put_put]
  · rename_i fs₂ place fault hreplace
    exact replaceFile_error hreplace

/-- A disk that behaves as before leaves everything as it was left the first time. -/
theorem install_again {result : Except Failure Unit}
    (h : install disk fs directory path text = (fs', result)) :
    (install disk fs' directory path text).1 = fs' := by
  cases result with
  | ok u => exact install_of_installed h
  | error failure =>
    unfold install at h
    split at h
    · rename_i fault hcreate
      cases h
      obtain ⟨result', hagain, hkind⟩ :=
        createFirst_again (Path.leadUp_ancestors directory) hcreate
      cases result' with
      | ok u => simp at hkind
      | error fault' =>
        have hcreated : fs'.createDirectories directory = (fs', .error fault') := hagain
        unfold install
        rw [hcreated]
    · rename_i fs₁ hcreate
      split at h
      · cases h
      · rename_i place fault hreplace
        cases h
        have hsame := replaceFile_error hreplace
        subst hsame
        have hcreated : fs'.createDirectories directory = (fs', .ok ()) :=
          createFirst_of_directories
            (isDirectory_of_createFirst (Path.leadUp_ancestors directory) hcreate)
        unfold install
        rw [hcreated]
        simp only [hreplace]

/-! ## Two places -/

section Places

variable {trail₁ trail₂ : List Location} {loc₁ loc₂ : Location} {contents₁ contents₂ : ByteArray}
  {fs₁ fs₁₂ : FileSystem}

/-- What was put in one place is not on the way to what is put in another one later. -/
theorem Placed.notMem_trail (h₁ : Placed trail₁ loc₁ contents₁ fs fs₁)
    (h₂ : Placed trail₂ loc₂ contents₂ fs₁ fs₁₂) : loc₁ ∉ trail₂ := by
  intro hmem
  rcases h₂.before loc₁ hmem with hnone | hdirectory
  · rw [h₁.file] at hnone
    cases hnone
  · rw [h₁.file] at hdirectory
    cases hdirectory

/-- After two files were put in different places, what is where. -/
theorem entryAt?_placed_twice (h₁ : Placed trail₁ loc₁ contents₁ fs fs₁)
    (h₂ : Placed trail₂ loc₂ contents₂ fs₁ fs₁₂) (hne : loc₁ ≠ loc₂) (haside : loc₂ ∉ trail₁)
    (l : Location) :
    fs₁₂.entryAt? l =
      if l = loc₁ then some (.file ⟨contents₁, fs.modeAt loc₁⟩)
      else if l = loc₂ then some (.file ⟨contents₂, fs.modeAt loc₂⟩)
      else if l ∈ trail₁ ∨ l ∈ trail₂ then some .directory
      else fs.entryAt? l := by
  by_cases hl₁ : l = loc₁
  · rw [if_pos hl₁, hl₁, h₂.others loc₁ hne (h₁.notMem_trail h₂), h₁.file]
  by_cases hl₂ : l = loc₂
  · have hmode : fs₁.modeAt loc₂ = fs.modeAt loc₂ := by
      unfold modeAt
      rw [h₁.others loc₂ hne.symm haside]
    rw [if_neg hl₁, if_pos hl₂, hl₂, h₂.file, hmode]
  rw [if_neg hl₁, if_neg hl₂]
  by_cases htrail₂ : l ∈ trail₂
  · rw [if_pos (.inr htrail₂), h₂.after l htrail₂]
  rw [h₂.others l hl₂ htrail₂]
  by_cases htrail₁ : l ∈ trail₁
  · rw [if_pos (.inl htrail₁), h₁.after l htrail₁]
  · rw [if_neg (not_or.mpr ⟨htrail₁, htrail₂⟩), h₁.others l hl₁ htrail₁]

/-- Two files in different places can be put there in either order. -/
theorem entryAt?_placed_comm {fs₂ fs₂₁ : FileSystem} (h₁ : Placed trail₁ loc₁ contents₁ fs fs₁)
    (h₁₂ : Placed trail₂ loc₂ contents₂ fs₁ fs₁₂) (h₂ : Placed trail₂ loc₂ contents₂ fs fs₂)
    (h₂₁ : Placed trail₁ loc₁ contents₁ fs₂ fs₂₁) (hne : loc₁ ≠ loc₂) (l : Location) :
    fs₁₂.entryAt? l = fs₂₁.entryAt? l := by
  rw [entryAt?_placed_twice h₁ h₁₂ hne (h₂.notMem_trail h₂₁) l,
    entryAt?_placed_twice h₂ h₂₁ hne.symm (h₁.notMem_trail h₁₂) l]
  by_cases hl : l = loc₁
  · rw [if_pos hl, if_neg (hl ▸ hne), if_pos hl]
  · simp only [if_neg hl, or_comm]

end Places

/-! ## Modules -/

/-- On some disk the module of a compilation is written. -/
def Writes (fs : FileSystem) (inputs : List Path) (c : Compilation) (o : ModuleOptions)
    (fs' : FileSystem) : Prop :=
  ∃ disk artifact, writeModuleOn disk fs inputs c o = (fs', .ok artifact)

variable {inputs : List Path} {c : Compilation} {o : ModuleOptions} {artifact : Artifact}

theorem writeModuleOn_ok (h : writeModuleOn disk fs inputs c o = (fs', .ok artifact)) :
    artifact = o.artifact inputs ∧ install disk fs o.directory artifact.programPath
      (String.ofList (chunkText artifact.name c)) = (fs', .ok ()) := by
  unfold writeModuleOn at h
  simp only at h
  split at h
  · rename_i hinstall
    cases h
    exact ⟨rfl, hinstall⟩
  · cases h

theorem writeModuleOn_error {failure : Failure}
    (h : writeModuleOn disk fs inputs c o = (fs', .error failure)) :
    install disk fs o.directory (o.artifact inputs).programPath
      (String.ofList (chunkText (o.artifact inputs).name c)) = (fs', .error failure) := by
  unfold writeModuleOn at h
  simp only at h
  split at h
  · cases h
  · rename_i hinstall
    cases h
    exact hinstall

theorem writeModuleOn_of_toBool (h : (writeModuleOn disk fs inputs c o).2.toBool = true) :
    writeModuleOn disk fs inputs c o
      = ((writeModuleOn disk fs inputs c o).1, .ok (o.artifact inputs)) := by
  cases hresult : writeModuleOn disk fs inputs c o with
  | mk fs' result =>
    cases result with
    | ok artifact => rw [(writeModuleOn_ok hresult).1]
    | error failure =>
      rw [hresult] at h
      cases h

theorem writeModuleOn_of_not_toBool (h : (writeModuleOn disk fs inputs c o).2.toBool = false) :
    ∃ failure, writeModuleOn disk fs inputs c o
      = ((writeModuleOn disk fs inputs c o).1, .error failure) := by
  cases hresult : writeModuleOn disk fs inputs c o with
  | mk fs' result =>
    cases result with
    | ok artifact =>
      rw [hresult] at h
      cases h
    | error failure => exact ⟨failure, rfl⟩

theorem writeModuleOn_fst (disk : Disk) (fs : FileSystem) (inputs : List Path) (c : Compilation)
    (o : ModuleOptions) :
    (writeModuleOn disk fs inputs c o).1 = (install disk fs o.directory
      (o.artifact inputs).programPath
      (String.ofList (chunkText (o.artifact inputs).name c))).1 := by
  unfold writeModuleOn
  simp only
  split <;> rename_i hinstall <;> rw [hinstall]

theorem Writes.placed (h : Writes fs inputs c o fs') :
    Placed (trail fs o.directory) (fs.destination (o.artifact inputs).programPath)
      (String.ofList (chunkText (o.artifact inputs).name c)).toUTF8 fs fs' := by
  obtain ⟨disk, artifact, h⟩ := h
  obtain ⟨rfl, hinstall⟩ := writeModuleOn_ok h
  exact placed_install hinstall

/-- Where a module goes does not depend on what else was written. -/
theorem Writes.placed_after {other : List Path} {c' : Compilation} {o' : ModuleOptions}
    {fs₁ : FileSystem} (h : Writes fs other c' o' fs₁) (h' : Writes fs₁ inputs c o fs') :
    Placed (trail fs o.directory) (fs.destination (o.artifact inputs).programPath)
      (String.ofList (chunkText (o.artifact inputs).name c)).toUTF8 fs₁ fs' := by
  have hplaced := h'.placed
  have hdestination : fs₁.destination = fs.destination := by
    funext p
    unfold FileSystem.destination FileSystem.start
    rw [h.placed.workingDirectory]
  unfold trail at hplaced
  rw [hdestination] at hplaced
  exact hplaced

/-- A module takes its place as a whole, whatever the disk does. When it is written, the file that
its path leads to has the text of the module, the directories on the way are there, and all the
rest is as before. When it is not, only directories are new. Writing a module twice is writing it
once, and modules in different places can be written in either order. -/
theorem modules_take_their_place (disk : Disk) (fs : FileSystem) (inputs : List Path)
    (c : Compilation) (o : ModuleOptions) :
    (∀ fs' artifact, writeModuleOn disk fs inputs c o = (fs', .ok artifact) →
      artifact = o.artifact inputs
      ∧ fs'.locate artifact.programPath = .ok (fs.destination artifact.programPath)
      ∧ fs'.readText artifact.programPath = .ok (String.ofList (chunkText artifact.name c))
      ∧ (∀ q ∈ ancestors o.directory, fs'.isDirectory q = true)
      ∧ Placed (trail fs o.directory) (fs.destination artifact.programPath)
          (String.ofList (chunkText artifact.name c)).toUTF8 fs fs'
      ∧ ∀ other, (writeModuleOn other fs' inputs c o).1 = fs')
    ∧ (∀ fs' failure, writeModuleOn disk fs inputs c o = (fs', .error failure) →
      AddsDirectories (trail fs o.directory) fs fs'
      ∧ (writeModuleOn disk fs' inputs c o).1 = fs')
    ∧ ∀ (inputs' : List Path) (c' : Compilation) (o' : ModuleOptions)
        (fs₁ fs₁₂ fs₂ fs₂₁ : FileSystem),
      fs.destination (o.artifact inputs).programPath
          ≠ fs.destination (o'.artifact inputs').programPath →
      Writes fs inputs c o fs₁ → Writes fs₁ inputs' c' o' fs₁₂ →
      Writes fs inputs' c' o' fs₂ → Writes fs₂ inputs c o fs₂₁ →
      fs₁₂.workingDirectory = fs₂₁.workingDirectory
      ∧ ∀ l, fs₁₂.entryAt? l = fs₂₁.entryAt? l := by
  refine ⟨?_, ?_, ?_⟩
  · intro fs' artifact h
    obtain ⟨rfl, hinstall⟩ := writeModuleOn_ok h
    refine ⟨rfl, locate_of_install hinstall, readText_of_install hinstall,
      isDirectory_of_install hinstall, placed_install hinstall, fun other => ?_⟩
    rw [writeModuleOn_fst]
    exact install_of_installed hinstall
  · intro fs' failure h
    have hinstall := writeModuleOn_error h
    refine ⟨addsDirectories_install hinstall, ?_⟩
    rw [writeModuleOn_fst]
    exact install_again hinstall
  · intro inputs' c' o' fs₁ fs₁₂ fs₂ fs₂₁ hne h₁ h₁₂ h₂ h₂₁
    refine ⟨?_, entryAt?_placed_comm h₁.placed (h₁.placed_after h₁₂) h₂.placed
      (h₂.placed_after h₂₁) hne⟩
    rw [(h₁.placed_after h₁₂).workingDirectory, h₁.placed.workingDirectory,
      (h₂.placed_after h₂₁).workingDirectory, h₂.placed.workingDirectory]

/-- An older module is replaced, another one goes to a new directory beside it, in either order, and
a third one is refused behind a file: its first directory stays. -/
theorem modules_take_their_place_around_older :
    let fs : FileSystem :=
      { entries := [([['w']], .directory), ([['w'], ['o']], .directory),
          ([['w'], ['o'], "M.yarnc.lua".toList], .file ⟨"old".toUTF8, 0o600⟩)]
        nodup := by decide
        workingDirectory := [['w']] }
    let disk : Disk := ⟨[['s'], ['t']], fun _ => none, id⟩
    let c : Compilation := ⟨none, .empty, []⟩
    let m : ModuleOptions := ⟨⟨"o"⟩, some "M", none⟩
    let n : ModuleOptions := ⟨⟨"o/x"⟩, some "N", none⟩
    let behind : ModuleOptions := ⟨⟨"y/../o/M.yarnc.lua/z"⟩, some "K", none⟩
    let write (fs : FileSystem) (o : ModuleOptions) : FileSystem := (writeModuleOn disk fs [] c o).1
    (m.artifact []).programPath = ⟨"o/M.yarnc.lua"⟩
      ∧ (write fs m).readText (m.artifact []).programPath
        = .ok (String.ofList (chunkText (m.artifact []).name c))
      ∧ write (write fs m) m = write fs m
      ∧ AddsDirectories (trail fs ⟨"y/../o/M.yarnc.lua/z"⟩) fs (write fs behind)
      ∧ ∀ l, (write (write fs m) n).entryAt? l = (write (write fs n) m).entryAt? l := by
  intro fs disk c m n behind write
  have hm := writeModuleOn_of_toBool (show (writeModuleOn disk fs [] c m).2.toBool = true by
    decide +kernel +zetaReduce)
  have hmn := writeModuleOn_of_toBool (show (writeModuleOn disk (write fs m) [] c n).2.toBool = true
    by decide +kernel +zetaReduce)
  have hn := writeModuleOn_of_toBool (show (writeModuleOn disk fs [] c n).2.toBool = true by
    decide +kernel +zetaReduce)
  have hnm := writeModuleOn_of_toBool (show (writeModuleOn disk (write fs n) [] c m).2.toBool = true
    by decide +kernel +zetaReduce)
  obtain ⟨failure, hbehind⟩ := writeModuleOn_of_not_toBool
    (show (writeModuleOn disk fs [] c behind).2.toBool = false by decide +kernel +zetaReduce)
  have hplaces : fs.destination (m.artifact []).programPath
      ≠ fs.destination (n.artifact []).programPath := by decide +kernel +zetaReduce
  obtain ⟨success, refusal, places⟩ := modules_take_their_place disk fs [] c m
  obtain ⟨-, -, htext, -, -, htwice⟩ := success _ _ hm
  exact ⟨by decide +kernel +zetaReduce, htext, htwice disk,
    ((modules_take_their_place disk fs [] c behind).2.1 _ failure hbehind).1,
    (places [] c n _ _ _ _ hplaces ⟨disk, _, hm⟩ ⟨disk, _, hmn⟩ ⟨disk, _, hn⟩ ⟨disk, _, hnm⟩).2⟩

end DialogueBuild.Lua

import DialogueBuild.Proofs.CommandLine.Compiling
import DialogueBuild.Proofs.Lua.ModuleFile
import DialogueBuild.Proofs.Project.Creation
import DialogueBuild.Proofs.Rejection
/-!
How runs end, and what they leave behind.

A host stands for any files, any compiler, and any disk and stdout, which may refuse what is written
to them. What is expected of a run is said once for all commands. Those that compile share all but
their output: a run of them ends orderly if what follows the result does.

Results:

1. `Sink.write_cases`       what stdout takes of a text;
2. `ended_withCompiled`     a run that compiles is orderly if the rest of it is;
3. `ended_compile`, `ended_dumpCode`, `ended_createProject`   the commands;
4. `runs_end_orderly`       the same for every run whose arguments are accepted;
5. `exists_traces_of_failed_runs`   what is left behind when an output is refused halfway.
-/
namespace DialogueBuild.CommandLine

/-! ## Stdout -/

/-- Stdout takes a text, or refuses it and takes no more than a part. -/
theorem Sink.write_cases (s : Sink) (text : List Char) :
    s.write text = (text, .ok ())
      ∨ ∃ taken fault, s.write text = (taken, .error fault) ∧ taken <+: text ∧ taken ≠ text := by
  unfold write
  split
  · rename_i hempty
    exact .inl (by rw [hempty])
  · rename_i hsome
    split
    · exact .inl rfl
    · rename_i n fault _
      refine .inr ⟨_, fault, rfl, (List.take_prefix ..).trans (List.dropLast_prefix ..), ?_⟩
      intro heq
      have hlength := congrArg List.length heq
      rw [List.length_take, List.length_dropLast] at hlength
      have := List.length_pos_iff.mpr hsome
      omega

/-! ## What is expected of a run -/

/-- The choice of colours in what was asked for. -/
def Invocation.color : Invocation → ColorChoice
  | .compile r => r.color
  | .dumpCode r => r.color
  | .createProject r => r.color

/-- The same files with the same contents. -/
def SameFiles (fs fs' : FileSystem) : Prop :=
  ∀ l f, fs'.entryAt? l = some (.file f) ↔ fs.entryAt? l = some (.file f)

theorem SameFiles.refl (fs : FileSystem) : SameFiles fs fs := fun _ _ => Iff.rfl

namespace Host

/-- The compiler delivers a result to a command. -/
def DeliversTo (h : Host) : Invocation → Compilation → Prop
  | .compile r => h.Delivers r.inputs r.compiler
  | .dumpCode r => h.Delivers r.inputs r.compiler
  | .createProject _ => fun _ => False

/-- The colours of a command's messages. -/
def palette (h : Host) (color : ColorChoice) : Palette :=
  .ofEnabled (color.isColored h.isTerminal)

/-- Where a new project goes. -/
def target (r : CreateRequest) : Path := Project.pathFor r.name r.outputDirectory

/-- What is refused: a job that cannot be made from what was asked for, or a project where something
is already. -/
def Refuses (h : Host) : Invocation → Prop
  | .compile r => h.Rejects r.inputs
  | .dumpCode r => h.Rejects r.inputs
  | .createProject r => h.files.createNew h.disk (target r) = .error .exists

/-- What a command prints of a result without errors. -/
def printed? (h : Host) : Invocation → Compilation → Option (List Char)
  | .compile r, result => if r.stdout then some result.reportText else none
  | .dumpCode r, result => result.program.map fun program =>
    (program.listing result.strings).paint (h.palette r.color)
  | .createProject _, _ => none

/-- The output of a result without errors: what is printed of it, or else a module file. -/
def Outputs (h : Host) : Invocation → Compilation → Outcome → Prop
  | .compile r, result, o =>
    if r.stdout then o.stdout = result.reportText
    else ∃ artifact,
      Lua.writeModuleOn h.disk h.files r.inputs result
          ⟨r.outputDirectory, r.outputName, r.stringTableName⟩ = (o.files, .ok artifact)
        ∧ o.files.readText artifact.programPath
          = .ok (String.ofList (Lua.chunkText artifact.name result))
  | .dumpCode r, result, o => h.printed? (.dumpCode r) result = some o.stdout
  | .createProject _, _, _ => False

/-- The output of a command is there: of a result without errors, or a project that was not there
before and was written. -/
def Produces (h : Host) : Invocation → Outcome → Prop
  | .createProject r, o => h.files.isPresent (target r) = false
    ∧ h.disk.refusal? .write = none
    ∧ o.files.readText (target r) = .ok (Manifest.new r.excludeBuilds).text
  | i, o => ∃ result, h.DeliversTo i result ∧ result.hasErrors = false ∧ h.Outputs i result o

/-- Stdout refuses what is printed of a result without errors, and has taken a part of it. -/
def CutsOff (h : Host) (i : Invocation) (taken : List Char) : Prop :=
  ∃ result text fault, h.DeliversTo i result ∧ result.hasErrors = false
    ∧ h.printed? i result = some text ∧ h.sink.write text = (taken, .error fault)

/-- A listing is refused by stdout. -/
def Crashes (h : Host) : Invocation → Prop
  | .dumpCode r => ∃ taken, h.CutsOff (.dumpCode r) taken
  | _ => False

/-- Where a file is left by a run that fails: a manifest that is created but cannot be written. -/
def Leaves (h : Host) : Invocation → Location → Prop
  | .createProject r, l => (∃ created, h.files.createNew h.disk (target r) = .ok (l, created))
    ∧ h.disk.refusal? .write ≠ none
  | _, _ => False

/-- How runs end. The exit status tells whether a run was refused, has produced its output, or was
given up when stdout refused a listing; else it is 1. A refused run changes nothing and reads no job.
A run without its output has printed nothing but what stdout has taken of it before refusing the
rest, has kept all files, and has created none but a manifest that could not be written. -/
structure Ended (h : Host) (i : Invocation) (o : Outcome) : Prop where
  refused_iff : o.exitCode = 2 ↔ h.Refuses i
  produced_iff : o.exitCode = 0 ↔ h.Produces i o
  crashed_iff : o.exitCode = crashCode ↔ h.Crashes i
  status : o.exitCode = 0 ∨ o.exitCode = 1 ∨ o.exitCode = 2 ∨ o.exitCode = crashCode
  unchanged : o.exitCode = 2 → o.files = h.files ∧ o.jobRead = none
  silent : o.exitCode ≠ 0 → o.stdout = [] ∨ h.CutsOff i o.stdout
  kept : o.exitCode ≠ 0 →
    ∀ l f, h.files.entryAt? l = some (.file f) → o.files.entryAt? l = some (.file f)
  created : o.exitCode ≠ 0 →
    ∀ l f, o.files.entryAt? l = some (.file f) → h.files.entryAt? l = some (.file f) ∨ h.Leaves i l

variable {h : Host} {i : Invocation} {o : Outcome} {p : Palette} {inputs : List Path}
  {compiler : Path} {result : Compilation}

/-! ## Ends of runs -/

theorem DeliversTo.unique {result' : Compilation} (hresult : h.DeliversTo i result)
    (hresult' : h.DeliversTo i result') : result' = result := by
  cases i with
  | compile r => exact Delivers.unique hresult hresult'
  | dumpCode r => exact Delivers.unique hresult hresult'
  | createProject r => exact hresult.elim

theorem ended_refused {stderr : List Char} (hrefused : h.Refuses i)
    (hproduced : ¬ h.Produces i (h.stop 2 stderr none)) (hcrash : ¬ h.Crashes i) :
    h.Ended i (h.stop 2 stderr none) where
  refused_iff := iff_of_true rfl hrefused
  produced_iff := iff_of_false (show ¬ (2 : UInt8) = 0 by decide) hproduced
  crashed_iff := iff_of_false (show ¬ (2 : UInt8) = crashCode by decide) hcrash
  status := .inr (.inr (.inl rfl))
  unchanged _ := ⟨rfl, rfl⟩
  silent _ := .inl rfl
  kept _ _ _ hentry := hentry
  created _ _ _ hentry := .inl hentry

theorem ended_produced (hcode : o.exitCode = 0) (hrefused : ¬ h.Refuses i)
    (hproduced : h.Produces i o) (hcrash : ¬ h.Crashes i) : h.Ended i o where
  refused_iff := iff_of_false (by rw [hcode]; decide) hrefused
  produced_iff := iff_of_true hcode hproduced
  crashed_iff := iff_of_false (by rw [hcode]; decide) hcrash
  status := .inl hcode
  unchanged htwo := absurd htwo (by rw [hcode]; decide)
  silent hne := absurd hcode hne
  kept hne := absurd hcode hne
  created hne := absurd hcode hne

/-- A run without output has failed, or has crashed over its listing. -/
theorem ended_failed
    (hstatus : o.exitCode = 1 ∧ ¬ h.Crashes i ∨ o.exitCode = crashCode ∧ h.Crashes i)
    (hrefused : ¬ h.Refuses i) (hproduced : ¬ h.Produces i o)
    (hsilent : o.stdout = [] ∨ h.CutsOff i o.stdout)
    (hkept : ∀ l f, h.files.entryAt? l = some (.file f) → o.files.entryAt? l = some (.file f))
    (hcreated : ∀ l f, o.files.entryAt? l = some (.file f) →
      h.files.entryAt? l = some (.file f) ∨ h.Leaves i l) : h.Ended i o := by
  have hcodes : o.exitCode ≠ 0 ∧ o.exitCode ≠ 2 := by
    rcases hstatus with ⟨hcode, -⟩ | ⟨hcode, -⟩ <;> rw [hcode] <;> decide
  refine ⟨iff_of_false hcodes.2 hrefused, iff_of_false hcodes.1 hproduced, ?_, ?_,
    fun htwo => absurd htwo hcodes.2, fun _ => hsilent, fun _ => hkept, fun _ => hcreated⟩
  · rcases hstatus with ⟨hcode, hcrash⟩ | ⟨hcode, hcrash⟩
    · exact iff_of_false (by rw [hcode]; decide) hcrash
    · exact iff_of_true hcode hcrash
  · rcases hstatus with ⟨hcode, -⟩ | ⟨hcode, -⟩
    · exact .inr (.inl hcode)
    · exact .inr (.inr (.inr hcode))

/-- The same for a run that leaves the files as they are. -/
theorem ended_failed_of_same
    (hstatus : o.exitCode = 1 ∧ ¬ h.Crashes i ∨ o.exitCode = crashCode ∧ h.Crashes i)
    (hrefused : ¬ h.Refuses i) (hproduced : ¬ h.Produces i o)
    (hsilent : o.stdout = [] ∨ h.CutsOff i o.stdout) (hsame : SameFiles h.files o.files) :
    h.Ended i o :=
  ended_failed hstatus hrefused hproduced hsilent (fun l f => (hsame l f).mpr)
    fun l f hentry => .inl ((hsame l f).mp hentry)

/-- There is a result without errors. -/
def Succeeds (h : Host) (i : Invocation) : Prop :=
  ∃ result, h.DeliversTo i result ∧ result.hasErrors = false

/-- Only listings of a result without errors crash a run. -/
theorem Crashes.succeeds (hcrash : h.Crashes i) : h.Succeeds i := by
  cases i with
  | dumpCode r =>
    obtain ⟨taken, result, text, fault, hresult, hvalid, -⟩ := hcrash
    exact ⟨result, hresult, hvalid⟩
  | compile r => exact hcrash.elim
  | createProject r => exact hcrash.elim

/-- Only a result without errors has any output but new projects. -/
theorem Produces.succeeds (hproduced : h.Produces i o) (hcompiles : ∀ r, i ≠ .createProject r) :
    h.Succeeds i := by
  cases i with
  | createProject r => exact absurd rfl (hcompiles r)
  | compile r =>
    obtain ⟨result, hresult, hvalid, -⟩ := hproduced
    exact ⟨result, hresult, hvalid⟩
  | dumpCode r =>
    obtain ⟨result, hresult, hvalid, -⟩ := hproduced
    exact ⟨result, hresult, hvalid⟩

/-- A command that compiles ends orderly if it does whenever there is a result without errors. -/
theorem ended_withCompiled (hrefuses : h.Refuses i ↔ h.Rejects inputs)
    (hdelivers : ∀ result, h.DeliversTo i result ↔ h.Delivers inputs compiler result)
    (hcompiles : ∀ r, i ≠ .createProject r)
    {next : Compiled → List Char → Option String → Outcome}
    (hnext : ∀ result stderr jobRead, h.DeliversTo i result → result.hasErrors = false →
      ¬ h.Refuses i → h.Ended i (next ⟨inputs, result⟩ stderr jobRead)) :
    h.Ended i (h.withCompiled p inputs compiler next) := by
  have hfails : ∀ stderr jobRead, ¬ h.Succeeds i → ¬ h.Refuses i →
      h.Ended i (h.stop 1 stderr jobRead) := fun stderr jobRead hnone haccepted =>
    ended_failed_of_same (.inl ⟨rfl, mt Crashes.succeeds hnone⟩) haccepted
      (fun hproduced => hnone (hproduced.succeeds hcompiles)) (.inl rfl) (.refl _)
  rcases withCompiled_cases h p inputs compiler next with ⟨f, hf, hrun⟩ |
    ⟨pipeline, f, jobRead, hpipeline, hf, hnone, hrun⟩ | ⟨result, jobRead, hresult, hrun⟩ <;>
    rw [hrun]
  · have hnone : ¬ h.Succeeds i := fun ⟨result, hresult, _⟩ =>
      not_delivers_of_error hf ((hdelivers result).mp hresult)
    by_cases hrequest : FromRequest f
    · rw [fail, exitCode_of_fromRequest hrequest]
      exact ended_refused (hrefuses.mpr ((rejects_iff_of_error hf).mpr hrequest))
        (fun hproduced => hnone (hproduced.succeeds hcompiles)) (mt Crashes.succeeds hnone)
    · rw [fail, exitCode_of_not_fromRequest hrequest]
      exact hfails _ _ hnone (mt hrefuses.mp (mt (rejects_iff_of_error hf).mp hrequest))
  · rw [fail, exitCode_of_not_fromRequest hf]
    exact hfails _ _ (fun ⟨result, hresult, _⟩ => hnone result ((hdelivers result).mp hresult))
      (mt hrefuses.mp (not_rejects_of_ok hpipeline))
  · have haccepted : ¬ h.Refuses i := mt hrefuses.mp hresult.not_rejects
    have hdelivered := (hdelivers result).mpr hresult
    cases herrors : result.hasErrors with
    | true =>
      rw [if_pos rfl]
      refine hfails _ _ (fun ⟨result', hresult', hvalid⟩ => ?_) haccepted
      rw [hdelivered.unique hresult', herrors] at hvalid
      cases hvalid
    | false =>
      rw [if_neg Bool.false_ne_true]
      exact hnext result _ jobRead hdelivered herrors haccepted

/-! ## The commands -/

theorem check_of_valid {c : Compiled} (hvalid : c.result.hasErrors = false) :
    c.check = .ok () := by
  rw [Compiled.check_eq, if_pos]
  refine (Compiled.isValid_iff c).mp ?_
  rw [Compiled.isValid, hvalid]
  rfl

theorem ended_compile (h : Host) (r : CompileRequest) :
    h.Ended (.compile r) (h.compile r) := by
  unfold compile
  refine ended_withCompiled (i := .compile r) .rfl (fun _ => .rfl) nofun
    fun result stderr jobRead hresult hvalid haccepted => ?_
  have hcheck : Compiled.check ⟨r.inputs, result⟩ = .ok () := check_of_valid hvalid
  cases hstdout : r.stdout with
  | true =>
    have hreport : Compiled.report ⟨r.inputs, result⟩ = .ok result.reportText := by
      rw [Compiled.report, hcheck]
      rfl
    have hprinted : h.printed? (.compile r) result = some result.reportText := by
      rw [printed?, if_pos hstdout]
    simp only [hreport, ↓reduceIte]
    rcases h.sink.write_cases result.reportText with hwritten |
      ⟨taken, fault, hwritten, -, hpart⟩ <;> rw [hwritten]
    · refine ended_produced rfl haccepted ⟨result, hresult, hvalid, ?_⟩ id
      rw [Outputs, if_pos hstdout]
    · refine ended_failed_of_same (.inl ⟨rfl, id⟩) haccepted ?_
        (.inr ⟨result, _, fault, hresult, hvalid, hprinted, hwritten⟩) (.refl _)
      rintro ⟨result', hresult', -, houtput⟩
      rw [Outputs, if_pos hstdout, hresult.unique hresult'] at houtput
      exact hpart houtput
  | false =>
    have hmodule : Compiled.writeModuleOn ⟨r.inputs, result⟩ h.disk h.files
          ⟨r.outputDirectory, r.outputName, r.stringTableName⟩
        = Lua.writeModuleOn h.disk h.files r.inputs result
          ⟨r.outputDirectory, r.outputName, r.stringTableName⟩ := by
      rw [Compiled.writeModuleOn, hcheck]
    simp only [hmodule, Bool.false_eq_true, ↓reduceIte]
    have hwithout : ¬ r.stdout = true := by
      rw [hstdout]
      exact Bool.false_ne_true
    split
    · rename_i files artifact hwritten
      obtain ⟨-, hinstall⟩ := Lua.writeModuleOn_ok hwritten
      refine ended_produced rfl haccepted ⟨result, hresult, hvalid, ?_⟩ id
      rw [Outputs, if_neg hwithout]
      exact ⟨artifact, hwritten, Lua.readText_of_install hinstall⟩
    · rename_i files failure hfailed
      obtain ⟨path, fault, rfl⟩ := Compiled.isAccess_of_writeModuleOn hfailed
      refine ended_failed_of_same (.inl ⟨rfl, id⟩) haccepted ?_ (.inl rfl) fun l f => ?_
      · rintro ⟨result', hresult', -, houtput⟩
        rw [Outputs, if_neg hwithout, hresult.unique hresult'] at houtput
        obtain ⟨artifact, hwritten, -⟩ := houtput
        cases hwritten.symm.trans hfailed
      · exact (Lua.addsDirectories_install (Lua.writeModuleOn_error hfailed)).file_iff

theorem ended_dumpCode (h : Host) (r : DumpRequest) : h.Ended (.dumpCode r) (h.dumpCode r) := by
  unfold dumpCode
  refine ended_withCompiled (i := .dumpCode r) .rfl (fun _ => .rfl) nofun
    fun result stderr jobRead hresult hvalid haccepted => ?_
  split
  · rename_i program hprogram
    let listing := (program.listing result.strings).paint (h.palette r.color)
    have hprinted : h.printed? (.dumpCode r) result = some listing := by
      rw [printed?, hprogram, Option.map_some]
    rcases h.sink.write_cases listing with hwritten | ⟨taken, fault, hwritten, -, hpart⟩
    · have hnotCut : ¬ h.Crashes (.dumpCode r) := by
        rintro ⟨taken, result', text, fault, hresult', -, hprinted', hcut⟩
        rw [hresult.unique hresult', hprinted, Option.some_inj] at hprinted'
        rw [← hprinted', hwritten] at hcut
        cases hcut
      unfold listing palette at hwritten
      simp only [hwritten]
      exact ended_produced rfl haccepted ⟨result, hresult, hvalid, hprinted⟩ hnotCut
    · have hcut : h.CutsOff (.dumpCode r) taken :=
        ⟨result, listing, fault, hresult, hvalid, hprinted, hwritten⟩
      unfold listing palette at hwritten
      simp only [hwritten]
      refine ended_failed_of_same (.inr ⟨rfl, taken, hcut⟩) haccepted ?_ (.inr hcut) (.refl _)
      rintro ⟨result', hresult', -, houtput⟩
      rw [Outputs, hresult.unique hresult', hprinted, Option.some_inj] at houtput
      exact hpart houtput.symm
  · rename_i hnone
    have hprinted : h.printed? (.dumpCode r) result = none := by
      rw [printed?, hnone, Option.map_none]
    refine ended_failed_of_same (.inl ⟨rfl, ?_⟩) haccepted ?_ (.inl rfl) (.refl _)
    · rintro ⟨taken, result', text, fault, hresult', -, hprinted', -⟩
      rw [hresult.unique hresult', hprinted] at hprinted'
      cases hprinted'
    · rintro ⟨result', hresult', -, houtput⟩
      rw [Outputs, hresult.unique hresult', hprinted] at houtput
      cases houtput

/-- A manifest cannot be read where nothing is. -/
theorem not_produces_unchanged {r : CreateRequest} (hfiles : o.files = h.files) :
    ¬ h.Produces (.createProject r) o := by
  rintro ⟨habsent, -, htext⟩
  rw [hfiles] at htext
  rw [FileSystem.isPresent_of_readText htext] at habsent
  cases habsent

theorem createProject_eq (h : Host) (r : CreateRequest) :
    h.createProject r = match (Project.new r.excludeBuilds).saveOn h.disk h.files (target r) with
      | (files, .ok ()) => ⟨0, [], logLine (h.palette r.color) .info
          ("new project file created at " ++ (target r).text), files, none⟩
      | (files, .error f) => { h.fail (h.palette r.color) [] f none with files := files } := by
  unfold createProject Project.createOn target
  dsimp only
  generalize (Project.new r.excludeBuilds).saveOn h.disk h.files
    (Project.pathFor r.name r.outputDirectory) = saved
  obtain ⟨files, failure | ⟨⟩⟩ := saved <;> rfl

theorem ended_createProject (h : Host) (r : CreateRequest) :
    h.Ended (.createProject r) (h.createProject r) := by
  rw [createProject_eq]
  rcases Project.saveOn_cases (.new r.excludeBuilds) h.disk h.files (target r) with
    ⟨loc, hvacant, hallowed, hwritable, hsave⟩ | ⟨hexists, hsave⟩ | ⟨fault, hcreate, hne, hsave⟩ |
    ⟨loc, fault, hvacant, hallowed, hfull, hsave⟩ <;> rw [hsave]
  · have hcreate := FileSystem.createNew_eq_ok_iff.mpr ⟨hvacant, hallowed, rfl⟩
    refine ended_produced rfl (fun hrefused => ?_) ⟨?_, hwritable, ?_⟩ id
    · cases hrefused.symm.trans hcreate
    · exact FileSystem.not_isPresent_of_vacancy hvacant
    · exact FileSystem.readText_of_vacancy hvacant _
  · exact ended_refused hexists (not_produces_unchanged rfl) id
  · refine ended_failed_of_same (.inl ⟨rfl, id⟩) (fun hrefused => ?_) (not_produces_unchanged rfl)
      (.inl rfl) (.refl _)
    exact hne (Except.error.inj (hcreate.symm.trans hrefused))
  · -- the manifest was created, and stays
    have hcreate := FileSystem.createNew_eq_ok_iff.mpr ⟨hvacant, hallowed, rfl⟩
    have hfree := FileSystem.free_of_vacancy hvacant
    refine ended_failed (.inl ⟨rfl, id⟩) (fun hrefused => ?_) (fun ⟨_, hwritable, _⟩ => ?_)
      (.inl rfl) (fun l f hentry => ?_) fun l f hentry => ?_
    · cases hrefused.symm.trans hcreate
    · cases hfull.symm.trans hwritable
    · rwa [FileSystem.entryAt?_put_of_ne]
      rintro rfl
      rw [hfree] at hentry
      cases hentry
    · by_cases hloc : l = loc
      · rw [hloc]
        exact .inr ⟨⟨_, hcreate⟩, by rw [hfull]; exact nofun⟩
      · rw [FileSystem.entryAt?_put_of_ne hloc] at hentry
        exact .inl hentry

/-! ## What commands leave alone -/

theorem compile_files {r : CompileRequest} (hstdout : r.stdout = true) :
    (h.compile r).files = h.files := by
  refine withCompiled_of_stop (fun o => o.files = h.files) (fun _ _ _ => rfl)
    fun c stderr jobRead => ?_
  rw [if_pos hstdout]
  split
  · rfl
  · split <;> rfl

theorem compile_stdout {r : CompileRequest} (hstdout : r.stdout = false) :
    (h.compile r).stdout = [] := by
  refine withCompiled_of_stop (fun o => o.stdout = []) (fun _ _ _ => rfl) fun c stderr jobRead => ?_
  rw [if_neg (by rw [hstdout]; exact Bool.false_ne_true)]
  split <;> rfl

theorem dumpCode_files (h : Host) (r : DumpRequest) : (h.dumpCode r).files = h.files := by
  refine withCompiled_of_stop (fun o => o.files = h.files) (fun _ _ _ => rfl)
    fun c stderr jobRead => ?_
  split
  · split <;> rfl
  · rfl

/-- A command that is refused starts no compiler. -/
theorem invoke_of_refuses {invocation : Invocation} (hrefused : h.Refuses invocation)
    (start : Path → Job → Except FileSystem.Fault Exchange) :
    ({ h with start := start } : Host).invoke invocation = h.invoke invocation := by
  cases invocation with
  | compile r =>
    obtain ⟨f, hf, -⟩ := hrefused
    have hf' : Pipeline.ofInputs ({ h with start := start } : Host).files r.inputs = .error f := hf
    show ({ h with start := start } : Host).compile r = h.compile r
    rw [compile, compile, withCompiled_of_error hf, withCompiled_of_error hf']
    rfl
  | dumpCode r =>
    obtain ⟨f, hf, -⟩ := hrefused
    have hf' : Pipeline.ofInputs ({ h with start := start } : Host).files r.inputs = .error f := hf
    show ({ h with start := start } : Host).dumpCode r = h.dumpCode r
    rw [dumpCode, dumpCode, withCompiled_of_error hf, withCompiled_of_error hf']
    rfl
  | createProject r => rfl

theorem reports_invoke (hresult : h.DeliversTo i result) :
    h.ReportsFirst (h.palette i.color) result (h.invoke i) := by
  cases i with
  | compile r =>
    refine reports_withCompiled (fun c stderr jobRead hreports => ?_) hresult
    split
    · split
      · exact .inl (hreports.append _ _)
      · split
        · exact .inl hreports
        · exact .inl (hreports.append _ _)
    · split
      · exact .inl (hreports.append _ _)
      · exact .inl (hreports.append _ _)
  | dumpCode r =>
    refine reports_withCompiled (fun c stderr jobRead hreports => ?_) hresult
    split
    · split
      · exact .inl hreports
      · exact .inr ⟨rfl, _, _, hreports, rfl⟩
    · exact .inl (hreports.append _ _)
  | createProject r => exact hresult.elim

/-! ## Runs -/

/-- Every run whose arguments are accepted ends with 2 if what was asked for is refused, with 0 if
its output is there, with 101 if stdout refuses a listing, and else with 1. A refused run has started
no compiler. A run without output prints nothing, unless it is cut off by stdout, and leaves all
files as they were; the only new one may be a manifest that the disk refuses to write. Reports and
listings touch no file, modules are not printed, and what a compiler has to say comes first. -/
theorem runs_end_orderly (h : Host) (preset : Option String) (args : List String)
    (invocation : Invocation) (hparse : parse args preset = .ok invocation) :
    h.Ended invocation (h.run preset args)
      ∧ ((h.run preset args).exitCode = 2 →
        ∀ start, ({ h with start := start } : Host).run preset args = h.run preset args)
      ∧ (∀ r, invocation = .compile r →
        (r.stdout = true → (h.run preset args).files = h.files)
        ∧ (r.stdout = false → (h.run preset args).stdout = []))
      ∧ (∀ r, invocation = .dumpCode r → (h.run preset args).files = h.files)
      ∧ (∀ r, invocation = .createProject r →
        ((h.run preset args).exitCode = 2 →
          h.files.isPresent (target r) = true ∨ h.disk.refusal? .create = some .exists)
        ∧ (h.files.isPresent (target r) = true → FileSystem.endsInSlash (target r) = false →
          (h.run preset args).exitCode = 2))
      ∧ ∀ result, h.DeliversTo invocation result →
        h.ReportsFirst (h.palette invocation.color) result (h.run preset args) := by
  have hrun : ∀ g : Host, g.run preset args = g.invoke invocation := by
    intro g
    rw [run, hparse]
  have hended : h.Ended invocation (h.invoke invocation) := by
    cases invocation with
    | compile r => exact ended_compile h r
    | dumpCode r => exact ended_dumpCode h r
    | createProject r => exact ended_createProject h r
  rw [hrun]
  refine ⟨hended, fun hcode start => ?_, ?_, ?_, ?_, fun result => reports_invoke⟩
  · rw [hrun]
    exact invoke_of_refuses (hended.refused_iff.mp hcode) start
  · rintro r rfl
    exact ⟨compile_files, compile_stdout⟩
  · rintro r rfl
    exact dumpCode_files h r
  · rintro r rfl
    refine ⟨fun hcode => ?_, fun hpresent hslash => ?_⟩
    · rcases FileSystem.createNew_eq_exists_iff.mp (hended.refused_iff.mp hcode) with
        hthere | ⟨-, hdisk⟩
      · exact .inl (FileSystem.isPresent_of_vacancy hthere
          (Project.pathFor_not_up r.name r.outputDirectory))
      · exact .inr hdisk
    · exact hended.refused_iff.mpr (FileSystem.createNew_eq_exists_iff.mpr
        (.inl (FileSystem.vacancy_of_isPresent hpresent hslash)))

/-- A module cannot go behind a file: the warning of the compiler is printed, nothing else happens.
The project that is there already stays as it is, whatever the compiler would do. -/
theorem runs_end_orderly_behind_file :
    let fs : FileSystem :=
      { entries := [([['w']], .directory), ([['w'], ['o']], .file ⟨"kept".toUTF8, 0o600⟩),
          ([['w'], "P.yarnproject".toList], .file ⟨.empty, 0o600⟩)]
        nodup := by decide
        workingDirectory := [['w']] }
    let result : Compilation := ⟨none, .empty, [⟨"unused", "", Extent.form.blank, .warning⟩]⟩
    let h : Host :=
      ⟨fs, fs.soundDisk, fun _ _ => .ok ⟨.ok result, "", .exited 0, .ok (), none⟩, false, .sound,
        .plain⟩
    let compile := ["compile", "a.yarn", "-o", "o/x", "--compiler", "yc"]
    let create := ["create-proj", "P"]
    (h.run none compile).exitCode = 1 ∧ (h.run none compile).stdout = []
      ∧ (∀ l f, fs.entryAt? l = some (.file f)
        → (h.run none compile).files.entryAt? l = some (.file f))
      ∧ h.ReportsFirst .plain result (h.run none compile)
      ∧ (h.run none create).exitCode = 2 ∧ (h.run none create).files = fs
      ∧ ∀ start, ({ h with start := start } : Host).run none create = h.run none create := by
  intro fs result h compile create
  let r : CompileRequest := ⟨[⟨"a.yarn"⟩], ⟨"o/x"⟩, none, none, false, ⟨"yc"⟩, .auto⟩
  let q : CreateRequest := ⟨"P", false, ⟨"."⟩, .auto⟩
  have hcompile : parse compile none = .ok (.compile r) := by decide +kernel +zetaReduce
  have hcreate : parse create none = .ok (.createProject q) := by decide +kernel +zetaReduce
  have hone : (h.run none compile).exitCode = 1 := by decide +kernel +zetaReduce
  have htwo : (h.run none create).exitCode = 2 := by decide +kernel +zetaReduce
  have hdelivers : h.DeliversTo (.compile r) result := ⟨_, _, rfl, rfl, rfl⟩
  obtain ⟨hended, -, hquiet, -, -, hreports⟩ := runs_end_orderly h none compile _ hcompile
  obtain ⟨hended', hidle, -⟩ := runs_end_orderly h none create _ hcreate
  exact ⟨hone, (hquiet r rfl).2 rfl, hended.kept (by rw [hone]; decide), hreports result hdelivers,
    htwo, (hended'.unchanged htwo).1, hidle htwo⟩

/-- Failed runs can leave traces. A manifest that the disk refuses to write stays there, empty. What
is there is not always a reason for 2, as a path with a slash at its end can only be that of a
directory. And stdout has taken the first part of a report or of a listing when it refuses the
rest. -/
theorem exists_traces_of_failed_runs :
    let fs : FileSystem :=
      { entries := [([['w']], .directory), ([['w'], "G.yarnproject".toList], .directory)]
        nodup := by decide
        workingDirectory := [['w']] }
    let full : FileSystem.Disk :=
      ⟨[], fun step => if step = .write then some .noSpace else none, fun _ => .empty⟩
    let node : Node := ⟨"N", [], .empty, [], none, []⟩
    let result : Compilation := ⟨some ⟨"P", .ofList [("N", node)], .empty⟩, .empty, []⟩
    let h : Host :=
      ⟨fs, full, fun _ _ => .ok ⟨.ok result, "", .exited 0, .ok (), none⟩, false,
        ⟨fun _ => some (1, .brokenPipe)⟩, .plain⟩
    let created := h.run none ["create-proj", "N"]
    let there := h.run none ["create-proj", "G.yarnproject/"]
    let report := h.run none ["compile", "a.yarn", "--stdout", "--compiler", "yc"]
    let listing := h.run none ["dump-code", "a.yarn", "--compiler", "yc"]
    (created.exitCode = 1 ∧ fs.isPresent ⟨"./N.yarnproject"⟩ = false
        ∧ created.files.isPresent ⟨"./N.yarnproject"⟩ = true)
      ∧ (there.exitCode = 1 ∧ fs.isPresent ⟨"./G.yarnproject/"⟩ = true)
      ∧ (report.exitCode = 1 ∧ report.stdout = ['\x7b'])
      ∧ listing.exitCode = 101 ∧ listing.stdout.length = 1 := by
  decide +kernel +zetaReduce

end Host

end DialogueBuild.CommandLine

import DialogueBuild.CommandLine.Run
import DialogueBuild.Proofs.Except
/-!
Runs that compile, up to the point where a result is at hand.

A compiler may be one that cannot be started, or one that ends in any way with any answer.

Results:

1. `exitCode_of_fromRequest`, `exitCode_of_not_fromRequest`   the exit status tells why a run fails;
2. `Delivers.unique`        there is at most one result;
3. `withCompiled_cases`     where a run can end before its output;
4. `reports_withCompiled`   once there is a result, its diagnostics are printed first.
-/
namespace DialogueBuild.CommandLine

/-! ## Failures -/

/-- Failures of a job that cannot be made from what was asked for. -/
inductive FromRequest : Failure → Prop
  | misuse (m : Misuse) : FromRequest (.misuse m)
  | unknownType (name : String) : FromRequest (.unknownType name)
  | definitions (path : Path) (fault : DefinitionsFault) : FromRequest (.definitions path fault)
  | project (path : Path) (fault : ProjectFault) : FromRequest (.project path fault)

theorem exitCode_of_fromRequest {f : Failure} (h : FromRequest f) : f.exitCode = 2 := by
  cases h <;> rfl

theorem exitCode_of_not_fromRequest {f : Failure} (h : ¬ FromRequest f) : f.exitCode = 1 := by
  cases f with
  | misuse m => exact absurd (.misuse m) h
  | unknownType name => exact absurd (.unknownType name) h
  | definitions path fault => exact absurd (.definitions path fault) h
  | project path fault => exact absurd (.project path fault) h
  | _ => rfl

namespace Host

/-! ## Jobs and results -/

/-- The job of the inputs cannot be made from what was asked for. -/
def Rejects (h : Host) (inputs : List Path) : Prop :=
  ∃ f, Pipeline.ofInputs h.files inputs = .error f ∧ FromRequest f

/-- A compiler is started on the job of the inputs, and delivers a result. -/
def Delivers (h : Host) (inputs : List Path) (compiler : Path) (result : Compilation) : Prop :=
  ∃ job e, Pipeline.ofInputs h.files inputs = .ok ⟨inputs, job⟩ ∧ h.start compiler job = .ok e
    ∧ e.outcome = .ok result

variable {h : Host} {p : Palette} {inputs : List Path} {compiler : Path} {result : Compilation}

/-- There is at most one result. -/
theorem Delivers.unique {result' : Compilation} (hresult : h.Delivers inputs compiler result)
    (hresult' : h.Delivers inputs compiler result') : result' = result := by
  obtain ⟨job, e, hjob, hstart, houtcome⟩ := hresult
  obtain ⟨job', e', hjob', hstart', houtcome'⟩ := hresult'
  rw [hjob] at hjob'
  cases hjob'
  rw [hstart] at hstart'
  cases hstart'
  rw [houtcome] at houtcome'
  cases houtcome'
  rfl

/-- A result comes from the compiler that was started on the job. -/
theorem delivers_iff {job : Job} (hjob : Pipeline.ofInputs h.files inputs = .ok ⟨inputs, job⟩) :
    h.Delivers inputs compiler result
      ↔ ∃ e, h.start compiler job = .ok e ∧ e.outcome = .ok result := by
  constructor
  · rintro ⟨job', e, hjob', he⟩
    rw [hjob] at hjob'
    cases hjob'
    exact ⟨e, he⟩
  · rintro ⟨e, he⟩
    exact ⟨job, e, hjob, he⟩

theorem not_delivers_of_error {f : Failure} (hf : Pipeline.ofInputs h.files inputs = .error f) :
    ¬ h.Delivers inputs compiler result := by
  rintro ⟨job, e, hjob, -⟩
  rw [hf] at hjob
  cases hjob

theorem rejects_iff_of_error {f : Failure} (hf : Pipeline.ofInputs h.files inputs = .error f) :
    h.Rejects inputs ↔ FromRequest f := by
  constructor
  · rintro ⟨f', hf', hrequest⟩
    rw [hf] at hf'
    cases hf'
    exact hrequest
  · exact fun hrequest => ⟨f, hf, hrequest⟩

theorem not_rejects_of_ok {pipeline : Pipeline}
    (hjob : Pipeline.ofInputs h.files inputs = .ok pipeline) : ¬ h.Rejects inputs := by
  rintro ⟨f, hf, -⟩
  rw [hjob] at hf
  cases hf

theorem Delivers.not_rejects (hresult : h.Delivers inputs compiler result) :
    ¬ h.Rejects inputs := by
  obtain ⟨job, e, hjob, -, -⟩ := hresult
  exact not_rejects_of_ok hjob

/-! ## Up to a result -/

/-- A compiler fails for its own reasons. -/
theorem not_fromRequest_of_outcome {e : Exchange} {f : Failure} (he : e.outcome = .error f) :
    ¬ FromRequest f := by
  unfold Exchange.outcome at he
  dsimp only at he
  split at he
  · cases he
  · split at he
    · cases he
    · cases he
      exact nofun
  · cases he
    exact nofun
  · split at he <;> cases he <;> exact nofun

theorem inputs_of_ofInputs {fs : FileSystem} {pipeline : Pipeline}
    (hpipeline : Pipeline.ofInputs fs inputs = .ok pipeline) : ∃ job, pipeline = ⟨inputs, job⟩ := by
  unfold Pipeline.ofInputs at hpipeline
  obtain ⟨job, -, hpipeline⟩ := bind_eq_ok.mp hpipeline
  cases hpipeline
  exact ⟨job, rfl⟩

/-- A run ends without a job, without a result, with errors, or goes on with a result. -/
theorem withCompiled_cases (h : Host) (p : Palette) (inputs : List Path) (compiler : Path)
    (next : Compiled → List Char → Option String → Outcome) :
    (∃ f, Pipeline.ofInputs h.files inputs = .error f
        ∧ h.withCompiled p inputs compiler next = h.fail p [] f none)
      ∨ (∃ pipeline f jobRead, Pipeline.ofInputs h.files inputs = .ok pipeline ∧ ¬ FromRequest f
        ∧ (∀ result, ¬ h.Delivers inputs compiler result)
        ∧ h.withCompiled p inputs compiler next = h.fail p [] f jobRead)
      ∨ ∃ result jobRead, h.Delivers inputs compiler result
        ∧ h.withCompiled p inputs compiler next
          = if result.hasErrors then h.stop 1 (h.diagnosticsText p ⟨inputs, result⟩) jobRead
            else next ⟨inputs, result⟩ (h.diagnosticsText p ⟨inputs, result⟩) jobRead := by
  cases hjob : Pipeline.ofInputs h.files inputs with
  | error f =>
    refine .inl ⟨f, rfl, ?_⟩
    unfold withCompiled
    rw [hjob]
  | ok pipeline =>
    obtain ⟨job, rfl⟩ := inputs_of_ofInputs hjob
    unfold withCompiled
    rw [hjob]
    cases hstart : h.start compiler job with
    | error fault =>
      refine .inr (.inl ⟨_, .access compiler fault, none, rfl, nofun, fun result hresult => ?_, ?_⟩)
      · obtain ⟨e, he, -⟩ := (delivers_iff hjob).mp hresult
        rw [hstart] at he
        cases he
      · simp only [hstart, CompilerRun.ofExchange]
    | ok e =>
      have hdelivers : ∀ result, h.Delivers inputs compiler result ↔ e.outcome = .ok result := by
        intro result
        rw [delivers_iff hjob, hstart]
        simp
      cases houtcome : e.outcome with
      | error f =>
        refine .inr (.inl ⟨_, f, e.jobRead, rfl, not_fromRequest_of_outcome houtcome,
          fun result hresult => ?_, ?_⟩)
        · rw [hdelivers, houtcome] at hresult
          cases hresult
        · simp only [hstart, CompilerRun.ofExchange, houtcome]
      | ok result =>
        refine .inr (.inr ⟨result, e.jobRead, (hdelivers result).mpr houtcome, ?_⟩)
        simp only [hstart, CompilerRun.ofExchange, houtcome, Compiled.isValid]
        cases result.hasErrors <;> rfl

theorem withCompiled_of_error {f : Failure} {next : Compiled → List Char → Option String → Outcome}
    (hf : Pipeline.ofInputs h.files inputs = .error f) :
    h.withCompiled p inputs compiler next = h.fail p [] f none := by
  unfold withCompiled
  rw [hf]

/-- What holds of every run that prints to stderr only, and of the rest of a run with a result,
holds of a run that compiles. -/
theorem withCompiled_of_stop (P : Outcome → Prop)
    {next : Compiled → List Char → Option String → Outcome}
    (hstop : ∀ code stderr jobRead, P (h.stop code stderr jobRead))
    (hnext : ∀ c stderr jobRead, P (next c stderr jobRead)) :
    P (h.withCompiled p inputs compiler next) := by
  rcases withCompiled_cases h p inputs compiler next with ⟨f, -, hrun⟩ |
    ⟨pipeline, f, jobRead, -, -, -, hrun⟩ | ⟨result, jobRead, -, hrun⟩ <;> rw [hrun]
  · exact hstop _ _ _
  · exact hstop _ _ _
  · split
    · exact hstop _ _ _
    · exact hnext _ _ _

/-! ## What is printed on stderr -/

/-- Lines about a run. -/
def statusLines (p : Palette) (lines : List (Severity × String)) : List Char :=
  (lines.map fun (s, message) => logLine p s message).flatten

/-- All diagnostics are printed in order, and then nothing but lines about the run. -/
def Reports (h : Host) (p : Palette) (result : Compilation) (stderr : List Char) : Prop :=
  ∃ lines, stderr = ['\n'].intercalate (result.diagnostics.map (Diagnostic.render p.isEnabled
    (Diagnostic.loadSources h.files result.diagnostics))) ++ statusLines p lines

/-- The same for all of stderr; the words about a crash come last. -/
def ReportsFirst (h : Host) (p : Palette) (result : Compilation) (o : Outcome) : Prop :=
  h.Reports p result o.stderr ∨ o.exitCode = crashCode ∧ ∃ front fault,
    h.Reports p result front ∧ o.stderr = front ++ h.wording.crash fault

theorem statusLines_append (p : Palette) (front back : List (Severity × String)) :
    statusLines p (front ++ back) = statusLines p front ++ statusLines p back := by
  unfold statusLines
  rw [List.map_append, List.flatten_append]

theorem Reports.append {stderr : List Char} (hreports : h.Reports p result stderr) (s : Severity)
    (message : String) : h.Reports p result (stderr ++ logLine p s message) := by
  obtain ⟨lines, rfl⟩ := hreports
  refine ⟨lines ++ [(s, message)], ?_⟩
  rw [statusLines_append, List.append_assoc]
  simp [statusLines]

theorem reports_diagnosticsText (h : Host) (p : Palette) (c : Compiled) :
    h.Reports p c.result (h.diagnosticsText p c) := by
  have hnone : h.Reports p c.result (Diagnostic.renderAll p.isEnabled
      (Diagnostic.loadSources h.files c.diagnostics) c.diagnostics) :=
    ⟨[], by rw [statusLines, List.map_nil, List.flatten_nil, List.append_nil]; rfl⟩
  unfold diagnosticsText
  dsimp only
  split
  · exact hnone.append _ _
  split
  · exact hnone.append _ _
  · exact hnone

/-- Once there is a result, its diagnostics come first. -/
theorem reports_withCompiled {next : Compiled → List Char → Option String → Outcome}
    (hnext : ∀ c stderr jobRead, h.Reports p c.result stderr →
      h.ReportsFirst p c.result (next c stderr jobRead))
    (hresult : h.Delivers inputs compiler result) :
    h.ReportsFirst p result (h.withCompiled p inputs compiler next) := by
  have hdiagnostics := reports_diagnosticsText h p ⟨inputs, result⟩
  rcases withCompiled_cases h p inputs compiler next with ⟨f, hf, -⟩ |
    ⟨-, -, -, -, -, hnone, -⟩ | ⟨result', jobRead, hresult', hrun⟩
  · obtain ⟨job, e, hjob, -⟩ := hresult
    rw [hf] at hjob
    cases hjob
  · exact absurd hresult (hnone result)
  · rw [hrun, hresult.unique hresult']
    split
    · exact .inl hdiagnostics
    · exact hnext _ _ _ hdiagnostics

end Host

end DialogueBuild.CommandLine

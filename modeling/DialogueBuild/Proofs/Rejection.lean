import DialogueBuild.Pipeline
/-!
Errors block every output.

What a compiler handed back is asked for modules and reports, any number of times. A module goes
to a disk, which may refuse it, and a report to a sink, of which nothing is known: it may take a text
in part, and fail.

Results:

1. `check_eq`                the test in front of every output counts the errors;
2. `serve_of_errors`         a request that meets errors changes nothing;
3. `serve_of_valid`          without errors no request is rejected;
4. `errors_block_outputs`    the same for every sequence of requests.
-/
namespace DialogueBuild.Compiled

/-! ## Requests -/

/-- What outputs go to: files, and sinks under their numbers. -/
structure World (σ : Type) where
  files : FileSystem
  sinks : Nat → σ

/-- An output that is asked for. -/
inductive Request
  /-- A module on a disk. -/
  | module (disk : FileSystem.Disk) (o : Lua.ModuleOptions)
  /-- A report to the sink with this number. -/
  | report (sink : Nat)

inductive Answer (ε : Type)
  | module (artifact : Lua.Artifact)
  | reported
  /-- The sink failed. -/
  | sink (fault : ε)
  | failure (f : Failure)

/-- The answer is a refusal because of errors. -/
def Answer.IsRejection {ε : Type} (a : Answer ε) : Prop := ∃ n, a = .failure (.rejected n)

variable {σ ε : Type} (write : σ → List Char → σ × Except ε Unit) (c : Compiled)

/-- Writes a text to a sink. -/
def World.report (w : World σ) (sink : Nat) (text : List Char) : World σ × Answer ε :=
  let (after, result) := write (w.sinks sink) text
  ({ w with sinks := fun i => if i = sink then after else w.sinks i },
    match result with
    | .ok () => .reported
    | .error fault => .sink fault)

/-- Answers one request. -/
def serve (w : World σ) : Request → World σ × Answer ε
  | .module disk o =>
    match c.writeModuleOn disk w.files o with
    | (files, .ok artifact) => ({ w with files := files }, .module artifact)
    | (files, .error failure) => ({ w with files := files }, .failure failure)
  | .report sink =>
    match c.report with
    | .ok text => w.report write sink text
    | .error failure => (w, .failure failure)

/-- Answers requests one after the other. -/
def serveAll (w : World σ) : List Request → World σ × List (Answer ε)
  | [] => (w, [])
  | r :: rest =>
    let (next, answer) := c.serve write w r
    let (last, answers) := serveAll next rest
    (last, answer :: answers)

/-! ## One request -/

/-- The errors among the diagnostics. -/
def errors : List Diagnostic := c.diagnostics.filter Diagnostic.isError

/-- The test in front of every output counts the errors. -/
theorem check_eq :
    c.check = if c.errors = [] then .ok () else .error (.rejected c.errors.length) := by
  have hcount : c.result.errorCount = c.errors.length := List.countP_eq_length_filter
  unfold check
  rw [hcount]
  cases c.errors with
  | nil => rfl
  | cons d ds => rfl

/-- The other test for errors agrees. -/
theorem isValid_iff : c.isValid ↔ c.errors = [] := by
  unfold isValid
  rw [Bool.not_eq_true', c.result.hasErrors_eq_false_iff]
  unfold Compilation.errorCount errors diagnostics
  rw [List.countP_eq_length_filter, List.length_eq_zero_iff]

/-- A request that meets errors is rejected and changes nothing. -/
theorem serve_of_errors (h : c.errors ≠ []) (w : World σ) (r : Request) :
    c.serve write w r = (w, .failure (.rejected c.errors.length)) := by
  have hcheck : c.check = .error (.rejected c.errors.length) := by
    rw [check_eq, if_neg h]
  cases r with
  | module disk o =>
    have hmodule : c.writeModuleOn disk w.files o
        = (w.files, .error (.rejected c.errors.length)) := by
      rw [writeModuleOn, hcheck]
    simp only [serve, hmodule]
  | report sink =>
    have hreport : c.report = .error (.rejected c.errors.length) := by
      rw [report, hcheck]
      rfl
    simp only [serve, hreport]

theorem isAccess_of_install {disk : FileSystem.Disk} {fs files : FileSystem}
    {directory path : Path} {text : String} {f : Failure}
    (h : Lua.install disk fs directory path text = (files, .error f)) :
    ∃ path fault, f = .access path fault := by
  unfold Lua.install at h
  split at h
  · cases h
    exact ⟨_, _, rfl⟩
  · split at h
    · cases h
    · cases h
      exact ⟨_, _, rfl⟩

/-- Writing a module fails for no other reason than the file system. -/
theorem isAccess_of_writeModuleOn {disk : FileSystem.Disk} {fs files : FileSystem}
    {inputs : List Path} {result : Compilation} {o : Lua.ModuleOptions} {f : Failure}
    (h : Lua.writeModuleOn disk fs inputs result o = (files, .error f)) :
    ∃ path fault, f = .access path fault := by
  unfold Lua.writeModuleOn at h
  dsimp only at h
  split at h
  · cases h
  · rename_i heq
    cases h
    exact isAccess_of_install heq

/-- Without errors no request is rejected. -/
theorem serve_of_valid (h : c.errors = []) (w : World σ) (r : Request) :
    ¬ (c.serve write w r).2.IsRejection := by
  have hcheck : c.check = .ok () := by
    rw [check_eq, if_pos h]
  rintro ⟨n, hn⟩
  cases r with
  | module disk o =>
    have hmodule : c.writeModuleOn disk w.files o
        = Lua.writeModuleOn disk w.files c.inputs c.result o := by
      rw [writeModuleOn, hcheck]
    unfold serve at hn
    simp only [hmodule] at hn
    -- a failure comes from the file system, and those are no rejections
    split at hn
    · cases hn
    · rename_i heq
      cases hn
      obtain ⟨path, fault, hf⟩ := isAccess_of_writeModuleOn heq
      cases hf
  | report sink =>
    have hreport : c.report = .ok c.result.reportText := by
      rw [report, hcheck]
      rfl
    simp only [serve, hreport, World.report] at hn
    split at hn <;> cases hn

/-! ## Sequences of requests -/

theorem serveAll_of_errors (h : c.errors ≠ []) (w : World σ) (requests : List Request) :
    c.serveAll write w requests
      = (w, requests.map fun _ => .failure (.rejected c.errors.length)) := by
  induction requests with
  | nil => rfl
  | cons r rest ih => simp only [serveAll, serve_of_errors write c h, ih, List.map_cons]

theorem serveAll_of_valid (h : c.errors = []) (w : World σ) (requests : List Request) :
    ∀ a ∈ (c.serveAll write w requests).2, ¬ a.IsRejection := by
  induction requests generalizing w with
  | nil =>
    intro a ha
    cases ha
  | cons r rest ih =>
    intro a ha
    rcases List.mem_cons.mp ha with rfl | hrest
    · exact serve_of_valid write c h w r
    · exact ih _ a hrest

/-- Errors block every output. If there is an error among the diagnostics, every request of a
sequence is rejected with the number of errors, and no file and no sink is touched; if there is
none, no request is rejected. The diagnostics stay those of the compiler, and being valid is the
same as not being rejected, for every request. -/
theorem errors_block_outputs (w : World σ) (requests : List Request) :
    ((∃ d ∈ c.diagnostics, d.severity = .error) →
        c.serveAll write w requests
          = (w, requests.map fun _ =>
              .failure (.rejected (c.diagnostics.countP fun d => d.severity = .error))))
      ∧ ((∀ d ∈ c.diagnostics, d.severity ≠ .error) →
        ∀ a ∈ (c.serveAll write w requests).2, ¬ a.IsRejection)
      ∧ c.diagnostics = c.result.diagnostics
      ∧ ∀ r, (c.isValid ↔ ¬ (c.serve write w r).2.IsRejection) := by
  have hcount : (c.diagnostics.countP fun d => d.severity = .error) = c.errors.length :=
    List.countP_eq_length_filter
  have herrors : c.errors = [] ↔ ∀ d ∈ c.diagnostics, d.severity ≠ .error := by
    simp [errors, Diagnostic.isError]
  refine ⟨?_, ?_, rfl, ?_⟩
  · rintro ⟨d, hd, hseverity⟩
    rw [hcount]
    exact serveAll_of_errors write c (fun hnil => herrors.mp hnil d hd hseverity) w requests
  · intro hnone
    exact serveAll_of_valid write c (herrors.mpr hnone) w requests
  · intro r
    rw [isValid_iff]
    constructor
    · exact fun h => serve_of_valid write c h w r
    · intro hanswer
      by_cases herr : c.errors = []
      · exact herr
      · rw [serve_of_errors write c herr] at hanswer
        exact absurd ⟨_, rfl⟩ hanswer

/-- One error besides a warning, and one request of each kind to a sink that fails. -/
theorem errors_block_outputs_mixed :
    let c : Compiled :=
      ⟨[], ⟨none, .empty, [⟨"unused", "", Extent.form.blank, .warning⟩,
        ⟨"syntax", "", Extent.form.blank, .error⟩]⟩⟩
    let write : List Char → List Char → List Char × Except Unit Unit :=
      fun taken text => (taken ++ text.take 1, .error ())
    let w : World (List Char) := ⟨.fresh ['t'] ['d'], fun _ => []⟩
    let out : Lua.ModuleOptions := ⟨⟨"out"⟩, none, none⟩
    c.serveAll write w [.report 3, .module w.files.soundDisk out]
      = (w, [.failure (.rejected 1), .failure (.rejected 1)]) := by
  intro c write w out
  have h := (errors_block_outputs write c w [.report 3, .module w.files.soundDisk out]).1
  exact h ⟨⟨"syntax", "", Extent.form.blank, .error⟩, by simp [c, diagnostics], rfl⟩

end DialogueBuild.Compiled

import DialogueBuild.Project.Sources
import DialogueBuild.Proofs.Path.FileName
import DialogueBuild.Proofs.Project.Definitions
import DialogueBuild.Proofs.Project.Sources
/-!
What the inputs of a run make a job of.

A job is made of loose sources, for which no file is read, or of a single project, for which the
given version does not matter. A project beside other inputs is refused before anything is read.

Results:

1. `Definitions.load_eq_ok_iff`, `Definitions.load_eq_error_iff`   what a document declares, or why
   it is refused;
2. `isProjectPath_iff`          projects are told by the extension of their paths;
3. `ofProject_eq_ok_iff`        which job a project makes;
4. `ofInputs_eq_error_iff`      why there is no job of a project;
5. `sources_never_mix`          what becomes of every list of inputs.
-/
namespace DialogueBuild

open Json (Value)

/-! ## Reading files -/

/-- Only where nothing is a text is not found. -/
theorem FileSystem.readText_eq_notFound_iff {fs : FileSystem} {path : Path} :
    fs.readText path = .error .notFound ↔ fs.lookup path = .error .notFound := by
  unfold readText fileAt
  simp only [bind_eq_error]
  constructor
  · rintro ((h | ⟨e, -, h⟩) | ⟨f, -, h⟩)
    · exact h
    · cases e <;> cases h
    · split at h <;> cases h
  · exact fun h => .inl (.inl h)

namespace Definitions

variable {fs : FileSystem} {path : Path} {ds : List Declaration} {failure : Failure}

/-- A document declares these functions: nothing if there is no document, else what its functions
declare, each in its place. -/
inductive Declared (fs : FileSystem) (path : Path) : List Declaration → Prop
  | missing (h : fs.lookup path = .error .notFound) : Declared fs path []
  | listed {text : String} {root : Value} {ds : List Declaration}
      (htext : fs.readText path = .ok text) (hroot : Value.ofText text = .ok root)
      (hfunctions : List.Forall₂ Declares (functionsOf root) ds) : Declared fs path ds

/-- Why nothing is declared by a document that is there. -/
inductive Undeclared (fs : FileSystem) (path : Path) : Failure → Prop
  | noText {fault : FileSystem.Fault} (h : fs.readText path = .error fault)
      (hfound : fault ≠ .notFound) : Undeclared fs path (.access path fault)
  | noDocument {text : String} {problem : Json.Problem} (htext : fs.readText path = .ok text)
      (h : Value.ofText text = .error problem) :
      Undeclared fs path (.definitions path (.unreadable problem))
  | faulty {text : String} {root function : Value} {front back : List Value} {failure : Failure}
      (htext : fs.readText path = .ok text) (hroot : Value.ofText text = .ok root)
      (hsplit : functionsOf root = front ++ function :: back)
      (hfront : ∀ f ∈ front, ∃ d, Declares f d)
      (hfault : FirstFault path front.length function failure) : Undeclared fs path failure

theorem load_of_text {text : String} (h : fs.readText path = .ok text) :
    load fs path = ofText path text := by
  rw [load, h]

theorem load_of_notFound (h : fs.readText path = .error .notFound) : load fs path = .ok [] := by
  rw [load, h]

theorem load_of_fault {fault : FileSystem.Fault} (h : fs.readText path = .error fault)
    (hfound : fault ≠ .notFound) : load fs path = .error (.access path fault) := by
  unfold load
  rw [h]
  cases fault <;> first | rfl | exact absurd rfl hfound

theorem ofText_of_root {text : String} {root : Value} (h : Value.ofText text = .ok root) :
    ofText path text = declarationsFrom path 0 (functionsOf root) := by
  rw [ofText, h]

/-- Either a document declares something or there is a reason why it does not. -/
theorem load_cases (fs : FileSystem) (path : Path) :
    (∃ ds, load fs path = .ok ds ∧ Declared fs path ds)
      ∨ ∃ failure, load fs path = .error failure ∧ Undeclared fs path failure := by
  cases htext : fs.readText path with
  | error fault =>
    by_cases hfound : fault = .notFound
    · subst hfound
      exact .inl ⟨[], load_of_notFound htext,
        .missing (FileSystem.readText_eq_notFound_iff.mp htext)⟩
    · exact .inr ⟨_, load_of_fault htext hfound, .noText htext hfound⟩
  | ok text =>
    rw [load_of_text htext]
    cases hroot : Value.ofText text with
    | error problem => exact .inr ⟨_, by rw [ofText, hroot], .noDocument htext hroot⟩
    | ok root =>
      rw [ofText_of_root hroot]
      cases hread : declarationsFrom path 0 (functionsOf root) with
      | ok ds => exact .inl ⟨ds, rfl, .listed htext hroot (declarationsFrom_eq_ok_iff.mp hread)⟩
      | error failure =>
        obtain ⟨front, function, back, hsplit, hfront, hfault⟩ :=
          declarationsFrom_eq_error_iff.mp hread
        rw [Nat.zero_add] at hfault
        exact .inr ⟨failure, rfl, .faulty htext hroot hsplit hfront hfault⟩

theorem load_eq_ok_iff : load fs path = .ok ds ↔ Declared fs path ds := by
  constructor
  · intro h
    rcases load_cases fs path with ⟨ds', heq, hdeclared⟩ | ⟨failure, heq, -⟩
    · cases heq.symm.trans h
      exact hdeclared
    · cases heq.symm.trans h
  · intro h
    cases h with
    | missing h => exact load_of_notFound (FileSystem.readText_eq_notFound_iff.mpr h)
    | listed htext hroot hfunctions =>
      rw [load_of_text htext, ofText_of_root hroot, declarationsFrom_eq_ok_iff]
      exact hfunctions

theorem load_eq_error_iff : load fs path = .error failure ↔ Undeclared fs path failure := by
  constructor
  · intro h
    rcases load_cases fs path with ⟨ds, heq, -⟩ | ⟨failure', heq, hundeclared⟩
    · cases heq.symm.trans h
    · cases heq.symm.trans h
      exact hundeclared
  · intro h
    cases h with
    | noText h hfound => exact load_of_fault h hfound
    | noDocument htext h => rw [load_of_text htext, ofText, h]
    | faulty htext hroot hsplit hfront hfault =>
      rw [load_of_text htext, ofText_of_root hroot, declarationsFrom_eq_error_iff]
      exact ⟨_, _, _, hsplit, hfront, by rwa [Nat.zero_add]⟩

end Definitions

/-! ## Projects as inputs -/

theorem Project.isProjectPath_iff {path : Path} :
    isProjectPath path = true ↔ path.HasExtension fileExtension := by
  unfold isProjectPath
  rw [decide_eq_true_iff, Path.extension?_eq_some_iff (by decide)]

/-- Why there is no project at a path. -/
inductive Project.Unloadable (fs : FileSystem) (path : Path) : Failure → Prop
  | noText {fault : FileSystem.Fault} (h : fs.readText path = .error fault) :
      Unloadable fs path (.access path fault)
  | noManifest {text : String} {problem : Json.Problem} (htext : fs.readText path = .ok text)
      (h : Manifest.ofText text = .error problem) :
      Unloadable fs path (.project path (.unreadable problem))

theorem Project.load_eq_error_iff {fs : FileSystem} {path : Path} {failure : Failure} :
    load fs path = .error failure ↔ Unloadable fs path failure := by
  constructor
  · intro h
    unfold load at h
    split at h
    · rename_i fault htext
      cases h
      exact .noText htext
    · rename_i text htext
      split at h
      · cases h
      · rename_i problem hmanifest
        cases h
        exact .noManifest htext hmanifest
  · intro h
    cases h with
    | noText h => rw [load, h]
    | noManifest htext h =>
      unfold load
      rw [htext]
      simp only [h]

/-- The failure of a list of sources is that of a pattern. -/
theorem Project.sources_eq_error {p : Project} {fs : FileSystem} {failure : Failure}
    (h : p.sources fs = .error failure) :
    ¬ p.PatternsValid ∧ ∃ fault, failure = .project p.path fault := by
  have hvalid : ¬ p.PatternsValid := by
    intro hvalid
    obtain ⟨files, hfiles⟩ := exists_sources_iff.mpr hvalid
    rw [h] at hfiles
    cases hfiles
  obtain ⟨fault, hfault⟩ : ∃ fault, p.sources fs = .error (.project p.path fault) :=
    sources_error hvalid
  rw [h] at hfault
  cases hfault
  exact ⟨hvalid, fault, rfl⟩

namespace Job

variable {fs : FileSystem} {p : Project} {path : Path} {job : Job} {inputs : List Path}
  {version : Int32} {failure : Failure}

/-- A job is that of a project: its sources, its version, and what the definitions declare that it
names, if it names any. -/
structure IsOf (fs : FileSystem) (p : Project) (job : Job) : Prop where
  sources : p.sources fs = .ok job.sources
  version : job.languageVersion = p.manifest.version
  unnamed : p.manifest.definitions = none → job.declarations = []
  named : ∀ name, p.manifest.definitions = some name →
    Definitions.Declared fs (p.directory.join ⟨name⟩) job.declarations

/-- Why there is no job of the project at a path: there is no project, or one of its patterns cannot
be read, or its definitions document is refused. -/
inductive Stops (fs : FileSystem) (path : Path) : Failure → Prop
  | project {failure : Failure} (h : Project.Unloadable fs path failure) : Stops fs path failure
  | pattern {p : Project} {fault : ProjectFault} (hload : Project.load fs path = .ok p)
      (hvalid : ¬ p.PatternsValid) (h : p.sources fs = .error (.project path fault)) :
      Stops fs path (.project path fault)
  | definitions {p : Project} {name : String} {failure : Failure}
      (hload : Project.load fs path = .ok p) (hvalid : p.PatternsValid)
      (hname : p.manifest.definitions = some name)
      (h : Definitions.Undeclared fs (p.directory.join ⟨name⟩) failure) : Stops fs path failure

theorem ofProject_of_unnamed (h : p.manifest.definitions = none) :
    ofProject fs p
      = p.sources fs >>= fun sources => .ok ⟨sources, p.manifest.version, []⟩ := by
  unfold ofProject Project.definitionsPath?
  rw [h]
  rfl

theorem ofProject_of_named {name : String} (h : p.manifest.definitions = some name) :
    ofProject fs p
      = p.sources fs >>= fun sources =>
        Definitions.load fs (p.directory.join ⟨name⟩) >>= fun ds =>
          .ok ⟨sources, p.manifest.version, ds⟩ := by
  unfold ofProject Project.definitionsPath?
  rw [h]
  rfl

theorem ofProject_eq_ok_iff : ofProject fs p = .ok job ↔ job.IsOf fs p := by
  cases hname : p.manifest.definitions with
  | none =>
    rw [ofProject_of_unnamed hname, bind_eq_ok]
    constructor
    · rintro ⟨sources, hsources, h⟩
      cases h
      exact ⟨hsources, rfl, fun _ => rfl, fun name h => absurd (hname.symm.trans h) (by simp)⟩
    · intro h
      refine ⟨_, h.sources, ?_⟩
      rw [← h.version, ← h.unnamed hname]
  | some name =>
    rw [ofProject_of_named hname, bind_eq_ok]
    simp only [bind_eq_ok, Definitions.load_eq_ok_iff]
    constructor
    · rintro ⟨sources, hsources, ds, hds, h⟩
      cases h
      refine ⟨hsources, rfl, fun h => absurd (hname.symm.trans h) (by simp), fun other h => ?_⟩
      cases hname.symm.trans h
      exact hds
    · intro h
      refine ⟨_, h.sources, _, h.named name hname, ?_⟩
      rw [← h.version]

theorem ofProject_eq_error_iff :
    ofProject fs p = .error failure
      ↔ p.sources fs = .error failure
        ∨ p.PatternsValid ∧ ∃ name, p.manifest.definitions = some name
          ∧ Definitions.Undeclared fs (p.directory.join ⟨name⟩) failure := by
  cases hname : p.manifest.definitions with
  | none =>
    rw [ofProject_of_unnamed hname, bind_eq_error]
    simp
  | some name =>
    rw [ofProject_of_named hname, bind_eq_error]
    simp only [bind_eq_error, Definitions.load_eq_error_iff, reduceCtorEq, and_false, exists_false,
      or_false, Option.some.injEq, exists_eq_left', exists_and_right, Project.exists_sources_iff]

/-! ## Lists of inputs -/

theorem ofInputs_of_loose (h : ∀ q ∈ inputs, ¬ q.HasExtension Project.fileExtension) :
    ofInputs fs inputs version = .ok (.ofSources inputs version) := by
  have hany : inputs.any Project.isProjectPath = false := by
    rw [List.any_eq_false]
    exact fun q hq => mt Project.isProjectPath_iff.mp (h q hq)
  unfold ofInputs
  rw [if_neg (by rw [hany]; exact Bool.false_ne_true)]

theorem ofInputs_of_mixed (h : ∃ q ∈ inputs, q.HasExtension Project.fileExtension)
    (hlength : inputs.length ≠ 1) :
    ofInputs fs inputs version = .error (.misuse .projectBesideInputs) := by
  obtain ⟨q, hq, hextension⟩ := h
  have hany : inputs.any Project.isProjectPath = true :=
    List.any_eq_true.mpr ⟨q, hq, Project.isProjectPath_iff.mpr hextension⟩
  unfold ofInputs
  rw [if_pos hany]
  split
  · exact absurd rfl hlength
  · rfl

theorem ofInputs_of_project (h : path.HasExtension Project.fileExtension) :
    ofInputs fs [path] version = Project.load fs path >>= ofProject fs := by
  have hany : [path].any Project.isProjectPath = true := by
    rw [List.any_cons, Project.isProjectPath_iff.mpr h]
    rfl
  unfold ofInputs
  rw [if_pos hany]

/-- Why there is no job of a project. -/
theorem ofInputs_eq_error_iff (h : path.HasExtension Project.fileExtension) :
    ofInputs fs [path] version = .error failure ↔ Stops fs path failure := by
  rw [ofInputs_of_project h, bind_eq_error, Project.load_eq_error_iff]
  simp only [ofProject_eq_error_iff]
  constructor
  · rintro (hproject | ⟨p, hload, hsources | ⟨hvalid, name, hname, hdefinitions⟩⟩)
    · exact .project hproject
    · obtain ⟨hvalid, fault, rfl⟩ := Project.sources_eq_error hsources
      obtain ⟨-, -, -, hpath⟩ := Project.load_eq_ok_iff.mp hload
      rw [hpath] at hsources ⊢
      exact .pattern hload hvalid hsources
    · exact .definitions hload hvalid hname hdefinitions
  · intro h
    cases h with
    | project h => exact .inl h
    | pattern hload _ h => exact .inr ⟨_, hload, .inl h⟩
    | definitions hload hvalid hname h => exact .inr ⟨_, hload, .inr ⟨hvalid, _, hname, h⟩⟩

/-- Sources never mix. Inputs of which none is a project are the sources of a job, in order and as
often as they are given, with the given version and no declarations, whatever files there are. A
project beside other inputs is refused, whatever files there are. A project alone makes the same of
every version; its job has the sources, the version and the declarations that its manifest says; and
if anything of the project cannot be read there is no job, but the failure that says so. -/
theorem sources_never_mix (inputs : List Path) (version : Int32) :
    ((∀ q ∈ inputs, ¬ q.HasExtension Project.fileExtension) →
      ∀ fs, ofInputs fs inputs version = .ok ⟨inputs, version, []⟩)
    ∧ ((∃ q ∈ inputs, q.HasExtension Project.fileExtension) → inputs.length ≠ 1 →
      ∀ fs, ofInputs fs inputs version = .error (.misuse .projectBesideInputs))
    ∧ ∀ path, inputs = [path] → path.HasExtension Project.fileExtension → ∀ fs,
      (∀ other, ofInputs fs inputs other = ofInputs fs inputs version)
      ∧ (∀ job, ofInputs fs inputs version = .ok job
        ↔ ∃ text manifest, fs.readText path = .ok text ∧ Manifest.ofText text = .ok manifest
          ∧ job.IsOf fs ⟨manifest, path⟩)
      ∧ ∀ failure, ofInputs fs inputs version = .error failure ↔ Stops fs path failure := by
  refine ⟨fun h fs => ofInputs_of_loose h, fun h hlength fs => ofInputs_of_mixed h hlength, ?_⟩
  rintro path rfl h fs
  refine ⟨fun other => ?_, fun job => ?_, fun failure => ofInputs_eq_error_iff h⟩
  · rw [ofInputs_of_project h, ofInputs_of_project h]
  · rw [ofInputs_of_project h, bind_eq_ok]
    simp only [ofProject_eq_ok_iff, Project.load_eq_ok_iff]
    constructor
    · rintro ⟨p, ⟨text, htext, hmanifest, rfl⟩, hjob⟩
      exact ⟨text, p.manifest, htext, hmanifest, hjob⟩
    · rintro ⟨text, manifest, htext, hmanifest, hjob⟩
      exact ⟨⟨manifest, path⟩, ⟨text, htext, hmanifest, rfl⟩, hjob⟩

/-- The same source twice, a project beside it, and the project alone, which has definitions. -/
theorem sources_never_mix_defined :
    let manifest : Manifest :=
      { Manifest.new false with sourcePatterns := ["a.yarn"], definitions := some "d.json" }
    let text := manifest.text
    let definitions := "\x7b\"Functions\": [\x7b\"YarnName\": \"roll\", \"ReturnType\": \"Any\"\x7d]\x7d"
    let fs : FileSystem :=
      ⟨[(["x".toList], .directory), (["x".toList, "a.yarn".toList], .file (.ofText "")),
          (["x".toList, "G.yarnproject".toList], .file (.ofText text)),
          (["x".toList, "d.json".toList], .file (.ofText definitions))], by simp, []⟩
    let source : Path := ⟨"x/a.yarn"⟩
    let project : Path := ⟨"x/G.yarnproject"⟩
    ¬ source.HasExtension Project.fileExtension ∧ project.HasExtension Project.fileExtension
      ∧ ofInputs fs [source, source] 7 = .ok ⟨[source, source], 7, []⟩
      ∧ ofInputs fs [source, project] 7 = .error (.misuse .projectBesideInputs)
      ∧ ofInputs fs [project] 7 = .ok ⟨[source], 2, [⟨"roll", .any, [], none⟩]⟩ := by
  intro manifest text definitions fs source project
  have hsource : ¬ source.HasExtension Project.fileExtension :=
    mt Project.isProjectPath_iff.mpr (by decide)
  have hproject : project.HasExtension Project.fileExtension :=
    Project.isProjectPath_iff.mp (by decide)
  obtain ⟨hloose, -, -⟩ := sources_never_mix [source, source] 7
  obtain ⟨-, hmixed, -⟩ := sources_never_mix [source, project] 7
  obtain ⟨-, -, hsingle⟩ := sources_never_mix [project] 7
  obtain ⟨-, hjob, -⟩ := hsingle project rfl hproject fs
  refine ⟨hsource, hproject, hloose (by simp [hsource]) fs,
    hmixed ⟨project, by simp, hproject⟩ (by decide) fs, (hjob _).mpr ⟨text, manifest, ?_⟩⟩
  have hsources : Project.sources ⟨manifest, project⟩ fs = .ok [source] := by
    refine Project.sources_eq_ok_iff.mpr ⟨[], rfl, [[source]], ?_, by simp [Project.mergeSame]⟩
    have hfiles : Glob.files fs (Project.placed ⟨manifest, project⟩ "a.yarn") = .ok [source] := by
      decide
    exact mapM_eq_ok.mpr (.cons (Project.filesOf_eq_ok_iff.mpr ⟨[source], hfiles, rfl⟩) .nil)
  have hdeclared : Definitions.Declared fs ⟨"x/d.json"⟩ [⟨"roll", .any, [], none⟩] := by
    let roll : Value := .object [("YarnName", .string "roll"), ("ReturnType", .string "Any")]
    have hroot : Value.ofText definitions = .ok (.object [("Functions", .array [roll])]) := by
      unfold definitions roll
      cbv
    have hroll : Definitions.Declares roll ⟨"roll", .any, [], none⟩ :=
      ⟨rfl, ⟨"Any", rfl, rfl⟩, .absent rfl, by simp [roll, Value.member?, findEntry?]⟩
    exact .listed (FileSystem.readText_of_lookup rfl) hroot (.cons hroll .nil)
  have htext : fs.readText project = .ok text := by
    have hlookup : fs.lookup project = .ok (.file (.ofText text)) := by
      clear_value text definitions
      unfold fs project
      rfl
    exact FileSystem.readText_of_lookup hlookup
  have hsound : manifest.Sound := Manifest.sound_new false
  have hfloats : ∀ x ∈ Json.memberFloats manifest.extra.entries, Json.ReadsBack x := by
    intro x hx
    cases hx
  refine ⟨htext, Manifest.ofText_text hsound hfloats, hsources, rfl, by simp, ?_⟩
  have hplace : (Project.directory ⟨manifest, project⟩).join ⟨"d.json"⟩ = ⟨"x/d.json"⟩ := by decide
  rintro name ⟨⟩
  rw [hplace]
  exact hdeclared

end Job

end DialogueBuild

import DialogueBuild.Compiler.Run
import DialogueBuild.Proofs.Json.Compact
import DialogueBuild.Proofs.WireFormat
/-!
Jobs as compilers read them.

A job is sent as compact text. Its documents leave out absent documentations and write empty ones;
the reader fills what is missing with the defaults of its own, and what it gets is the job.

Results:

1. `Declaration.renders`, `Job.renders`   a document has every detail of its job;
2. `Declaration.follows`, `Job.follows`   every detail is read where its name says;
3. `Job.received_as_built`                so a compiler reads the job that was built.
-/
namespace DialogueBuild

open Json

/-! ## How jobs are written -/

def ValueType.spellings (t : ValueType) : List String := [t.name]

def Path.RendersText (p : Path) (t : Tree) : Prop := t = textTree p.text

def Declaration.details : List (Detail Declaration) :=
  [.required "name" RendersText name,
   .required "returnType" (RendersVariant ValueType.spellings) returnType,
   .required "parameters" (RendersList (RendersVariant ValueType.spellings)) parameters,
   .optional "documentation" (RendersOption RendersText) documentation none]

def Job.details : List (Detail Job) :=
  [.required "sourceFiles" (RendersList Path.RendersText) sources,
   .required "languageVersion" RendersInt32 languageVersion,
   .optional "declarations" (RendersList (RendersRecord Declaration.details)) declarations []]

/-! ### Documents -/

theorem rendersList_map {α : Type} {R : α → Tree → Prop} {f : α → Value} (items : List α)
    (h : ∀ a ∈ items, R a (f a).tree) : RendersList R items (Value.array (items.map f)).tree := by
  refine ⟨itemTrees (items.map f), by rw [Value.tree], ?_⟩
  induction items with
  | nil => exact .nil
  | cons a rest ih =>
    obtain ⟨hhead, hrest⟩ := List.forall_mem_cons.mp h
    rw [List.map_cons, itemTrees]
    exact .cons hhead (ih hrest)

theorem ValueType.renders (t : ValueType) : RendersVariant spellings t t.toJson.tree :=
  ⟨t.name, List.mem_singleton_self _, by rw [toJson, Value.tree]⟩

/-- A documentation that is absent is left out; an empty one is not. -/
theorem Declaration.renders (d : Declaration) : RendersRecord details d d.toJson.tree := by
  refine .inl ⟨_, by rw [toJson, Value.tree], ?_⟩
  have hname : RendersText d.name (Value.string d.name).tree := by rw [Value.tree]; rfl
  have hparameters := rendersList_map d.parameters fun t _ => t.renders
  simp only [List.cons_append, List.nil_append, memberTrees]
  refine .first hname (.first d.returnType.renders (.first hparameters ?_))
  cases htext : d.documentation with
  | none =>
    rw [memberTrees]
    exact .leftOut htext (.done (by simp))
  | some text =>
    have hdocumentation : RendersOption RendersText d.documentation (Value.string text).tree := by
      rw [htext, Value.tree]
      rfl
    simp only [memberTrees]
    exact .first hdocumentation (.done (by simp))

theorem Job.renders (job : Job) : RendersRecord details job job.toJson.tree := by
  refine .inl ⟨_, by rw [toJson, Value.tree], ?_⟩
  have hsources := rendersList_map (R := Path.RendersText) (f := fun p => .string p.text)
    job.sources fun p _ => by rw [Value.tree]; rfl
  have hversion : RendersInt32 job.languageVersion (Value.ofInt32 job.languageVersion).tree := by
    rw [Value.ofInt32, Value.ofInt, Value.tree]
    rfl
  have hdeclarations := rendersList_map job.declarations fun d _ => d.renders
  simp only [memberTrees]
  exact .first hsources (.first hversion (.first hdeclarations (.done (by simp))))

/-! ## How jobs are read -/

theorem decodes_valueType : Decodes ValueType.decode 0 (RendersVariant ValueType.spellings) := by
  apply decodes_variant
  intro t
  cases t <;> decide

theorem decodes_path : Decodes Path.decode 0 Path.RendersText := by
  rintro p t rfl room -
  rfl

namespace Declaration

def rows : List (Row Declaration) :=
  [.required "name" decodeString RendersText name (fun v d => { d with name := v }),
   .required "returnType" ValueType.decode (RendersVariant ValueType.spellings) returnType
     (fun v d => { d with returnType := v }),
   .required "parameters" (decodeList ValueType.decode)
     (RendersList (RendersVariant ValueType.spellings)) parameters
     (fun v d => { d with parameters := v }),
   .optional "documentation" (decodeOption decodeString) (RendersOption RendersText) documentation
     (fun v d => { d with documentation := v }) none]

theorem follows : form.Follows rows 1 where
  fields := rfl
  keep := rfl
  rowsSound :=
    ⟨Row.sound_required decodes_text (by decide) (fun _ => rfl) fun _ _ => rfl,
     Row.sound_required decodes_valueType (by decide) (fun _ => rfl) fun _ _ => rfl,
     Row.sound_required (decodes_list decodes_valueType) (by decide) (fun _ => rfl) fun _ _ => rfl,
     Row.sound_optional (decodes_option decodes_text not_rendersText_null)
       (by decide) rfl (fun _ => rfl) fun _ _ => rfl⟩
  names := by decide
  apart := by simp [rows, Row.Apart, Row.optional, Row.required]
  full := by
    rintro ⟨⟩ ⟨⟩ h
    simpa [rows, Row.optional, Row.required, eq_comm] using h

end Declaration

namespace Job

def rows : List (Row Job) :=
  [.required "sourceFiles" (decodeList Path.decode) (RendersList Path.RendersText) sources
     (fun v j => { j with sources := v }),
   .required "languageVersion" int32 RendersInt32 languageVersion
     (fun v j => { j with languageVersion := v }),
   .optional "declarations" (decodeList Declaration.decode)
     (RendersList (RendersRecord Declaration.details)) declarations
     (fun v j => { j with declarations := v }) []]

theorem follows : form.Follows rows 3 where
  fields := rfl
  keep := rfl
  rowsSound :=
    ⟨Row.sound_required (decodes_list decodes_path) (by decide) (fun _ => rfl) fun _ _ => rfl,
     Row.sound_required decodes_int32 (by decide) (fun _ => rfl) fun _ _ => rfl,
     Row.sound_optional (decodes_list (decodes_record Declaration.follows))
       (by decide) rfl (fun _ => rfl) fun _ _ => rfl⟩
  names := by decide
  apart := by simp [rows, Row.Apart, Row.optional, Row.required]
  full := by
    rintro ⟨⟩ ⟨⟩ h
    simpa [rows, Row.optional, Row.required, eq_comm] using h

/-! ## Texts of jobs -/

theorem decodes_job : Decodes decode 4 (RendersRecord details) := decodes_record follows

end Job

theorem ValueType.finite_toJson (t : ValueType) : t.toJson.IsFinite := isFinite_string t.name

theorem Declaration.finite_toJson (d : Declaration) : d.toJson.IsFinite := by
  unfold toJson
  cases d.documentation <;> simp [ValueType.finite_toJson]

theorem Job.finite_toJson (job : Job) : job.toJson.IsFinite := by
  simp [toJson, Declaration.finite_toJson]

namespace Job

/-- The text of a job is read as the job. -/
theorem ofText_text (job : Job) : decodeText? decode job.text = .ok job :=
  decode_text job.finite_toJson (decodes_job job _ job.renders _ (by decide))

/-! ## Jobs as they are built -/

/-- Declarations are added behind those that a job has. -/
theorem foldl_declare (job : Job) (ds : List Declaration) :
    ds.foldl declare job = { job with declarations := job.declarations ++ ds } := by
  induction ds generalizing job with
  | nil => rw [List.foldl_nil, List.append_nil]
  | cons d rest ih => rw [List.foldl_cons, ih, declare, List.append_assoc, List.singleton_append]

/-- A compiler receives the job that was built: what it reads, if it reads at all, is the text of a
job with the given sources, version and declarations, each in order, and with documentations that
are there if and only if they were given, be they empty or not. -/
theorem received_as_built (sources : List Path) (version : Int32) (ds : List Declaration) :
    let job := ds.foldl declare (.ofSources sources version)
    decodeText? decode job.text = .ok ⟨sources, version, ds⟩
      ∧ ∀ c : Compiler, (c.exchange job).jobRead.map (decodeText? decode)
          = if c.readsJob then some (.ok ⟨sources, version, ds⟩) else none := by
  intro job
  have hjob : job = ⟨sources, version, ds⟩ := foldl_declare (.ofSources sources version) ds
  have hread : decodeText? decode job.text = .ok ⟨sources, version, ds⟩ := by
    rw [← hjob]
    exact ofText_text job
  refine ⟨hread, fun c => ?_⟩
  show (if c.readsJob then some job.text else none).map (decodeText? decode) = _
  cases c.readsJob with
  | false => rfl
  | true => exact congrArg some hread

end Job

end DialogueBuild

import DialogueBuild.ValueType
import DialogueBuild.Json.Decoder
import DialogueBuild.Path.Basic
/-!
Jobs for the dialogue compiler: the sources, their language version, and the functions that the
dialogue may call.
-/
namespace DialogueBuild

open Json (Value Decoder Form Field)

/-- A function outside the dialogue that it may call. -/
structure Declaration where
  name : String
  returnType : ValueType
  parameters : List ValueType
  documentation : Option String
  deriving DecidableEq, Repr

/-- One run of the compiler. -/
structure Job where
  sources : List Path
  languageVersion : Int32
  declarations : List Declaration
  deriving DecidableEq, Repr

/-- A job without declarations. -/
def Job.ofSources (sources : List Path) (languageVersion : Int32) : Job :=
  ⟨sources, languageVersion, []⟩

/-- Adds a declaration behind the others. -/
def Job.declare (job : Job) (d : Declaration) : Job :=
  { job with declarations := job.declarations ++ [d] }

/-! ## As documents -/

def Declaration.form : Form Declaration where
  record := "FunctionDeclaration"
  fields :=
    [.mustHave "name" Json.decodeString fun v d => { d with name := v },
     .mustHave "returnType" ValueType.decode fun v d => { d with returnType := v },
     .mustHave "parameters" (Json.decodeList ValueType.decode)
       fun v d => { d with parameters := v },
     .mayHave "documentation" (Json.decodeOption Json.decodeString)
       fun v d => { d with documentation := v }]
  blank := ⟨"", .any, [], none⟩

def Declaration.decode : Decoder Declaration := Declaration.form.decode

/-- The members of a declaration; an absent documentation is left out. -/
def Declaration.toJson (d : Declaration) : Value :=
  .object <|
    [("name", .string d.name), ("returnType", d.returnType.toJson),
     ("parameters", .array (d.parameters.map ValueType.toJson))]
    ++ match d.documentation with
      | some text => [("documentation", .string text)]
      | none => []

/-- Reads a source path. -/
def Path.decode : Decoder Path := fun room t => Path.mk <$> Json.decodeText "path string" room t

def Job.form : Form Job where
  record := "CompilationJob"
  fields :=
    [.mustHave "sourceFiles" (Json.decodeList Path.decode) fun v j => { j with sources := v },
     .mustHave "languageVersion" Json.int32 fun v j => { j with languageVersion := v },
     .mayHave "declarations" (Json.decodeList Declaration.decode)
       fun v j => { j with declarations := v }]
  blank := ⟨[], 0, []⟩

def Job.decode : Decoder Job := Job.form.decode

def Job.toJson (job : Job) : Value :=
  .object
    [("sourceFiles", .array (job.sources.map fun p => .string p.text)),
     ("languageVersion", .ofInt32 job.languageVersion),
     ("declarations", .array (job.declarations.map Declaration.toJson))]

/-- The text that a compiler is sent. -/
def Job.text (job : Job) : String := job.toJson.text

end DialogueBuild

import DialogueBuild.Json.Decoder
/-!
Project manifests: which sources belong to a project, and in which version of the language.

Members that are not known are kept, so that writing a manifest loses nothing.
-/
namespace DialogueBuild

open Json (Value Decoder Form)

structure Manifest where
  version : Int32
  sourcePatterns : List String
  excludePatterns : List String
  baseLanguage : String
  /-- The path of a definitions document. -/
  definitions : Option String
  /-- Members that mean nothing here. -/
  extra : Table Value

namespace Manifest

/-- The version that new manifests have. -/
def currentVersion : Int32 := 2

def defaultSourcePatterns : List String := ["**/*.yarn"]

def defaultBaseLanguage : String := "en"

/-- Leaves out what is built. -/
def buildsPattern : String := "**/builds/*"

def new (excludeBuilds : Bool) : Manifest where
  version := currentVersion
  sourcePatterns := defaultSourcePatterns
  excludePatterns := if excludeBuilds then [buildsPattern] else []
  baseLanguage := defaultBaseLanguage
  definitions := none
  extra := .empty

def form : Form Manifest where
  record := "Project"
  fields :=
    [.mustHave "projectFileVersion" Json.int32 fun v m => { m with version := v },
     .mayHave "sourceFiles" (Json.decodeList Json.decodeString)
       fun v m => { m with sourcePatterns := v },
     .mayHave "excludeFiles" (Json.decodeList Json.decodeString)
       fun v m => { m with excludePatterns := v },
     .mayHave "baseLanguage" Json.decodeString fun v m => { m with baseLanguage := v },
     .mayHave "definitions" (Json.decodeOption Json.decodeString)
       fun v m => { m with definitions := v }]
  blank := new false
  keep? := some fun key value m => { m with extra := m.extra.insert key value }

/-- Manifests are objects. -/
def decode : Decoder Manifest := form.decodeObject

/-- The members of a manifest, the unknown ones last; absent definitions are left out. -/
def toJson (m : Manifest) : Value :=
  .object <|
    [("projectFileVersion", .ofInt32 m.version), ("sourceFiles", .ofTexts m.sourcePatterns),
     ("excludeFiles", .ofTexts m.excludePatterns), ("baseLanguage", .string m.baseLanguage)]
    ++ (match m.definitions with
      | some path => [("definitions", .string path)]
      | none => [])
    ++ m.extra.entries

/-- The manifest that a text holds. -/
def ofText (text : String) : Except Json.Problem Manifest := Json.decodeText? decode text

/-- The text of a manifest, with its line end. -/
def text (m : Manifest) : String := m.toJson.pretty ++ "\n"

end Manifest

end DialogueBuild

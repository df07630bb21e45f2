import DialogueBuild.Json.Token
/-!
The tree of a JSON text, also of a text that breaks off.

A reader meets the parts of a document from left to right and reports the first problem, be it
in the text or in its meaning. So a text that breaks off still has a tree: whatever was read
before the break, and at its right edge the break itself.
-/
namespace DialogueBuild.Json

/-- How the parts of an array or object end. -/
inductive Ending
  | closed
  /-- The last part is not followed by a comma or the closing bracket. -/
  | cut (fault : Fault)
  deriving DecidableEq, Repr

/-- A document as far as it could be read. The keys of an object are trees as well: a key that is
no string is a fault only for a reader that gets there. -/
inductive Tree
  | scalar (s : Scalar)
  | array (items : List Tree) (ending : Ending)
  | object (members : List (Tree × Tree)) (ending : Ending)
  | broken (b : Break)

instance : Inhabited Tree := ⟨.broken .nothing⟩

/-- An array or object around the place that is being read. Its parts are listed last first. -/
inductive Frame
  | array (items : List Tree)
  | object (members : List (Tree × Tree)) (key : Tree)

/-- What is to be read next, inside the frames from the innermost to the outermost. -/
inductive State
  /-- A value. -/
  | value (frames : List Frame)
  /-- The first item of an array, or its end. -/
  | firstItem (frames : List Frame)
  /-- The first key of an object, or its end. -/
  | firstKey (frames : List Frame)
  /-- The key of a further member. -/
  | key (members : List (Tree × Tree)) (frames : List Frame)
  /-- The colon behind a key. -/
  | colon (members : List (Tree × Tree)) (key : Tree) (frames : List Frame)
  /-- What follows a complete value. -/
  | after (t : Tree) (frames : List Frame)

/-- A document: its tree, and whether more text follows it. -/
structure Document where
  root : Tree
  trailing : Bool

/-- Puts the frames around a tree behind which nothing is read. -/
def enclose (t : Tree) : List Frame → Tree
  | [] => t
  | .array items :: frames => enclose (.array (t :: items).reverse .closed) frames
  | .object members key :: frames => enclose (.object ((key, t) :: members).reverse .closed) frames

/-- The document of a text that breaks off where a value should start. -/
def breakOff (b : Break) (frames : List Frame) : Document := ⟨enclose (.broken b) frames, false⟩

/-- The document of a text that breaks off behind a key. -/
def breakOffBehind (members : List (Tree × Tree)) (key : Tree) (b : Break) (frames : List Frame) :
    Document :=
  breakOff b (.object members key :: frames)

/-- The document of a text that breaks off where a key should start; the break or value that
stands there is kept as the key. -/
def breakOffKey (members : List (Tree × Tree)) (key : Tree) (frames : List Frame) : Document :=
  breakOffBehind members key .junk frames

/-- The document of a text that breaks off behind a complete value. -/
def breakOffAfter (t : Tree) (fault : Fault) : List Frame → Document
  | [] => ⟨t, true⟩
  | .array items :: frames => ⟨enclose (.array (t :: items).reverse (.cut fault)) frames, false⟩
  | .object members key :: frames =>
    ⟨enclose (.object ((key, t) :: members).reverse (.cut fault)) frames, false⟩

/-- The document of a text that ends in a state. -/
def State.finish : State → Document
  | .value frames => breakOff .nothing frames
  | .firstItem frames => ⟨enclose (.array [] (.cut .truncated)) frames, false⟩
  | .firstKey frames => breakOffKey [] (.broken .nothing) frames
  | .key members frames => breakOffKey members (.broken .nothing) frames
  | .colon members k frames => breakOffBehind members k .nothing frames
  | .after t [] => ⟨t, false⟩
  | .after t frames => breakOffAfter t .truncated frames

/-- Reads a token where a value should start. -/
def readValue (t : Token) (frames : List Frame) : Document ⊕ State :=
  match t with
  | .scalar s => .inr (.after (.scalar s) frames)
  | .openArray => .inr (.firstItem frames)
  | .openObject => .inr (.firstKey frames)
  | .broken b => .inl (breakOff b frames)
  | _ => .inl (breakOff .junk frames)

/-- Reads a token where a key should start. -/
def readKey (t : Token) (members : List (Tree × Tree)) (frames : List Frame) : Document ⊕ State :=
  match t with
  | .scalar s => .inr (.colon members (.scalar s) frames)
  | .openArray => .inl (breakOffKey members (.array [] .closed) frames)
  | .openObject => .inl (breakOffKey members (.object [] .closed) frames)
  | .broken b => .inl (breakOffKey members (.broken b) frames)
  | _ => .inl (breakOffKey members (.broken .junk) frames)

/-- Reads a token behind a complete value. -/
def readAfter (t : Token) (value : Tree) (frames : List Frame) : Document ⊕ State :=
  match frames with
  | [] => .inl (breakOffAfter value .malformed [])
  | .array items :: frames =>
    match t with
    | .comma => .inr (.value (.array (value :: items) :: frames))
    | .closeArray => .inr (.after (.array (value :: items).reverse .closed) frames)
    | _ => .inl (breakOffAfter value .malformed (.array items :: frames))
  | .object members key :: frames =>
    match t with
    | .comma => .inr (.key ((key, value) :: members) frames)
    | .closeObject => .inr (.after (.object ((key, value) :: members).reverse .closed) frames)
    | _ => .inl (breakOffAfter value .malformed (.object members key :: frames))

/-- Reads one token: the document if the text breaks off there, or else the next state. -/
def State.step (s : State) (t : Token) : Document ⊕ State :=
  match s with
  | .value frames => readValue t frames
  | .firstItem frames =>
    match t with
    | .closeArray => .inr (.after (.array [] .closed) frames)
    | t => readValue t (.array [] :: frames)
  | .firstKey frames =>
    match t with
    | .closeObject => .inr (.after (.object [] .closed) frames)
    | t => readKey t [] frames
  | .key members frames => readKey t members frames
  | .colon members k frames =>
    match t with
    | .colon => .inr (.value (.object members k :: frames))
    | _ => .inl (breakOffBehind members k .junk frames)
  | .after v frames => readAfter t v frames

/-- Reads tokens from a state on. -/
def State.run (s : State) : List Token → Document
  | [] => s.finish
  | t :: rest =>
    match s.step t with
    | .inl d => d
    | .inr s => s.run rest

/-- The document of a text. -/
def Document.ofText (text : String) : Document := (State.value []).run (tokens text.toList)

end DialogueBuild.Json

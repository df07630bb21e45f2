import DialogueBuild.Compilation
import DialogueBuild.Palette
import DialogueBuild.Program.Labels
/-!
Listings of programs for people to read: first values, then nodes with their headers, tags, labels
and instructions.

A listing is a list of stretches of text in one shade, so that what it says does not depend on how
it is coloured.
-/
namespace DialogueBuild

open Decimal (digitsOf)

/-! ## Shaded text -/

inductive Shade
  | plain
  | blue
  | green
  | dim
  deriving DecidableEq, Repr

/-- A stretch of text in one shade. -/
structure Stretch where
  shade : Shade
  text : List Char
  deriving DecidableEq, Repr

abbrev Listing := List Stretch

def Stretch.paint (p : Palette) (s : Stretch) : List Char :=
  match s.shade with
  | .plain => s.text
  | .blue => p.blue ++ s.text ++ p.reset
  | .green => p.green ++ s.text ++ p.reset
  | .dim => p.dim ++ s.text ++ p.reset

/-- The listing as text. -/
def Listing.paint (p : Palette) (l : Listing) : List Char := l.flatMap (Stretch.paint p)

namespace Listing

def plain (cs : List Char) : Stretch := ⟨.plain, cs⟩

def blue (cs : List Char) : Stretch := ⟨.blue, cs⟩

def dim (cs : List Char) : Stretch := ⟨.dim, cs⟩

def lineEnd : Stretch := plain ['\n']

/-! ## Instructions -/

/-- An operand behind a space. Strings are green. -/
def ofOperand (o : Operand) : Listing :=
  let shade := match o with
    | .string _ => Shade.green
    | _ => .plain
  [plain [' '], ⟨shade, o.plain.display⟩]

/-- The id of the line that an instruction shows. -/
def lineId? (i : Instruction) : Option String :=
  match i.opcode with
  | .runLine | .addOption => i.operands.head?.bind Operand.text?
  | _ => none

/-- The text of the line that an instruction shows, as a comment. -/
def ofLineText (strings : Table StringEntry) (i : Instruction) : Listing :=
  match (lineId? i).bind strings.get? with
  | some entry => [plain [' ', ' '], dim ([';', ' '] ++ Text.quoted entry.text.toList)]
  | none => []

def ofInstruction (strings : Table StringEntry) (i : Instruction) : Listing :=
  plain i.opcode.name.toList :: i.operands.flatMap ofOperand ++ ofLineText strings i

/-- The decimal logarithm of a positive number, rounded down. -/
def logDown (n : Nat) : Nat := if 10 ≤ n then logDown (n / 10) + 1 else 0

/-- The digits that the last of so many indices needs. -/
def indexWidth (count : Nat) : Nat := if count ≤ 1 then 1 else logDown (count - 1) + 1

/-- An index with zeros in front. -/
def indexText (width index : Nat) : List Char :=
  let digits := digitsOf index
  List.replicate (width - digits.length) '0' ++ digits

/-- The line of an instruction: its index, then what it is. -/
def ofNumbered (strings : Table StringEntry) (width index : Nat) (i : Instruction) : Listing :=
  [plain (List.replicate 4 ' '), dim (indexText width index), plain [' ']]
    ++ ofInstruction strings i ++ [lineEnd]

/-! ## Labels -/

/-- The index that a label stands before; a negative one counts as the first. -/
def target (index : Int32) : Nat := index.toInt.toNat

/-- The labels of a node with their targets, in order of declaration. -/
def targets (n : Node) : List (String × Nat) :=
  n.labels.entries.map fun (label, index) => (label, target index)

def ofLabel (label : String) : Listing :=
  [plain [' ', ' '], dim label.toList, plain [':', '\n']]

def ofLabels (labels : List String) : Listing := labels.flatMap ofLabel

/-- The instructions from an index on, each behind the labels that stand before it; and the labels
that are left. -/
def ofInstructions (strings : Table StringEntry) (width : Nat) :
    (index : Nat) → Labels → List Instruction → Listing × Labels
  | _, labels, [] => ([], labels)
  | index, labels, i :: rest =>
    let (later, left) := ofInstructions strings width (index + 1) (labels.without index) rest
    (ofLabels (labels.before index) ++ ofNumbered strings width index i ++ later, left)

/-! ## Nodes -/

def ofHeader (h : Header) : Listing :=
  [plain [' ', ' '], dim ([';', ' '] ++ h.key.toList ++ [':', ' '] ++ h.value.toList), lineEnd]

/-- All tags on one line. -/
def ofTags : List String → Listing
  | [] => []
  | tag :: rest =>
    [plain [' ', ' '],
     dim ([';', ' ', '#'] ++ tag.toList ++ rest.flatMap fun t => [' ', '#'] ++ t.toList),
     lineEnd]

/-- What stands below the name of a node. -/
def ofNode (strings : Table StringEntry) (n : Node) : Listing :=
  let width := indexWidth n.instructions.length
  let (body, left) := ofInstructions strings width 0 (.ofList (targets n)) n.instructions
  n.headers.flatMap ofHeader ++ ofTags n.tags ++ body ++ ofLabels left.inOrder

def ofNamedNode (strings : Table StringEntry) (name : String) (n : Node) : Listing :=
  [blue name.toList, plain [':', '\n']] ++ ofNode strings n

/-- The nodes with an empty line between each two. -/
def ofNodes (strings : Table StringEntry) : List (String × Node) → Listing
  | [] => []
  | [(name, n)] => ofNamedNode strings name n
  | (name, n) :: rest => ofNamedNode strings name n ++ lineEnd :: ofNodes strings rest

/-! ## Programs -/

def ofInitialValue (name : String) (value : Operand) : Listing :=
  [plain name.toList, plain [' ', '=']] ++ ofOperand value ++ [lineEnd]

/-- The first values under their heading, and an empty line; nothing if there are none. -/
def ofInitialValues : List (String × Operand) → Listing
  | [] => []
  | values =>
    [blue "[initial_values]".toList, lineEnd]
      ++ values.flatMap (fun (name, value) => ofInitialValue name value) ++ [lineEnd]

end Listing

/-- The listing of a program; line ids are looked up among the strings. -/
def Program.listing (p : Program) (strings : Table StringEntry) : Listing :=
  Listing.ofInitialValues p.initialValues.entries
    ++ [Listing.blue "[nodes]".toList, Listing.lineEnd]
    ++ Listing.ofNodes strings p.nodes.entries

end DialogueBuild

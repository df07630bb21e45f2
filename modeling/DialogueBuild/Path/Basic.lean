import DialogueBuild.Text.Split
/-!
Path names: components separated by slashes.

Empty components and `.` components count for nothing, except a `.` at the start of a relative
path. Names are compared and shown as written.
-/
namespace DialogueBuild

/-- A path name as written. -/
structure Path where
  text : String
  deriving DecidableEq, Repr

namespace Path

/-- A part of a path that counts. -/
inductive Component
  | root
  /-- A `.` at the start of a relative path. -/
  | here
  | up
  | name (n : List Char)
  deriving DecidableEq, Repr

/-- The parts of a text between slashes. -/
def splitSlashes (cs : List Char) : List (List Char) := Text.split '/' cs

/-- The component that a part between slashes stands for. -/
def componentOfPart : List Char → Option Component
  | [] => none
  | ['.'] => none
  | ['.', '.'] => some .up
  | part => some (.name part)

def isAbsoluteText (cs : List Char) : Bool := cs.head? = some '/'

/-- Whether a text starts with a `.` component that counts. -/
def startsHere : List Char → Bool
  | ['.'] => true
  | '.' :: '/' :: _ => true
  | _ => false

def componentsOfText (cs : List Char) : List Component :=
  let front := if isAbsoluteText cs then [.root] else if startsHere cs then [.here] else []
  front ++ (splitSlashes cs).filterMap componentOfPart

def components (p : Path) : List Component := componentsOfText p.text.toList

def isAbsolute (p : Path) : Bool := isAbsoluteText p.text.toList

def isEmpty (p : Path) : Bool := p.text.isEmpty

/-- Appends a path; an absolute one replaces the path it is appended to. -/
def join (p q : Path) : Path :=
  if q.isAbsolute then q
  else if p.isEmpty || p.text.toList.getLast? = some '/' then ⟨p.text ++ q.text⟩
  else ⟨p.text ++ "/" ++ q.text⟩

/-- The last component if it is a name; a path that ends in `..` has none. -/
def fileName? (p : Path) : Option (List Char) :=
  match p.components.getLast? with
  | some (.name n) => some n
  | _ => none

/-- Splits a file name at its last dot: what stands before it, and what follows if there is such
a dot. A dot at the start does not split a name. -/
def splitName (n : List Char) : List Char × Option (List Char) :=
  let after := (n.reverse.takeWhile (· ≠ '.')).reverse
  let before := n.take (n.length - after.length - 1)
  if after.length = n.length || before.isEmpty then (n, none) else (before, some after)

def stem? (p : Path) : Option (List Char) := p.fileName?.map fun n => (splitName n).1

def extension? (p : Path) : Option (List Char) := p.fileName?.bind fun n => (splitName n).2

/-- Drops slashes and `.` components at the end, but not the start of the path. -/
def trimEnd (cs : List Char) : List Char :=
  let kept := if isAbsoluteText cs || startsHere cs then 1 else 0
  go cs.reverse (cs.length - kept) |>.reverse
where
  /-- Works on the reversed text, of which `free` characters may go. -/
  go : List Char → (free : Nat) → List Char
    | '/' :: rest, free + 1 => go rest free
    | '.' :: '/' :: rest, free + 2 => go ('/' :: rest) (free + 1)
    | cs, _ => cs

/-- The text in front of the last component. -/
def parentText (cs : List Char) : List Char :=
  let cs := trimEnd cs
  trimEnd (cs.reverse.dropWhile (· ≠ '/')).reverse

/-- The path without its last component; none for the root and for the empty path. -/
def parent? (p : Path) : Option Path :=
  match p.components.getLast? with
  | none => none
  | some .root => none
  | some _ => some ⟨String.ofList (parentText p.text.toList)⟩

/-! ## Below another path -/

/-- Takes components away from the front of the parts of a path, and what counts for nothing
before and behind them. -/
def dropComponents : List Component → List (List Char) → Option (List (List Char))
  | [], parts => some (parts.dropWhile fun part => (componentOfPart part).isNone)
  | c :: rest, parts =>
    match parts.dropWhile fun part => (componentOfPart part).isNone with
    | part :: parts => if componentOfPart part = some c then dropComponents rest parts else none
    | [] => none

/-- What is left of a path below another one; a path that is not below it is left whole. -/
def relativeTo (p base : Path) : Path :=
  match base.components with
  | [] => p
  | _ =>
    if p.isAbsolute = base.isAbsolute ∧ startsHere p.text.toList = startsHere base.text.toList then
      let parts := splitSlashes p.text.toList
      match dropComponents ((splitSlashes base.text.toList).filterMap componentOfPart) parts with
      | some parts => ⟨String.ofList (['/'].intercalate parts)⟩
      | none => p
    else p

/-! ## Order -/

/-- The code points of a name, by which names are compared. Their order is that of the bytes. -/
def codes (n : List Char) : List Nat := n.map Char.toNat

/-- The place of a component's kind in the order. -/
def Component.rank : Component → Nat
  | .root => 0
  | .here => 1
  | .up => 2
  | .name _ => 3

/-- A component as a list of numbers that is compared in its place. -/
def Component.key : Component → List Nat
  | .name n => 3 :: codes n
  | c => [c.rank]

/-- Paths are ordered component by component. -/
def key (p : Path) : List (List Nat) := p.components.map Component.key

/-- Whether a path comes before another one or has the same components. -/
def le (p q : Path) : Bool := !decide (q.key < p.key)

/-- Whether two paths have the same components. -/
def same (p q : Path) : Bool := p.components = q.components

end Path

end DialogueBuild

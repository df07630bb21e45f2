import DialogueBuild.Decimal.Shortest
/-!
Patterns of file names: `?` stands for one character, `*` for any run of them, `[abc]` and `[a-z]`
for one of a set, `[!abc]` for one outside it, and `**` for any number of directories.
-/
namespace DialogueBuild.Glob

/-! ## Patterns -/

/-- A part of a set of characters. -/
inductive Range
  | one (c : Char)
  | span (first last : Char)
  deriving DecidableEq, Repr

inductive Token
  | char (c : Char)
  | anyChar
  /-- Any run of characters. -/
  | anyRun
  /-- Any number of directories with the slash behind each; at the end, anything. -/
  | anyDirectories
  | oneOf (set : List Range)
  | noneOf (set : List Range)
  deriving DecidableEq, Repr

abbrev Pattern := List Token

/-- What is wrong with the text of a pattern. -/
inductive Defect
  /-- More than two stars in a row. -/
  | stars
  /-- Two stars next to something other than a slash. -/
  | directories
  /-- A set that is empty or not closed. -/
  | set
  deriving DecidableEq, Repr

/-- A defect and the number of the character near which it is. -/
structure Fault where
  position : Nat
  defect : Defect
  deriving DecidableEq, Repr

def Defect.message : Defect → String
  | .stars => "wildcards are either regular `*` or recursive `**`"
  | .directories => "recursive wildcards must form a single path component"
  | .set => "invalid range pattern"

def Fault.message (f : Fault) : String :=
  "Pattern syntax error near position " ++ String.ofList (Decimal.digitsOf f.position) ++ ": "
    ++ f.defect.message

/-! ## Reading -/

/-- The set that stands between brackets. A `-` at either end stands for itself. -/
def readSet : List Char → List Range
  | a :: '-' :: b :: rest => .span a b :: readSet rest
  | c :: rest => .one c :: readSet rest
  | [] => []

/-- Where the reader of a pattern stands. -/
inductive State
  /-- Between tokens; at the start or behind a slash, or not. -/
  | between (atStart : Bool)
  /-- Behind some stars, the first of them at `first`. -/
  | stars (first count : Nat) (atStart : Bool)
  /-- Behind the bracket at `first`. -/
  | opened (first : Nat)
  /-- In the set that was opened at `first`, behind the characters that are listed. -/
  | set (first : Nat) (negated : Bool) (content : List Char)

/-- Reads a character between tokens; `index` is its number. -/
def readBetween (index : Nat) (atStart : Bool) : Char → List Token × State
  | '?' => ([.anyChar], .between false)
  | '*' => ([], .stars index 1 atStart)
  | '[' => ([], .opened index)
  | c => ([.char c], .between (c = '/'))

/-- Reads the character behind some stars; none at the end of the pattern. -/
def readAfterStars (index first count : Nat) (atStart : Bool) (next : Option Char) :
    Except Fault (List Token × State) :=
  if count = 1 then
    match next with
    | some c =>
      let (tokens, state) := readBetween index false c
      .ok (.anyRun :: tokens, state)
    | none => .ok ([.anyRun], .between false)
  else if count = 2 then
    if !atStart then .error ⟨first - 1, .directories⟩
    else
      match next with
      | some '/' | none => .ok ([.anyDirectories], .between true)
      | some _ => .error ⟨index, .directories⟩
  else .error ⟨first + 2, .stars⟩

/-- Reads one character. -/
def readChar (index : Nat) (c : Char) : State → Except Fault (List Token × State)
  | .between atStart => .ok (readBetween index atStart c)
  | .stars first count atStart =>
    if c = '*' then .ok ([], .stars first (count + 1) atStart)
    else readAfterStars index first count atStart (some c)
  | .opened first => .ok ([], if c = '!' then .set first true [] else .set first false [c])
  | .set first negated content =>
    if c = ']' ∧ content ≠ [] then
      let set := readSet content
      .ok ([if negated then .noneOf set else .oneOf set], .between false)
    else .ok ([], .set first negated (content ++ [c]))

/-- Reads what the end of the pattern completes. -/
def readEnd (index : Nat) : State → Except Fault (List Token)
  | .between _ => .ok []
  | .stars first count atStart => Prod.fst <$> readAfterStars index first count atStart none
  | .opened first | .set first _ _ => .error ⟨first, .set⟩

/-- Reads characters, of which the first has the number `index`. -/
def readFrom (index : Nat) (state : State) : List Char → Except Fault Pattern
  | [] => readEnd index state
  | c :: rest => do
    let (tokens, state) ← readChar index c state
    return tokens ++ (← readFrom (index + 1) state rest)

/-- The pattern that a text stands for. -/
def Pattern.ofText (cs : List Char) : Except Fault Pattern := readFrom 0 (.between true) cs

/-- The text of a pattern that stands for exactly one text. -/
def escape (cs : List Char) : List Char :=
  cs.flatMap fun c => if c ∈ ['?', '*', '[', ']'] then ['[', c, ']'] else [c]

/-! ## Kinds of patterns -/

/-- The only text that a pattern stands for, if it has no wildcards. -/
def Pattern.literal? : Pattern → Option (List Char)
  | [] => some []
  | .char c :: ts => (Pattern.literal? ts).map (c :: ·)
  | _ :: _ => none

/-- Whether a pattern stands for any number of directories. -/
def Pattern.isAnyDirectories (p : Pattern) : Bool := p.contains .anyDirectories

end DialogueBuild.Glob

/-!
A reader of Lua literals and of chunks that assign them.

The reader knows nothing of how this library writes Lua. It covers the part of the language that
modules are written in: literals, variables with fields, `or`, and assignments. Every other text
is refused, so also comments, long brackets, operators and hexadecimal numerals.

1. Texts are split into tokens, each as long as it can be.
2. Literals are read from tokens one after the other, with a stack of open tables.
3. Chunks are read in the same way, with the statements that are complete.
-/
namespace DialogueBuild.Lua.Reader

/-! ## Characters and words -/

def isLetter (c : Char) : Bool := c.isAlpha || c = '_'

/-- A word goes on with this character. -/
def isWordPart (c : Char) : Bool := isLetter c || c.isDigit

def isBlank (c : Char) : Bool := c = ' ' || c = '\n' || c = '\r' || c = '\t'

/-- Words that are values. -/
def constants : List String := ["nil", "true", "false"]

/-- Words that are operators. -/
def operators : List String := ["and", "or", "not"]

/-- Words that statements are made with. -/
def statementWords : List String :=
  ["if", "then", "elseif", "else", "for", "in", "while", "do", "repeat", "until", "function",
   "local", "return", "break", "goto", "end"]

/-- Whether a word can name a variable or a field. -/
def isFree (w : String) : Bool := !(constants ++ operators ++ statementWords).contains w

/-! ## Tokens -/

inductive Token
  | word (w : String)
  | numeral (cs : List Char)
  | string (s : String)
  | symbol (c : Char)
  deriving DecidableEq, Repr

/-- Takes all characters that can belong to a numeral; `marked` behind the mark of a power of
ten, where a sign can stand. -/
def spanNumeral (marked : Bool) : List Char → List Char × List Char
  | [] => ([], [])
  | c :: rest =>
    if isWordPart c || c = '.' || marked && (c = '+' || c = '-') then
      let (taken, after) := spanNumeral (c = 'e' || c = 'E') rest
      (c :: taken, after)
    else ([], c :: rest)

/-- Digits behind at most one sign. -/
def isPower : List Char → Bool
  | [] => false
  | c :: rest =>
    if c = '+' || c = '-' then !rest.isEmpty && rest.all Char.isDigit
    else (c :: rest).all Char.isDigit

/-- The part of a numeral behind its fraction. -/
def isNumeralEnd : List Char → Bool
  | [] => true
  | c :: rest => (c = 'e' || c = 'E') && isPower rest

/-- Digits, a fraction, and a power of ten. -/
def isNumeral (cs : List Char) : Bool :=
  cs.any Char.isDigit &&
    match cs.dropWhile Char.isDigit with
    | '.' :: rest => isNumeralEnd (rest.dropWhile Char.isDigit)
    | rest => isNumeralEnd rest

/-- Escapes of one letter. -/
def letterEscapes : List (Char × Char) :=
  [('"', '"'), ('\\', '\\'), ('n', '\n'), ('r', '\r'), ('t', '\t')]

/-- The character with this number in three decimal digits. -/
def decimalEscape? (a b c : Char) : Option Char :=
  let n := 100 * (a.toNat - 48) + 10 * (b.toNat - 48) + (c.toNat - 48)
  if a.isDigit && b.isDigit && c.isDigit && n < 128 then some (Char.ofNat n) else none

/-- Reads an escape behind its backslash. -/
def readEscape? : List Char → Option (Char × List Char)
  | [] => none
  | a :: rest =>
    match letterEscapes.lookup a, rest with
    | some d, rest => some (d, rest)
    | none, b :: c :: rest => (decimalEscape? a b c).map (·, rest)
    | none, _ => none

/-- Reads a character of a string. -/
def readChar? : List Char → Option (Char × List Char)
  | [] => none
  | c :: rest =>
    if c = '\\' then readEscape? rest
    else if c = '"' || c = '\n' || c = '\r' then none
    else some (c, rest)

theorem length_readEscape? {cs rest : List Char} {c : Char} (h : readEscape? cs = some (c, rest)) :
    rest.length < cs.length := by
  unfold readEscape? at h
  split at h
  · cases h
  · split at h
    · cases h
      exact Nat.lt_succ_self _
    · obtain ⟨d, -, heq⟩ := Option.map_eq_some_iff.mp h
      cases heq
      simp only [List.length_cons]
      omega
    · cases h

theorem length_readChar? {cs rest : List Char} {c : Char} (h : readChar? cs = some (c, rest)) :
    rest.length < cs.length := by
  unfold readChar? at h
  split at h
  · cases h
  · split at h
    · exact Nat.lt_succ_of_lt (length_readEscape? h)
    · split at h
      · cases h
      · simp only [Option.some.injEq, Prod.mk.injEq] at h
        rw [h.2]
        exact Nat.lt_succ_self _

/-- Reads a string behind its opening quote. -/
def readString? (cs : List Char) : Option (List Char × List Char) :=
  if cs.head? = some '"' then some ([], cs.drop 1)
  else
    match h : readChar? cs with
    | none => none
    | some (c, rest) =>
      have := length_readChar? h
      (readString? rest).map fun (s, after) => (c :: s, after)
termination_by cs.length

/-- Characters that are tokens on their own. -/
def symbols : List Char := ['{', '}', '[', ']', '=', ',', '.', '-']

/-- Characters that make another token together. -/
def pairs : List (Char × Char) :=
  [('-', '-'), ('[', '['), ('[', '='), ('=', '='), ('.', '.')]

/-- Whether a symbol is a token on its own in front of this text. -/
def standsAlone (c : Char) : List Char → Bool
  | [] => true
  | d :: _ => !pairs.contains (c, d) && !(c = '.' && d.isDigit)

/-- Reads the token that starts with a character. -/
def next? (c : Char) (rest : List Char) : Option (Token × List Char) :=
  if isLetter c then
    some (.word (String.ofList (c :: rest.takeWhile isWordPart)), rest.dropWhile isWordPart)
  else if c.isDigit then
    let (taken, after) := spanNumeral false rest
    if isNumeral (c :: taken) then some (.numeral (c :: taken), after) else none
  else if c = '"' then
    (readString? rest).map fun (s, after) => (.string (String.ofList s), after)
  else if symbols.contains c && standsAlone c rest then some (.symbol c, rest)
  else none

theorem length_spanNumeral (marked : Bool) (cs : List Char) :
    (spanNumeral marked cs).2.length ≤ cs.length := by
  induction cs generalizing marked with
  | nil => exact Nat.le_refl _
  | cons c cs ih =>
    unfold spanNumeral
    split
    · exact Nat.le_succ_of_le (ih _)
    · exact Nat.le_refl _

theorem length_readString? {cs s after : List Char} (h : readString? cs = some (s, after)) :
    after.length ≤ cs.length := by
  fun_induction readString? cs generalizing s with
  | case1 cs hquote =>
    cases h
    simp
  | case2 cs hquote hread => cases h
  | case3 cs hquote c rest hread hlt ih =>
    obtain ⟨⟨t, more⟩, hrest, heq⟩ := Option.map_eq_some_iff.mp h
    cases heq
    have := ih hrest
    omega

theorem length_next? {c : Char} {rest after : List Char} {t : Token}
    (h : next? c rest = some (t, after)) : after.length ≤ rest.length := by
  unfold next? at h
  split at h
  · cases h
    exact (List.dropWhile_sublist _).length_le
  · split at h
    · dsimp only at h
      split at h
      · cases h
        exact length_spanNumeral _ _
      · cases h
    · split at h
      · obtain ⟨⟨s, more⟩, hs, heq⟩ := Option.map_eq_some_iff.mp h
        cases heq
        exact length_readString? hs
      · split at h
        · cases h
          exact Nat.le_refl _
        · cases h

/-- The tokens of a text. -/
def tokens? : List Char → Option (List Token)
  | [] => some []
  | c :: rest =>
    if isBlank c then tokens? rest
    else
      match h : next? c rest with
      | none => none
      | some (t, after) =>
        have := length_next? h
        (tokens? after).map (t :: ·)
termination_by cs => cs.length

/-! ## Literals -/

/-- Values that are written out. The fields of a table stand in the order of the text; those
without a key are numbered by their place. -/
inductive Literal
  | nil
  | bool (b : Bool)
  | numeral (cs : List Char)
  | string (s : String)
  | table (fields : List (Option String × Literal))

/-- A table that is not closed yet: the fields before the current one, and its key. -/
structure OpenTable where
  fields : List (Option String × Literal)
  key : Option String

/-- The table with the current field added. -/
def OpenTable.close (t : OpenTable) (l : Literal) : List (Option String × Literal) :=
  t.fields ++ [(t.key, l)]

/-- How far a literal has been read; the innermost open table comes first. -/
inductive Stage
  /-- A value must come. -/
  | value (tables : List OpenTable)
  /-- A numeral must come, behind a minus sign. -/
  | minus (tables : List OpenTable)
  /-- A field or the end of the table must come. -/
  | field (fields : List (Option String × Literal)) (tables : List OpenTable)
  /-- A string must come, behind a bracket. -/
  | bracket (fields : List (Option String × Literal)) (tables : List OpenTable)
  /-- A closing bracket must come. -/
  | bracketed (key : String) (fields : List (Option String × Literal)) (tables : List OpenTable)
  /-- An equals sign must come, behind a key. -/
  | key (key : String) (fields : List (Option String × Literal)) (tables : List OpenTable)
  /-- A value is complete. -/
  | after (l : Literal) (tables : List OpenTable)

/-- The value of a word. -/
def constant? (w : String) : Option Literal :=
  if w = "nil" then some .nil
  else if w = "true" then some (.bool true)
  else if w = "false" then some (.bool false)
  else none

/-- Reads the first token of a value. -/
def beginValue (tables : List OpenTable) : Token → Option Stage
  | .word w => (constant? w).map (.after · tables)
  | .numeral cs => some (.after (.numeral cs) tables)
  | .string s => some (.after (.string s) tables)
  | .symbol c =>
    if c = '-' then some (.minus tables)
    else if c = '{' then some (.field [] tables)
    else none

/-- Reads the first token of a field, or the end of the table. -/
def beginField (fields : List (Option String × Literal)) (tables : List OpenTable)
    (t : Token) : Option Stage :=
  match t with
  | .word w =>
    if isFree w then some (.key w fields tables) else beginValue (⟨fields, none⟩ :: tables) t
  | .symbol c =>
    if c = '}' then some (.after (.table fields) tables)
    else if c = '[' then some (.bracket fields tables)
    else beginValue (⟨fields, none⟩ :: tables) t
  | _ => beginValue (⟨fields, none⟩ :: tables) t

def Stage.step : Stage → Token → Option Stage
  | .value tables, t => beginValue tables t
  | .minus tables, .numeral cs => some (.after (.numeral ('-' :: cs)) tables)
  | .field fields tables, t => beginField fields tables t
  | .bracket fields tables, .string s => some (.bracketed s fields tables)
  | .bracketed k fields tables, .symbol c =>
    if c = ']' then some (.key k fields tables) else none
  | .key k fields tables, .symbol c =>
    if c = '=' then some (.value (⟨fields, some k⟩ :: tables)) else none
  | .after l (table :: tables), .symbol c =>
    if c = ',' then some (.field (table.close l) tables)
    else if c = '}' then some (.after (.table (table.close l)) tables)
    else none
  | _, _ => none

/-- The literal at the end of a text. -/
def Stage.end? : Stage → Option Literal
  | .after l [] => some l
  | _ => none

/-- Reads a text that is one literal. -/
def readLiteral? (cs : List Char) : Option Literal := do
  let ts ← tokens? cs
  let stage ← ts.foldlM Stage.step (.value [])
  stage.end?

/-! ## Chunks -/

/-- What can be assigned. A variable is a global with its fields. -/
inductive Expression
  | variable (path : List String)
  | literal (l : Literal)

/-- How far a variable has been read. -/
inductive VariableStage
  | complete (path : List String)
  /-- A word must come, behind a point. -/
  | point (path : List String)
  /-- A string must come, behind a bracket. -/
  | bracket (path : List String)
  /-- A closing bracket must come. -/
  | bracketed (path : List String) (key : String)

def VariableStage.step : VariableStage → Token → Option VariableStage
  | .complete path, .symbol c =>
    if c = '.' then some (.point path) else if c = '[' then some (.bracket path) else none
  | .point path, .word w => if isFree w then some (.complete (path ++ [w])) else none
  | .bracket path, .string s => some (.bracketed path s)
  | .bracketed path k, .symbol c => if c = ']' then some (.complete (path ++ [k])) else none
  | _, _ => none

/-- How far a chunk has been read behind the statements that are complete. -/
inductive ChunkStage
  /-- A statement must come, or the end of the chunk. -/
  | statement
  | target (v : VariableStage)
  /-- An expression must come. -/
  | expression (place : List String) (before : List Expression)
  | variable (place : List String) (before : List Expression) (v : VariableStage)
  | literal (place : List String) (before : List Expression) (s : Stage)

/-- Reads a token inside a statement. -/
def ChunkStage.step : ChunkStage → Token → Option ChunkStage
  | .statement, .word w => if isFree w then some (.target (.complete [w])) else none
  | .target (.complete path), .symbol c =>
    if c = '=' then some (.expression path [])
    else ((VariableStage.complete path).step (.symbol c)).map .target
  | .target v, t => (v.step t).map .target
  | .expression place before, t =>
    match t with
    | .word w =>
      if isFree w then some (.variable place before (.complete [w]))
      else ((Stage.value []).step t).map (.literal place before)
    | _ => ((Stage.value []).step t).map (.literal place before)
  | .variable place before v, t => (v.step t).map (.variable place before)
  | .literal place before s, t => (s.step t).map (.literal place before)
  | _, _ => none

end DialogueBuild.Lua.Reader

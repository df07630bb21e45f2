import DialogueBuild.Json.Tree
import DialogueBuild.Proofs.Json.Numeral
/-!
The grammar of JSON texts.

A text spells a tree if it can be derived with the rules below, which say nothing of how a text is
read. Only complete trees have spellings. Strings may be written with every escape; a string that
holds half a surrogate pair stands for no text.

1. `SpellsText`, `SpellsScalar`                 strings and other values without parts;
2. `Spells`, `SpellsItems`, `SpellsMembers`     values, the items of arrays, members of objects.
-/
namespace DialogueBuild.Json

/-- Spaces, tabs and line ends. -/
def IsBlank (cs : List Char) : Prop := ∀ c ∈ cs, c = ' ' ∨ c = '\n' ∨ c = '\t' ∨ c = '\r'

/-! ## Strings -/

/-- Letters that stand for a character behind a backslash. -/
def letterEscapes : List (Char × Char) :=
  [('"', '"'), ('\\', '\\'), ('/', '/'), ('b', '\x08'), ('f', '\x0c'), ('n', '\n'), ('r', '\r'),
   ('t', '\t')]

inductive SpellsHexDigit : Nat → Char → Prop
  | decimal {n : Nat} (h : n < 10) : SpellsHexDigit n (Char.ofNat (48 + n))
  | small {n : Nat} (h : n < 6) : SpellsHexDigit (10 + n) (Char.ofNat (97 + n))
  | capital {n : Nat} (h : n < 6) : SpellsHexDigit (10 + n) (Char.ofNat (65 + n))

/-- A code unit in four hexadecimal digits. -/
inductive SpellsUnit : Nat → List Char → Prop
  | digits {i j k l : Nat} {a b c d : Char} (ha : SpellsHexDigit i a) (hb : SpellsHexDigit j b)
    (hc : SpellsHexDigit k c) (hd : SpellsHexDigit l d) :
    SpellsUnit (4096 * i + 256 * j + 16 * k + l) [a, b, c, d]

/-- A character as itself or behind a backslash, or a code unit. -/
inductive SpellsPiece : Piece → List Char → Prop
  | plain {c : Char} (hquote : c ≠ '"') (hslash : c ≠ '\\') (hcontrol : 0x20 ≤ c.toNat) :
    SpellsPiece (.char c) [c]
  | letter {letter c : Char} (h : (letter, c) ∈ letterEscapes) :
    SpellsPiece (.char c) ['\\', letter]
  | unit {n : Nat} {cs : List Char} (h : SpellsUnit n cs) :
    SpellsPiece (.unit n) ('\\' :: 'u' :: cs)

inductive SpellsPieces : List Piece → List Char → Prop
  | nil : SpellsPieces [] []
  | cons {p : Piece} {ps : List Piece} {cs ds : List Char} (h : SpellsPiece p cs)
    (hrest : SpellsPieces ps ds) : SpellsPieces (p :: ps) (cs ++ ds)

/-- The code units of a character; two for those beyond 16 bits. -/
def codeUnits (c : Char) : List Nat :=
  if c.toNat < 0x10000 then [c.toNat]
  else [0xD800 + (c.toNat - 0x10000) / 0x400, 0xDC00 + (c.toNat - 0x10000) % 0x400]

/-- The ways to write characters in pieces. -/
inductive PiecesOf : List Char → List Piece → Prop
  | nil : PiecesOf [] []
  | char {c : Char} {cs : List Char} {ps : List Piece} (h : PiecesOf cs ps) :
    PiecesOf (c :: cs) (.char c :: ps)
  | units {c : Char} {cs : List Char} {ps : List Piece} (h : PiecesOf cs ps) :
    PiecesOf (c :: cs) ((codeUnits c).map Piece.unit ++ ps)

/-- What stands between the quotes of a string. -/
def SpellsText (s : String) (cs : List Char) : Prop :=
  ∃ pieces, PiecesOf s.toList pieces ∧ SpellsPieces pieces cs

/-! ## Values without parts -/

inductive SpellsScalar : Scalar → List Char → Prop
  | null : SpellsScalar .null ['n', 'u', 'l', 'l']
  | true : SpellsScalar (.bool true) ['t', 'r', 'u', 'e']
  | false : SpellsScalar (.bool false) ['f', 'a', 'l', 's', 'e']
  | number {t : Numeral} {cs : List Char} (h : t.Spells cs) : SpellsScalar (.number t) cs
  | string {s : String} {cs : List Char} (h : SpellsText s cs) :
    SpellsScalar (.string (some s)) ('"' :: cs ++ ['"'])
  /-- Such a string can only be passed over. -/
  | halfPair {pieces : List Piece} {cs : List Char} (h : SpellsPieces pieces cs)
    (hnone : textOfPieces pieces = none) : SpellsScalar (.string none) ('"' :: cs ++ ['"'])

/-- The key of a member, with blanks around it. -/
inductive SpellsKey : Tree → List Char → Prop
  | key {s : Option String} {before cs after : List Char} (hb : IsBlank before)
    (h : SpellsScalar (.string s) cs) (ha : IsBlank after) :
    SpellsKey (.scalar (.string s)) (before ++ cs ++ after)

/-! ## Values -/

mutual

/-- A text is a value. -/
inductive Spells : Tree → List Char → Prop
  | scalar {s : Scalar} {cs : List Char} (h : SpellsScalar s cs) : Spells (.scalar s) cs
  | noItems {blank : List Char} (h : IsBlank blank) :
    Spells (.array [] .closed) ('[' :: blank ++ [']'])
  | array {items : List Tree} {cs : List Char} (h : SpellsItems items cs) :
    Spells (.array items .closed) ('[' :: cs ++ [']'])
  | noMembers {blank : List Char} (h : IsBlank blank) :
    Spells (.object [] .closed) ('{' :: blank ++ ['}'])
  | object {members : List (Tree × Tree)} {cs : List Char} (h : SpellsMembers members cs) :
    Spells (.object members .closed) ('{' :: cs ++ ['}'])

/-- A text is a value with blanks around it. -/
inductive SpellsPadded : Tree → List Char → Prop
  | value {t : Tree} {before cs after : List Char} (hb : IsBlank before) (h : Spells t cs)
    (ha : IsBlank after) : SpellsPadded t (before ++ cs ++ after)

/-- A text is one item or more. -/
inductive SpellsItems : List Tree → List Char → Prop
  | one {t : Tree} {cs : List Char} (h : SpellsPadded t cs) : SpellsItems [t] cs
  | more {t : Tree} {ts : List Tree} {cs ds : List Char} (h : SpellsPadded t cs)
    (hrest : SpellsItems ts ds) : SpellsItems (t :: ts) (cs ++ ',' :: ds)

/-- A text is one member or more. -/
inductive SpellsMembers : List (Tree × Tree) → List Char → Prop
  | one {key t : Tree} {ks cs : List Char} (hk : SpellsKey key ks) (h : SpellsPadded t cs) :
    SpellsMembers [(key, t)] (ks ++ ':' :: cs)
  | more {key t : Tree} {ms : List (Tree × Tree)} {ks cs ds : List Char} (hk : SpellsKey key ks)
    (h : SpellsPadded t cs) (hrest : SpellsMembers ms ds) :
    SpellsMembers ((key, t) :: ms) (ks ++ ':' :: cs ++ ',' :: ds)

end

/-! ## Plain spellings -/

theorem spellsPieces_plain {cs : List Char}
    (h : cs.all fun c => c ≠ '"' && c ≠ '\\' && 0x20 ≤ c.toNat) :
    SpellsPieces (cs.map Piece.char) cs := by
  induction cs with
  | nil => exact .nil
  | cons c cs ih =>
    simp only [List.all_cons, Bool.and_eq_true, decide_eq_true_eq] at h
    obtain ⟨⟨⟨hquote, hslash⟩, hcontrol⟩, hrest⟩ := h
    exact .cons (.plain hquote hslash hcontrol) (ih hrest)

theorem piecesOf_char (cs : List Char) : PiecesOf cs (cs.map Piece.char) := by
  induction cs with
  | nil => exact .nil
  | cons c cs ih => exact .char ih

/-- A text without quotes, backslashes and control characters spells itself. -/
theorem spellsText_plain {s : String}
    (h : s.toList.all fun c => c ≠ '"' && c ≠ '\\' && 0x20 ≤ c.toNat) :
    SpellsText s s.toList :=
  ⟨_, piecesOf_char s.toList, spellsPieces_plain h⟩

theorem isBlank_nil : IsBlank [] := by
  intro c hc
  cases hc

/-- A string without blanks around it is a key. -/
theorem SpellsScalar.key {s : Option String} {cs : List Char} (h : SpellsScalar (.string s) cs) :
    SpellsKey (.scalar (.string s)) cs := by
  have hkey := SpellsKey.key isBlank_nil h isBlank_nil
  rwa [List.nil_append, List.append_nil] at hkey

theorem Spells.padded {t : Tree} {cs : List Char} (h : Spells t cs) : SpellsPadded t cs := by
  have hpadded := SpellsPadded.value isBlank_nil h isBlank_nil
  rwa [List.nil_append, List.append_nil] at hpadded

end DialogueBuild.Json

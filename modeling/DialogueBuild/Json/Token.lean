import DialogueBuild.Json.Numeral
/-!
JSON text as a list of tokens. The first place where no token can be read ends the list with a
token that records the break: the text after it is of no interest, since the break is a fault
for every reader that gets there.

How a break is to be reported can depend on the reader. A value under a known name is read, a
value under an unknown name is only skipped, and the two meet different faults in strings with
half surrogate pairs and in numbers that the end of the text cuts off.
-/
namespace DialogueBuild.Json

/-- How a text fails to be JSON. -/
inductive Fault
  /-- The text ends too early. -/
  | truncated
  /-- The text goes on in a way that no JSON text does. -/
  | malformed
  deriving DecidableEq, Repr

/-- A place at which no token can be read. -/
inductive Break
  /-- The text ends where a value should start. -/
  | nothing
  /-- No value goes on this way. -/
  | junk
  /-- A string that breaks off, and the faults of reading and of skipping it. -/
  | string (whenRead whenSkipped : Fault)
  /-- The text ends inside `null`, `true` or `false`. -/
  | literal
  /-- The text ends inside a number. -/
  | number
  deriving DecidableEq, Repr

/-- The fault for a reader that wants the value. -/
def Break.whenRead : Break → Fault
  | .nothing => .truncated
  | .junk => .malformed
  | .string whenRead _ => whenRead
  | .literal => .truncated
  | .number => .truncated

/-- The fault for a reader that passes over the value. -/
def Break.whenSkipped : Break → Fault
  | .nothing => .truncated
  | .junk => .malformed
  | .string _ whenSkipped => whenSkipped
  | .literal => .truncated
  | .number => .malformed

/-- The fault for a reader that accepts only a string or an object here. -/
def Break.whenNamed : Break → Fault
  | .nothing => .truncated
  | .string whenRead _ => whenRead
  | _ => .malformed

/-- A value without parts. -/
inductive Scalar
  | null
  | bool (b : Bool)
  | number (numeral : Numeral)
  /-- A string; its text is absent if it holds half a surrogate pair. -/
  | string (text : Option String)

inductive Token
  | openArray
  | closeArray
  | openObject
  | closeObject
  | comma
  | colon
  | scalar (s : Scalar)
  /-- The last token of a text that breaks off. -/
  | broken (b : Break)

/-! ## Strings -/

/-- A part of a string: a character, or a code unit written as `\uXXXX`. -/
inductive Piece
  | char (c : Char)
  | unit (n : Nat)
  deriving DecidableEq, Repr

def isHighSurrogate (n : Nat) : Bool := 0xD800 ≤ n && n < 0xDC00

def isLowSurrogate (n : Nat) : Bool := 0xDC00 ≤ n && n < 0xE000

/-- The character of a surrogate pair. -/
def joinSurrogates (high low : Nat) : Char :=
  Char.ofNat (0x10000 + (high - 0xD800) * 0x400 + (low - 0xDC00))

/-- The characters of a string; none if a surrogate lacks its other half. -/
def textOfPieces : List Piece → Option (List Char)
  | [] => some []
  | .char c :: rest => (textOfPieces rest).map (c :: ·)
  | .unit n :: rest =>
    if isLowSurrogate n then none
    else if isHighSurrogate n then
      match rest with
      | .unit m :: rest =>
        if isLowSurrogate m then (textOfPieces rest).map (joinSurrogates n m :: ·) else none
      | _ => none
    else (textOfPieces rest).map (Char.ofNat n :: ·)

/-- Whether a surrogate lacks its other half before the end of an unfinished string. The other
half of the last one may still have been to come. -/
def lacksHalf : List Piece → Bool
  | [] => false
  | .char _ :: rest => lacksHalf rest
  | .unit n :: rest =>
    if isLowSurrogate n then true
    else if isHighSurrogate n then
      match rest with
      | [] => false
      | .unit m :: rest => if isLowSurrogate m then lacksHalf rest else true
      | _ => true
    else lacksHalf rest

/-- A string token as far as it goes: its pieces, and the text behind its closing quote or the
fault that ends it. -/
structure StringRead where
  pieces : List Piece
  ending : Except Fault (List Char)

def StringRead.cons (p : Piece) (s : StringRead) : StringRead := { s with pieces := p :: s.pieces }

def hexDigit? (c : Char) : Option Nat :=
  if c.isDigit then some (c.toNat - '0'.toNat)
  else if 'a' ≤ c ∧ c ≤ 'f' then some (c.toNat - 'a'.toNat + 10)
  else if 'A' ≤ c ∧ c ≤ 'F' then some (c.toNat - 'A'.toNat + 10)
  else none

/-- The number of four hexadecimal digits. -/
def hexUnit? (a b c d : Char) : Option Nat := do
  return ((← hexDigit? a) * 16 + (← hexDigit? b)) * 256 + (← hexDigit? c) * 16 + (← hexDigit? d)

/-- The character of an escape with a single letter. -/
def letterEscape? (c : Char) : Option Char :=
  if c = '"' ∨ c = '\\' ∨ c = '/' then some c
  else if c = 'b' then some '\x08'
  else if c = 'f' then some '\x0c'
  else if c = 'n' then some '\n'
  else if c = 'r' then some '\r'
  else if c = 't' then some '\t'
  else none

/-- An unfinished group of four hexadecimal digits is cut off if fewer than four bytes of text
follow, and wrong otherwise. -/
def missingUnit (cs : List Char) : Fault :=
  if (cs.map Char.utf8Size).foldr (· + ·) 0 < 4 then .truncated else .malformed

/-- Reads a string token behind its opening quote. -/
def readString : List Char → StringRead
  | [] => ⟨[], .error .truncated⟩
  | c :: rest =>
    if c = '"' then ⟨[], .ok rest⟩
    else if c = '\\' then
      match rest with
      | [] => ⟨[], .error .truncated⟩
      | e :: rest =>
        if e = 'u' then
          match rest with
          | h₁ :: h₂ :: h₃ :: h₄ :: rest =>
            match hexUnit? h₁ h₂ h₃ h₄ with
            | some n => (readString rest).cons (.unit n)
            | none => ⟨[], .error .malformed⟩
          | few => ⟨[], .error (missingUnit few)⟩
        else match letterEscape? e with
          | some c => (readString rest).cons (.char c)
          | none => ⟨[], .error .malformed⟩
    else if c.toNat < 0x20 then ⟨[], .error .malformed⟩
    else (readString rest).cons (.char c)

/-- The token of a string, and the text behind it. -/
def StringRead.token (s : StringRead) : Token × List Char :=
  match s.ending with
  | .ok rest => (.scalar (.string ((textOfPieces s.pieces).map String.ofList)), rest)
  | .error fault => (.broken (.string (if lacksHalf s.pieces then .malformed else fault) fault), [])

/-! ## Tokens -/

/-- The four characters that may stand between tokens. -/
def isSpace (c : Char) : Bool := c = ' ' || c = '\n' || c = '\t' || c = '\r'

/-- Reads the rest of a literal whose first letter was seen. -/
def readLiteral (s : Scalar) : List Char → List Char → Token × List Char
  | [], cs => (.scalar s, cs)
  | _ :: _, [] => (.broken .literal, [])
  | w :: word, c :: cs => if c = w then readLiteral s word cs else (.broken .junk, [])

/-- The token of a number, and the text behind it. -/
def NumeralRead.token : NumeralRead → Token × List Char
  | .read numeral rest => (.scalar (.number numeral), rest)
  | .cut => (.broken .number, [])
  | .wrong => (.broken .junk, [])

/-- The token that starts with a character, and the text behind it. -/
def readToken (c : Char) (rest : List Char) : Token × List Char :=
  if c = '[' then (.openArray, rest)
  else if c = ']' then (.closeArray, rest)
  else if c = '{' then (.openObject, rest)
  else if c = '}' then (.closeObject, rest)
  else if c = ',' then (.comma, rest)
  else if c = ':' then (.colon, rest)
  else if c = '"' then (readString rest).token
  else if c = 'n' then readLiteral .null ['u', 'l', 'l'] rest
  else if c = 't' then readLiteral (.bool true) ['r', 'u', 'e'] rest
  else if c = 'f' then readLiteral (.bool false) ['a', 'l', 's', 'e'] rest
  else if c = '-' ∨ c.isDigit then (readNumeral (c :: rest)).token
  else (.broken .junk, [])

/-! ## Every token takes at least one character -/

theorem readString_length_le {cs rest : List Char} (h : (readString cs).ending = .ok rest) :
    rest.length ≤ cs.length := by
  fun_induction readString cs with
  | case1 => cases h
  | case2 => cases h; exact Nat.le_succ _
  | case3 => cases h
  | case4 _ _ _ _ _ _ _ _ ih => have := ih h; simp only [List.length_cons]; omega
  | case5 => cases h
  | case6 => cases h
  | case7 _ _ _ _ _ _ ih => have := ih h; simp only [List.length_cons]; omega
  | case8 => cases h
  | case9 => cases h
  | case10 _ _ _ _ _ ih => have := ih h; simp only [List.length_cons]; omega

theorem StringRead.token_length_le {cs : List Char} :
    (readString cs).token.2.length ≤ cs.length := by
  unfold StringRead.token
  split
  · rename_i h
    exact readString_length_le h
  · simp

theorem readLiteral_length_le (s : Scalar) (word cs : List Char) :
    (readLiteral s word cs).2.length ≤ cs.length := by
  fun_induction readLiteral s word cs <;> simp_all
  omega

theorem spanDigits_length_le (cs : List Char) : (spanDigits cs).2.length ≤ cs.length :=
  (List.dropWhile_sublist _).length_le

theorem readSign_length_le (cs : List Char) : (readSign cs).2.length ≤ cs.length := by
  unfold readSign
  split <;> simp

theorem readExponent_length_le {negative : Bool} {whole fraction cs rest : List Char}
    {numeral : Numeral} (h : readExponent negative whole fraction cs = .read numeral rest) :
    rest.length ≤ cs.length := by
  unfold readExponent at h
  split at h
  · cases h
    simp
  · rename_i c r
    split at h
    · have hsign := readSign_length_le r
      have hspan := spanDigits_length_le (readSign r).2
      split at h
      · rename_i after _
        cases after <;> simp [missingDigit] at h
      · rename_i digits after _ heq
        cases h
        rw [heq] at hspan
        simp at hspan ⊢
        omega
    · cases h
      simp

theorem readFraction_length_le {negative : Bool} {whole cs rest : List Char} {numeral : Numeral}
    (h : readFraction negative whole cs = .read numeral rest) : rest.length ≤ cs.length := by
  unfold readFraction at h
  split at h
  · rename_i r
    have hspan := spanDigits_length_le r
    split at h
    · rename_i rest' _
      cases rest' <;> simp [missingDigit] at h
    · rename_i digits rest' _ heq
      have := readExponent_length_le h
      rw [heq] at hspan
      simp at hspan ⊢
      omega
  · exact readExponent_length_le h

theorem readWhole_length_lt {negative : Bool} {cs rest : List Char} {numeral : Numeral}
    (h : readWhole negative cs = .read numeral rest) : rest.length < cs.length := by
  unfold readWhole at h
  split at h
  · rename_i rest' _
    cases rest' <;> simp [missingDigit] at h
  · cases h
  · rename_i digits rest' hne _ heq
    have hle := readFraction_length_le h
    cases digits with
    | nil => exact (hne rfl).elim
    | cons d ds =>
      have happ : cs = (d :: ds) ++ rest' := by
        have h1 : cs.takeWhile Char.isDigit = d :: ds := congrArg Prod.fst heq
        have h2 : cs.dropWhile Char.isDigit = rest' := congrArg Prod.snd heq
        rw [← h1, ← h2, List.takeWhile_append_dropWhile]
      rw [happ]
      simp
      omega

theorem readNumeral_length_lt {cs rest : List Char} {numeral : Numeral}
    (h : readNumeral cs = .read numeral rest) : rest.length < cs.length := by
  unfold readNumeral at h
  split at h
  · have := readWhole_length_lt h
    simp
    omega
  · exact readWhole_length_lt h

theorem length_ite_le {p : Prop} [Decidable p] {s t : Token × List Char} {n : Nat}
    (hs : s.2.length ≤ n) (ht : t.2.length ≤ n) : (if p then s else t).2.length ≤ n := by
  split
  · exact hs
  · exact ht

theorem readToken_length_le (c : Char) (rest : List Char) :
    (readToken c rest).2.length ≤ rest.length := by
  unfold readToken
  repeat' apply length_ite_le
  · exact Nat.le_refl _
  · exact Nat.le_refl _
  · exact Nat.le_refl _
  · exact Nat.le_refl _
  · exact Nat.le_refl _
  · exact Nat.le_refl _
  · exact StringRead.token_length_le
  · exact readLiteral_length_le _ _ _
  · exact readLiteral_length_le _ _ _
  · exact readLiteral_length_le _ _ _
  · unfold NumeralRead.token
    split
    · rename_i h
      have := readNumeral_length_lt h
      rw [List.length_cons] at this
      exact Nat.le_of_lt_succ this
    · exact Nat.zero_le _
    · exact Nat.zero_le _
  · exact Nat.zero_le _

/-- The tokens of a text, up to the first break. -/
def tokens (cs : List Char) : List Token :=
  match _h : cs.dropWhile isSpace with
  | [] => []
  | c :: rest =>
    match _ht : readToken c rest with
    | (.broken b, _) => [.broken b]
    | (t, after) => t :: tokens after
termination_by cs.length
decreasing_by
  have h1 := readToken_length_le c rest
  have h2 : (cs.dropWhile isSpace).length ≤ cs.length := (List.dropWhile_sublist _).length_le
  rw [_h, List.length_cons] at h2
  rw [_ht] at h1
  exact Nat.lt_of_lt_of_le (Nat.lt_succ_of_le h1) h2

end DialogueBuild.Json

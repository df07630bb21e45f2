import DialogueBuild.Glob.Pattern
/-!
What texts a pattern stands for, and a test of it.

The test keeps one verdict for every rest of the text and goes through the pattern from its end. Its
time is the product of both lengths, however many stars there are.

Results:

1. `Pattern.accepts_iff`   the test accepts exactly the texts that the pattern stands for.
-/
namespace DialogueBuild.Glob

def Range.contains (c : Char) : Range → Bool
  | .one d => c = d
  | .span first last => first ≤ c && c ≤ last

/-- Whether a token stands for a character. -/
def Token.admits (c : Char) : Token → Bool
  | .char d => c = d
  | .anyChar => true
  | .anyRun | .anyDirectories => false
  | .oneOf set => set.any (Range.contains c)
  | .noneOf set => !set.any (Range.contains c)

/-- The texts that a pattern stands for. Slashes are characters like any other, but for `**`. -/
def Pattern.StandsFor : Pattern → List Char → Prop
  | [], cs => cs = []
  | .anyRun :: ts, cs => ∃ rest, rest <:+ cs ∧ Pattern.StandsFor ts rest
  | .anyDirectories :: ts, cs =>
    ts = [] ∨ ∃ rest, (rest = cs ∨ ('/' :: rest) <:+ cs) ∧ Pattern.StandsFor ts rest
  | t :: ts, cs => ∃ c rest, cs = c :: rest ∧ t.admits c ∧ Pattern.StandsFor ts rest

/-! ## Verdicts

A verdict for every rest of a text, from the whole text to the empty one. -/

/-- Whether the rest is empty. -/
def atEnd : List Char → List Bool
  | [] => [true]
  | _ :: cs => false :: atEnd cs

/-- Whether there is a verdict for it at all: there is. -/
def anywhere : List Char → List Bool
  | [] => [true]
  | _ :: cs => true :: anywhere cs

/-- Whether a verdict holds behind the first character, for which a token stands. -/
def behindToken (t : Token) : List Char → List Bool → List Bool
  | c :: cs, _ :: vs => (t.admits c && vs.headD false) :: behindToken t cs vs
  | _, _ => [false]

/-- Whether a verdict holds here or later. -/
def fromHere : List Bool → List Bool
  | [] => []
  | v :: vs =>
    let later := fromHere vs
    (v || later.headD false) :: later

/-- Whether a verdict holds behind a slash. -/
def behindSlash : List Char → List Bool → List Bool
  | c :: cs, _ :: vs =>
    let later := behindSlash cs vs
    (c = '/' && vs.headD false || later.headD false) :: later
  | _, _ => [false]

/-- Whether a verdict holds here or behind a slash. -/
def hereOrBehindSlash (cs : List Char) (vs : List Bool) : List Bool :=
  vs.zipWith (· || ·) (behindSlash cs vs)

/-- Whether the pattern stands for each rest. -/
def Pattern.verdicts : Pattern → List Char → List Bool
  | [], cs => atEnd cs
  | .anyRun :: ts, cs => fromHere (Pattern.verdicts ts cs)
  | .anyDirectories :: ts, cs =>
    if ts.isEmpty then anywhere cs else hereOrBehindSlash cs (Pattern.verdicts ts cs)
  | t :: ts, cs => behindToken t cs (Pattern.verdicts ts cs)

/-- Whether a pattern stands for a text. -/
def Pattern.accepts (p : Pattern) (cs : List Char) : Bool := (p.verdicts cs).headD false

/-! ## What the test accepts -/

namespace Pattern

theorem exists_verdicts_nil (p : Pattern) : ∃ v, p.verdicts [] = [v] := by
  induction p with
  | nil => exact ⟨_, rfl⟩
  | cons t ts ih =>
    obtain ⟨v, h⟩ := ih
    cases t with
    | anyDirectories => by_cases e : ts = [] <;>
        simp [verdicts, e, h, anywhere, hereOrBehindSlash, behindSlash]
    | _ => simp [verdicts, h, fromHere, behindToken]

theorem exists_verdicts_cons (p : Pattern) (c : Char) (cs : List Char) :
    ∃ v, p.verdicts (c :: cs) = v :: p.verdicts cs := by
  induction p with
  | nil => exact ⟨_, rfl⟩
  | cons t ts ih =>
    obtain ⟨v, h⟩ := ih
    cases t with
    | anyDirectories => by_cases e : ts = [] <;>
        simp [verdicts, e, h, anywhere, hereOrBehindSlash, behindSlash]
    | _ => simp [verdicts, h, fromHere, behindToken]

theorem verdicts_nil (p : Pattern) : p.verdicts [] = [p.accepts []] := by
  obtain ⟨v, h⟩ := exists_verdicts_nil p
  simp [accepts, h]

theorem verdicts_cons (p : Pattern) (c : Char) (cs : List Char) :
    p.verdicts (c :: cs) = p.accepts (c :: cs) :: p.verdicts cs := by
  obtain ⟨v, h⟩ := exists_verdicts_cons p c cs
  simp [accepts, h]

theorem headD_verdicts (p : Pattern) (cs : List Char) :
    (p.verdicts cs).headD false = p.accepts cs := rfl

/-- A run of characters may be empty or start with the first character. -/
theorem accepts_anyRun_cons (ts : Pattern) (c : Char) (cs : List Char) :
    accepts (.anyRun :: ts) (c :: cs) = (accepts ts (c :: cs) || accepts (.anyRun :: ts) cs) := by
  rw [accepts, verdicts, verdicts_cons ts c cs]
  rfl

theorem accepts_anyRun_nil (ts : Pattern) : accepts (.anyRun :: ts) [] = accepts ts [] := by
  rw [accepts, verdicts, verdicts_nil]
  simp [fromHere]

theorem accepts_anyRun_iff (ts : Pattern) (cs : List Char) :
    accepts (.anyRun :: ts) cs = true ↔ ∃ rest, rest <:+ cs ∧ accepts ts rest = true := by
  induction cs with
  | nil => simp [accepts_anyRun_nil]
  | cons c cs ih =>
    simp only [accepts_anyRun_cons, Bool.or_eq_true, ih, List.suffix_cons_iff]
    constructor
    · rintro (h | ⟨rest, hs, h⟩)
      · exact ⟨_, .inl rfl, h⟩
      · exact ⟨rest, .inr hs, h⟩
    · rintro ⟨rest, rfl | hs, h⟩
      · exact .inl h
      · exact .inr ⟨rest, hs, h⟩

theorem headD_behindSlash_iff (ts : Pattern) (cs : List Char) :
    (behindSlash cs (verdicts ts cs)).headD false = true
      ↔ ∃ rest, ('/' :: rest) <:+ cs ∧ accepts ts rest = true := by
  induction cs with
  | nil => simp [behindSlash]
  | cons c cs ih =>
    rw [verdicts_cons]
    simp only [behindSlash, List.headD_cons, headD_verdicts, Bool.or_eq_true, Bool.and_eq_true,
      decide_eq_true_eq, ih, List.suffix_cons_iff, List.cons.injEq]
    constructor
    · rintro (⟨rfl, h⟩ | ⟨rest, hs, h⟩)
      · exact ⟨_, .inl ⟨rfl, rfl⟩, h⟩
      · exact ⟨rest, .inr hs, h⟩
    · rintro ⟨rest, ⟨rfl, rfl⟩ | hs, h⟩
      · exact .inl ⟨rfl, h⟩
      · exact .inr ⟨rest, hs, h⟩

theorem headD_anywhere (cs : List Char) : (anywhere cs).headD false = true := by
  cases cs <;> rfl

theorem headD_hereOrBehindSlash (ts : Pattern) (cs : List Char) :
    (hereOrBehindSlash cs (verdicts ts cs)).headD false
      = (accepts ts cs || (behindSlash cs (verdicts ts cs)).headD false) := by
  cases cs with
  | nil => simp [hereOrBehindSlash, behindSlash, verdicts_nil]
  | cons c cs => simp [hereOrBehindSlash, behindSlash, verdicts_cons]

theorem accepts_anyDirectories_iff (ts : Pattern) (cs : List Char) :
    accepts (.anyDirectories :: ts) cs = true
      ↔ ts = [] ∨ ∃ rest, (rest = cs ∨ ('/' :: rest) <:+ cs) ∧ accepts ts rest = true := by
  rw [accepts, verdicts]
  by_cases e : ts = []
  · simp only [e, List.isEmpty_nil, if_true, headD_anywhere, true_or]
  · simp only [List.isEmpty_iff, e, if_false, false_or, headD_hereOrBehindSlash, Bool.or_eq_true,
      headD_behindSlash_iff]
    constructor
    · rintro (h | ⟨rest, hs, h⟩)
      · exact ⟨_, .inl rfl, h⟩
      · exact ⟨rest, .inr hs, h⟩
    · rintro ⟨rest, rfl | hs, h⟩
      · exact .inl h
      · exact .inr ⟨rest, hs, h⟩

theorem headD_behindToken (t : Token) (ts : Pattern) (cs : List Char) :
    (behindToken t cs (verdicts ts cs)).headD false = true
      ↔ ∃ c rest, cs = c :: rest ∧ t.admits c = true ∧ accepts ts rest = true := by
  cases cs with
  | nil => simp [behindToken]
  | cons c cs =>
    simp only [behindToken, verdicts_cons, List.headD_cons, headD_verdicts, Bool.and_eq_true,
      List.cons.injEq]
    constructor
    · exact fun h => ⟨c, cs, ⟨rfl, rfl⟩, h⟩
    · rintro ⟨_, _, ⟨rfl, rfl⟩, h⟩
      exact h

/-- The test accepts exactly the texts that the pattern stands for. -/
theorem accepts_iff (p : Pattern) (cs : List Char) : p.accepts cs = true ↔ p.StandsFor cs := by
  induction p generalizing cs with
  | nil => cases cs <;> simp [accepts, verdicts, atEnd, StandsFor]
  | cons t ts ih =>
    cases t with
    | anyRun => simp only [accepts_anyRun_iff, ih, StandsFor]
    | anyDirectories => simp only [accepts_anyDirectories_iff, ih, StandsFor]
    | _ => simp only [← headD_verdicts (_ :: ts), verdicts, headD_behindToken, ih, StandsFor]

end Pattern

end DialogueBuild.Glob

import DialogueBuild.Json.Value
import DialogueBuild.Decimal.Binary
/-!
Number tokens and the numbers they stand for.

A whole number of at most 64 bits is read exactly. Every other token becomes a double in two
steps that each round: the digits that fit into 64 bits are taken as a whole number, and that is
multiplied or divided by a power of ten. The result need not be the double nearest to the token.
-/
namespace DialogueBuild.Json

open Decimal

/-- The power of ten at the end of a number token. -/
structure Exponent where
  negative : Bool
  digits : List Char
  deriving DecidableEq, Repr

/-- A number token: sign, digits before the point, digits after it, power of ten. -/
structure Numeral where
  negative : Bool
  whole : List Char
  fraction : List Char
  exponent : Option Exponent
  deriving DecidableEq, Repr

/-! ## Reading a token -/

/-- What the text at a number token turned out to be. -/
inductive NumeralRead
  | read (numeral : Numeral) (rest : List Char)
  /-- The text ends inside the token. -/
  | cut
  /-- The text goes on with a character that no number token has there. -/
  | wrong

/-- The leading digits, and what follows them. -/
def spanDigits (cs : List Char) : List Char × List Char :=
  (cs.takeWhile Char.isDigit, cs.dropWhile Char.isDigit)

/-- A digit is missing before this text. -/
def missingDigit : List Char → NumeralRead
  | [] => .cut
  | _ => .wrong

/-- Reads the sign of a power of ten: whether it is a minus, and what follows. -/
def readSign : List Char → Bool × List Char
  | '-' :: rest => (true, rest)
  | '+' :: rest => (false, rest)
  | rest => (false, rest)

/-- Reads the power of ten, if one follows. -/
def readExponent (negative : Bool) (whole fraction cs : List Char) : NumeralRead :=
  match cs with
  | [] => .read ⟨negative, whole, fraction, none⟩ []
  | c :: rest =>
    if c = 'e' ∨ c = 'E' then
      match spanDigits (readSign rest).2 with
      | ([], after) => missingDigit after
      | (digits, after) =>
        .read ⟨negative, whole, fraction, some ⟨(readSign rest).1, digits⟩⟩ after
    else .read ⟨negative, whole, fraction, none⟩ (c :: rest)

/-- Reads the fraction, if one follows. -/
def readFraction (negative : Bool) (whole cs : List Char) : NumeralRead :=
  match cs with
  | '.' :: rest =>
    match spanDigits rest with
    | ([], rest) => missingDigit rest
    | (digits, rest) => readExponent negative whole digits rest
  | rest => readExponent negative whole [] rest

/-- Reads the digits before the point: one zero, or digits that do not start with zero. -/
def readWhole (negative : Bool) (cs : List Char) : NumeralRead :=
  match spanDigits cs with
  | ([], rest) => missingDigit rest
  | ('0' :: _ :: _, _) => .wrong
  | (digits, rest) => readFraction negative digits rest

/-- Reads the token at the start of a text. -/
def readNumeral : List Char → NumeralRead
  | '-' :: rest => readWhole true rest
  | rest => readWhole false rest

/-! ## The number of a token -/

def digitValue (c : Char) : Nat := c.toNat - '0'.toNat

/-- The number that digits spell. -/
def digitsValue (digits : List Char) : Nat :=
  digits.foldl (fun n c => 10 * n + digitValue c) 0

/-- Appends digits to a number while the result fits into 64 bits: the number, and how many
digits were left over. -/
def accumulate (n : Nat) : List Char → Nat × Nat
  | [] => (n, 0)
  | c :: rest =>
    let next := 10 * n + digitValue c
    if next < Nat.pow 2 64 then accumulate next rest else (n, rest.length + 1)

/-- The nearest double to a power of ten. -/
def powerOfTen (k : Nat) : Float := nearest (Nat.pow 10 k)

/-- Divides by `10 ^ k`, by at most `10 ^ 308` at a time. -/
def divideByPower (x : Float) (k : Nat) : Float :=
  if k ≤ 308 then x / powerOfTen k
  else if x == 0 then x
  else divideByPower (x / powerOfTen 308) (k - 308)
termination_by k

/-- The double `significand * 10 ^ exponent`; none if it is too large. -/
def scale? (significand : Nat) (exponent : Int) : Option Float :=
  let x := nearest significand
  match exponent with
  | .ofNat k =>
    if k ≤ 308 then
      let y := x * powerOfTen k
      if y.isInf then none else some y
    else if significand = 0 then some x
    else none
  | .negSucc k => some (divideByPower x (k + 1))

/-- The value of a power of ten. -/
def Exponent.value (e : Exponent) : Int :=
  if e.negative then -(digitsValue e.digits : Int) else digitsValue e.digits

/-- The double of a token, without its sign. -/
def Numeral.magnitude? (t : Numeral) : Option Float :=
  let (whole, dropped) := accumulate 0 t.whole
  let (significand, left) := accumulate whole t.fraction
  let point : Int := (dropped : Int) - (t.fraction.length - left : Nat)
  match t.exponent with
  | none => scale? significand point
  | some e =>
    if digitsValue e.digits < Nat.pow 2 31 then scale? significand (point + e.value)
    else if significand = 0 ∨ e.negative then some 0
    else none

/-- The number of a token; none if it is too large for a double. Minus zero is a double. -/
def Numeral.number? (t : Numeral) : Option Number :=
  let n := digitsValue t.whole
  let isWhole := t.fraction.isEmpty && t.exponent.isNone
  if isWhole && !t.negative && n < Nat.pow 2 64 then some (.int n)
  else if isWhole && t.negative && 0 < n && n ≤ Nat.pow 2 63 then some (.int (-n))
  else t.magnitude?.map fun x => .float (if t.negative then -x else x)

end DialogueBuild.Json

import DialogueBuild.Decimal.Binary
/-!
The shortest decimal that identifies a double: of all decimals that read back as the double,
the ones with the fewest digits, and of those the nearest to it.

A double stands for every real number that is nearer to it than to its neighbours. On the grid
of decimals with `n` digits the only candidates are the two points around the double; the first
`n` that has a candidate in the double's interval gives the digits.
-/
namespace DialogueBuild.Decimal

/-- Which of two equally near decimals to take. -/
inductive Tie
  | toEven
  | up
  deriving DecidableEq, Repr

/-- A positive decimal `0.d₁d₂… * 10 ^ point`, whose first and last digits are not zero. -/
structure Digits where
  digits : List Char
  point : Int
  deriving DecidableEq, Repr

/-- The decimal digits of a whole number. -/
def digitsOf (n : Nat) : List Char := Nat.toDigits 10 n

/-- A double in quarters of its last binary digit, over a grid of step `10 ^ step`: the double is
`4 * mantissa * scale / unit` steps, and the ends of its interval are `low` and `high`. -/
structure Grid where
  low : Nat
  middle : Nat
  high : Nat
  unit : Nat
  /-- The ends of the interval read back as the double. -/
  closed : Bool

def Grid.of (b : Binary) (step : Int) : Grid :=
  let quarter := b.exponent - 2
  let scale := Nat.pow 2 quarter.toNat * Nat.pow 10 (-step).toNat
  { low := (4 * b.mantissa - if b.closeBelow then 1 else 2) * scale
    middle := 4 * b.mantissa * scale
    high := (4 * b.mantissa + 2) * scale
    unit := Nat.pow 2 (-quarter).toNat * Nat.pow 10 step.toNat
    closed := b.mantissa % 2 = 0 }

/-- Whether a number of steps lies in the interval. -/
def Grid.holds (g : Grid) (steps : Nat) : Bool :=
  let x := steps * g.unit
  if g.closed then g.low ≤ x && x ≤ g.high else g.low < x && x < g.high

/-- The nearest number of steps in the interval, if one of the two around the double is. -/
def Grid.pick? (g : Grid) (tie : Tie) : Option Nat :=
  let below := g.middle / g.unit
  match g.holds below, g.holds (below + 1) with
  | false, false => none
  | true, false => some below
  | false, true => some (below + 1)
  | true, true =>
    let twice := 2 * g.middle
    let half := (2 * below + 1) * g.unit
    if twice < half then some below
    else if half < twice then some (below + 1)
    else match tie with
      | .up => some (below + 1)
      | .toEven => some (below + below % 2)

/-- The decimal exponent: the power of ten at or below the value. -/
def decimalExponent (b : Binary) : Int :=
  let g := Grid.of b 0
  let guess : Int := (digitsOf g.middle).length - (digitsOf g.unit).length
  if g.unit * Nat.pow 10 guess.toNat ≤ g.middle * Nat.pow 10 (-guess).toNat then guess
  else guess - 1

/-- A whole number of steps as digits, without trailing zeros. -/
def Digits.ofSteps (steps : Nat) (step : Int) : Digits :=
  let digits := digitsOf steps
  { digits := (digits.reverse.dropWhile (· = '0')).reverse
    point := digits.length + step }

/-- The shortest decimal of a positive double. Seventeen digits always suffice. -/
def shortest (b : Binary) (tie : Tie) : Digits :=
  let top := decimalExponent b
  let attempt (count : Nat) : Option Digits :=
    let step := top - (count : Int) + 1
    ((Grid.of b step).pick? tie).map (Digits.ofSteps · step)
  ((List.range' 1 17).findSome? attempt).getD ⟨[], 0⟩

end DialogueBuild.Decimal

/-!
Finite doubles taken apart into a whole mantissa and a power of two, and whole numbers rounded
to the nearest double.
-/
namespace DialogueBuild.Decimal

/-- The absolute value of a finite double: `mantissa * 2 ^ exponent`. -/
structure Binary where
  mantissa : Nat
  exponent : Int
  /-- The next smaller double is nearer than the next larger one. -/
  closeBelow : Bool
  deriving DecidableEq, Repr

/-- Whether the sign bit of a double is set; so for `-0.0` too. -/
def isNegative (x : Float) : Bool := Nat.pow 2 63 ≤ x.toBits.toNat

/-- The absolute value of a finite double, read off its bits. -/
def Binary.ofFloat (x : Float) : Binary :=
  let bits := x.toBits.toNat
  let fraction : Nat := bits % Nat.pow 2 52
  let field : Nat := bits / Nat.pow 2 52 % Nat.pow 2 11
  if field = 0 then ⟨fraction, -1074, false⟩
  else ⟨Nat.pow 2 52 + fraction, (field : Int) - 1075, fraction = 0 && 1 < field⟩

/-- The number of binary digits; none for zero. -/
def bitLength (n : Nat) : Nat := if n = 0 then 0 else n.log2 + 1

/-- The quotient by `2 ^ shift`, rounded to the nearest whole number, a half to the even one. -/
def shiftRightRounded (n shift : Nat) : Nat :=
  let divisor := Nat.pow 2 shift
  let quotient := n / divisor
  let doubled := 2 * (n % divisor)
  if doubled < divisor then quotient
  else if divisor < doubled then quotient + 1
  else quotient + quotient % 2

/-- The double nearest to a whole number, a half to the even mantissa. A number of more than
1024 binary digits gives infinity. -/
def nearest (n : Nat) : Float :=
  if n = 0 then 0
  else
    let length := bitLength n
    let mantissa :=
      if length ≤ 53 then n * Nat.pow 2 (53 - length) else shiftRightRounded n (length - 53)
    let bits := (length + 1022) * Nat.pow 2 52 + (mantissa - Nat.pow 2 52)
    Float.ofBits (UInt64.ofNat (min bits 0x7FF0000000000000))

end DialogueBuild.Decimal

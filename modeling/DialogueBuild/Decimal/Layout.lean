import DialogueBuild.Decimal.Shortest
/-!
How the shortest decimal of a double is laid out as text.
-/
namespace DialogueBuild.Decimal

/-- The choices in which the number formats of this library differ. -/
structure Layout where
  /-- The decimal exponents that are written without a power of ten, from the first up to but
  not including the second; all of them when absent. -/
  positional : Option (Int × Int)
  /-- A whole number keeps a fraction `.0`. -/
  keepsPoint : Bool
  tie : Tie

def zeros (n : Int) : List Char := List.replicate n.toNat '0'

/-- Digits around a decimal point. -/
def Digits.plain (d : Digits) (keepsPoint : Bool) : List Char :=
  let count : Int := d.digits.length
  if d.point ≤ 0 then ['0', '.'] ++ zeros (-d.point) ++ d.digits
  else if d.point < count then
    d.digits.take d.point.toNat ++ '.' :: d.digits.drop d.point.toNat
  else d.digits ++ zeros (d.point - count) ++ if keepsPoint then ['.', '0'] else []

/-- One digit, the others as a fraction, and a signed power of ten. -/
def Digits.scientific (d : Digits) : List Char :=
  let exponent := d.point - 1
  let fraction := match d.digits.drop 1 with
    | [] => []
    | rest => '.' :: rest
  let sign := if exponent < 0 then '-' else '+'
  d.digits.take 1 ++ fraction ++ 'e' :: sign :: digitsOf exponent.natAbs

/-- The digits of a positive double in this layout. -/
def Layout.unsigned (layout : Layout) (x : Float) : List Char :=
  let d := shortest (Binary.ofFloat x) layout.tie
  let exponent := d.point - 1
  match layout.positional with
  | none => d.plain layout.keepsPoint
  | some (first, limit) =>
    if first ≤ exponent && exponent < limit then d.plain layout.keepsPoint
    else d.scientific

/-- The text of a double. A zero keeps its sign. -/
def Layout.write (layout : Layout) (x : Float) : List Char :=
  if x.isNaN then ['N', 'a', 'N']
  else
    let sign := if isNegative x then ['-'] else []
    if x.isInf then sign ++ ['i', 'n', 'f']
    else if x == 0 then sign ++ if layout.keepsPoint then ['0', '.', '0'] else ['0']
    else sign ++ layout.unsigned x

/-- Numbers in documents: plain from 0.00001 up to below 10000000000000000, always with a
fraction, and with a power of ten outside; of two equally near decimals the even one. -/
def documentLayout : Layout := ⟨some (-5, 16), true, .toEven⟩

/-- Numbers in listings: always plain, whole numbers without a fraction; of two equally near
decimals the larger one. -/
def listingLayout : Layout := ⟨none, false, .up⟩

end DialogueBuild.Decimal

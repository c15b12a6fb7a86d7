import SignatureDocs.Number.Binary64

/-!
The fewest decimal digits that read back as a number of the double format, written out in full with neither
exponent nor needless point.
-/
namespace SignatureDocs.Binary64

/-- A decimal: digits and the power of ten by which they count. -/
structure Decimal where
  digits : Nat
  scale : Int
deriving DecidableEq, Repr

/-- `num / den < a * 10 ^ s`, in whole numbers. -/
def ltScaled (num den a : Nat) (s : Int) : Bool :=
  if 0 ≤ s then num < a * Nat.pow 10 s.toNat * den else num * Nat.pow 10 (-s).toNat < a * den

/-- `a * 10 ^ s < num / den`, in whole numbers. -/
def scaledLt (a : Nat) (s : Int) (num den : Nat) : Bool :=
  if 0 ≤ s then a * Nat.pow 10 s.toNat * den < num else a * den < num * Nat.pow 10 (-s).toNat

/-- The power of ten of the first digit of a positive fraction. -/
def firstPower (num den : Nat) : Int :=
  if den ≤ num then ((Nat.toDigits 10 (num / den)).length : Int) - 1
  else
    let j := (Nat.toDigits 10 (den / num)).length
    if den ≤ num * Nat.pow 10 (j - 1) then 1 - (j : Int) else -(j : Int)

/-- A positive number of the format and the ends of the interval of numbers that are nearest to it, as
fractions over one denominator. The lower neighbour of a power of two is half as far away. -/
structure Interval where
  low : Nat
  value : Nat
  high : Nat
  den : Nat
  /-- Do the ends belong to the interval? -/
  closed : Bool

def interval (mantissa : Nat) (exponent : Int) : Interval :=
  let narrow := mantissa = Nat.pow 2 52 && exponent != leastExponent
  let low := if narrow then 4 * mantissa - 1 else 4 * mantissa - 2
  let (unit, den) := if 0 ≤ exponent then (Nat.pow 2 exponent.toNat, 4)
    else (1, 4 * Nat.pow 2 (-exponent).toNat)
  ⟨low * unit, 4 * mantissa * unit, (4 * mantissa + 2) * unit, den, mantissa % 2 = 0⟩

/-- Is a decimal in the interval? -/
def Interval.contains (i : Interval) (d : Decimal) : Bool :=
  if i.closed then !ltScaled i.high i.den d.digits d.scale && !scaledLt d.digits d.scale i.low i.den
  else scaledLt d.digits d.scale i.high i.den && ltScaled i.low i.den d.digits d.scale

/-- The neighbours of the value among the decimals of a scale that are in the interval, the nearer one first. -/
def Interval.neighbours (i : Interval) (scale : Int) : List Decimal :=
  let (n, d) := if 0 ≤ scale then (i.value, i.den * Nat.pow 10 scale.toNat)
    else (i.value * Nat.pow 10 (-scale).toNat, i.den)
  let below : Decimal := ⟨n / d, scale⟩
  let above : Decimal := ⟨n / d + 1, scale⟩
  let order := if 2 * (n % d) ≤ d then [below, above] else [above, below]
  order.filter i.contains

/-- The decimal with the fewest digits in the interval, with at most 17 digits. -/
def Interval.shortest (i : Interval) : Decimal :=
  let top := firstPower i.value i.den
  let scales := (List.range 17).map fun (k : Nat) => top - (k : Int)
  ((scales.flatMap i.neighbours).head?).getD ⟨i.value, 0⟩

/-- A decimal written out in full. -/
def Decimal.text (d : Decimal) : List Char :=
  let digits := Nat.toDigits 10 d.digits
  if 0 ≤ d.scale then digits ++ List.replicate d.scale.toNat '0'
  else
    let places := (-d.scale).toNat
    let padded := List.replicate (places + 1 - digits.length) '0' ++ digits
    let whole := padded.take (padded.length - places)
    let fraction := (padded.drop (padded.length - places)).reverse.dropWhile (· = '0')
    if fraction.isEmpty then whole else whole ++ '.' :: fraction.reverse

/-- The text of a number. -/
def text (x : Binary64) : String :=
  match x with
  | nan => "NaN"
  | infinite negative => if negative then "-inf" else "inf"
  | finite negative mantissa exponent =>
    let digits := if mantissa = 0 then ['0'] else (interval mantissa exponent).shortest.text
    String.ofList (if negative then '-' :: digits else digits)

end SignatureDocs.Binary64

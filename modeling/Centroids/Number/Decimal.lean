import Centroids.Number.Precision

/-!
Decimal texts of doubles: the fewest digits that read back to the same number, and a set number of
places.  Digits are chosen by exact arithmetic on the number's bits.
-/
namespace Centroids

/-- `digits * 10 ^ exponent`. -/
structure Decimal where
  digits : Nat
  exponent : Int
deriving DecidableEq

namespace Decimal

/-- A nonzero double and the ends of the interval of reals that round to it, over one denominator;
the ends belong to the interval when the double's mantissa is even. -/
structure Interval where
  lower : Nat
  value : Nat
  upper : Nat
  denominator : Nat
  closed : Bool

/-- The interval of `mantissa * 2 ^ exponent`.  Below a power of two the next double is half as far
away, unless it is subnormal. -/
def Interval.of (mantissa : Nat) (exponent : Int) : Interval :=
  let below := if mantissa = Nat.pow 2 52 ∧ -1074 < exponent then 1 else 2
  let scale := Nat.pow 2 (exponent - 2).toNat
  ⟨(4 * mantissa - below) * scale, 4 * mantissa * scale, (4 * mantissa + 2) * scale,
    Nat.pow 2 (2 - exponent).toNat, mantissa % 2 = 0⟩

/-- The interval measured in steps of `10 ^ k`. -/
def Interval.inSteps (i : Interval) (k : Int) : Interval :=
  let scale := Nat.pow 10 (-k).toNat
  { i with
    lower := i.lower * scale, value := i.value * scale, upper := i.upper * scale
    denominator := i.denominator * Nat.pow 10 k.toNat }

def Interval.contains (i : Interval) (n : Nat) : Bool :=
  let x := n * i.denominator
  if i.closed then i.lower ≤ x && x ≤ i.upper else i.lower < x && x < i.upper

/-- The whole number of the interval next to its value, the even one of two that are equally near. -/
def Interval.nearest? (i : Interval) : Option Nat :=
  let floor := i.value / i.denominator
  let excess := 2 * (i.value % i.denominator)
  let upFirst := i.denominator < excess || (excess == i.denominator && floor % 2 == 1)
  let candidates := if upFirst then [floor + 1, floor] else [floor, floor + 1]
  candidates.find? i.contains

def digitCount (n : Nat) : Nat := if n = 0 then 0 else (Nat.toDigits 10 n).length

/-- The power of ten that follows a quotient below one: `k` tenfold steps are needed to reach one. -/
def fractionMagnitude (numerator denominator : Nat) : Nat → Nat → Int
  | 0, k => 1 - k
  | fuel + 1, k =>
    if numerator < denominator then fractionMagnitude (10 * numerator) denominator fuel (k + 1)
    else 1 - k

/-- The `p` with `10 ^ (p - 1) ≤ numerator / denominator < 10 ^ p`. -/
def magnitude (numerator denominator : Nat) : Int :=
  if denominator ≤ numerator then digitCount (numerator / denominator)
  else fractionMagnitude numerator denominator 400 0

def trim : Nat → Decimal → Decimal
  | 0, d => d
  | fuel + 1, d =>
    if d.digits ≠ 0 ∧ d.digits % 10 = 0 then trim fuel ⟨d.digits / 10, d.exponent + 1⟩ else d

/-- The first grid, from the coarsest on, with a point in the interval. -/
def search (i : Interval) (k : Int) : Nat → Decimal
  | 0 => ⟨(i.inSteps k).value / (i.inSteps k).denominator, k⟩
  | fuel + 1 =>
    match (i.inSteps k).nearest? with
    | some n => ⟨n, k⟩
    | none => search i (k - 1) fuel

/-- The decimal with the fewest digits that rounds to `mantissa * 2 ^ exponent`; seventeen always
do. -/
def shortest (mantissa : Nat) (exponent : Int) : Decimal :=
  let i := Interval.of mantissa exponent
  trim 20 (search i (magnitude i.value i.denominator - 1) 17)

/-- The quotient rounded to the nearest whole number, a tie going to the even one. -/
def roundDiv (numerator denominator : Nat) : Nat :=
  let floor := numerator / denominator
  let excess := 2 * (numerator % denominator)
  if denominator < excess ∨ (excess = denominator ∧ floor % 2 = 1) then floor + 1 else floor

structure Layout where
  /-- Positional layout starts at this exponent of the first digit … -/
  positionalFrom : Int
  /-- … and ends before this one. -/
  positionalBelow : Int
  /-- What follows a whole number. -/
  wholeSuffix : String
  exponentMark : String
  exponentWidth : Nat

/-- Sixteen digits before the point, three zeros after it, a sign and two digits in the exponent. -/
def Layout.natural : Layout := ⟨-4, 16, ".0", "e", 2⟩

def zeros (n : Nat) : String := String.ofList (List.replicate n '0')

def padded (width n : Nat) : String :=
  let text := toString n
  zeros (width - text.length) ++ text

def text (style : Layout) (d : Decimal) : String :=
  let digits := toString d.digits
  let first := d.exponent + digits.length - 1
  if style.positionalFrom ≤ first ∧ first < style.positionalBelow then
    if 0 ≤ d.exponent then digits ++ zeros d.exponent.toNat ++ style.wholeSuffix
    else if 0 ≤ first then
      let whole := (first + 1).toNat
      String.ofList (digits.toList.take whole) ++ "." ++ String.ofList (digits.toList.drop whole)
    else "0." ++ zeros (-first - 1).toNat ++ digits
  else
    let fraction := String.ofList (digits.toList.drop 1)
    String.ofList (digits.toList.take 1) ++ (if fraction.isEmpty then "" else "." ++ fraction)
      ++ style.exponentMark ++ (if first < 0 then "-" else "+")
      ++ padded style.exponentWidth first.natAbs

end Decimal

open Float.Model.UnpackedFloat (Sign)

def signText : Sign → String
  | .negative => "-"
  | .positive => ""

/-- The fewest digits that read back to the same double, laid out positionally where that is short. -/
def doubleText (x : Float) : String :=
  match Double.unpack x with
  | .notANumber => "nan"
  | .infinity s => signText s ++ "inf"
  | .zero s => signText s ++ "0.0"
  | .finite s m e _ => signText s ++ (Decimal.shortest m e).text Decimal.Layout.natural

/-- A double with a set number of places, the last one rounded to nearest. -/
def fixedText (places : Nat) (x : Float) : String :=
  let write (s : Sign) (m : Nat) (e : Int) : String :=
    let unit := Nat.pow 10 places
    let scaled := Decimal.roundDiv (m * Nat.pow 2 e.toNat * unit) (Nat.pow 2 (-e).toNat)
    signText s ++ toString (scaled / unit) ++ "." ++ Decimal.padded places (scaled % unit)
  match Double.unpack x with
  | .notANumber => "nan"
  | .infinity s => signText s ++ "inf"
  | .zero s => write s 0 0
  | .finite s m e _ => write s m e

end Centroids

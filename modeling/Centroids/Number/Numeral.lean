import Centroids.Number.Decimal

/-!
Numbers as options give them, whole or double, compared by their exact values.
-/
namespace Centroids

inductive Numeral
  | int (n : Int)
  | double (x : Float)
deriving DecidableEq

namespace Numeral

/-- A whole number times a power of two, or an infinity. -/
inductive Extent
  | negInfinity
  | dyadic (mantissa : Int) (exponent : Int)
  | posInfinity

def Extent.compare : Extent → Extent → Ordering
  | .negInfinity, .negInfinity | .posInfinity, .posInfinity => .eq
  | .negInfinity, _ | _, .posInfinity => .lt
  | _, .negInfinity | .posInfinity, _ => .gt
  | .dyadic m e, .dyadic n f =>
    Ord.compare (m * Int.pow 2 (e - f).toNat) (n * Int.pow 2 (f - e).toNat)

/-- The value of a number; a NaN has none. -/
def extent? : Numeral → Option Extent
  | .int n => some (.dyadic n 0)
  | .double x =>
    match Double.unpack x with
    | .notANumber => none
    | .infinity .negative => some .negInfinity
    | .infinity .positive => some .posInfinity
    | .zero _ => some (.dyadic 0 0)
    | .finite .negative m e _ => some (.dyadic (-m) e)
    | .finite .positive m e _ => some (.dyadic m e)

def compare? (x y : Numeral) : Option Ordering :=
  match x.extent?, y.extent? with
  | some a, some b => some (a.compare b)
  | _, _ => none

def lt (x y : Numeral) : Bool := x.compare? y == some .lt

def le (x y : Numeral) : Bool := (x.compare? y).any (·.isLE)

@[simp] theorem lt_int (m n : Int) : lt (.int m) (.int n) = decide (m < n) := by
  simp only [lt, compare?, extent?, Extent.compare, Int.sub_self, Int.toNat_zero, Int.pow]
  by_cases h : m < n
  · simp [h, Int.compare_eq_lt.2 h]
  · have : Ord.compare m n ≠ .lt := fun hc => h (Int.compare_eq_lt.1 hc)
    simp [h, this]

/-- Whole numbers as they are, doubles with the fewest digits. -/
def text : Numeral → String
  | .int n => toString n
  | .double x => doubleText x

end Numeral

end Centroids

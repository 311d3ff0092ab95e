import Centroids.Number.Precision

/-!
Exponential variates from uniform ones.  The logarithm is taken in fixed point, with 192 places
after the binary point, and rounded once.
-/
namespace Centroids.Logarithm

def places : Nat := 192

/-- The series `z + z³/3 + z⁵/5 + …` of the inverse hyperbolic tangent from its term of index `n` on:
`power` is `z ^ n` and `square` is `z ^ 2`. -/
def artanhTail (square : Nat) : Nat → Nat → Nat → Nat
  | 0, _, _ => 0
  | terms + 1, power, n =>
    if power = 0 then 0
    else power / n + artanhTail square terms ((power * square) >>> places) (n + 2)

/-- The inverse hyperbolic tangent of `p / q`, for `p / q` at most a third: the powers fall by a
factor of nine, so that none is left after 64 of them. -/
def artanh (p q : Nat) : Nat :=
  let z := (p <<< places) / q
  artanhTail ((z * z) >>> places) 64 z 1

def two : Nat := 2 * artanh 1 3

/-- `-log (m / 2 ^ b)` for `0 < m ≤ 2 ^ b`.  The mantissa is scaled into `(2/3, 4/3]`, where
`log (s / t) = 2 artanh ((s - t) / (s + t))`. -/
def negLogFraction (m b : Nat) : Nat :=
  let e := m.log2 + (if 4 * Nat.pow 2 m.log2 < 3 * m then 1 else 0)
  let one := Nat.pow 2 e
  let series := 2 * artanh (if m ≤ one then one - m else m - one) (m + one)
  (b - e) * two + series - (if m ≤ one then 0 else 2 * series)

/-- `-log (1 - k / 2 ^ 53)`. -/
def exponential (k : Nat) : Float :=
  Double.ofRatio (negLogFraction (Nat.pow 2 53 - k) 53) (Nat.pow 2 places)

end Centroids.Logarithm

namespace Centroids

instance : Sampled Float where
  uniform k := Double.ofRatio k (Nat.pow 2 53)
  exponential := Logarithm.exponential

end Centroids

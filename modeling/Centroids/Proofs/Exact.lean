import Centroids.Proofs.Availability
import Centroids.Proofs.Ranking

/-! Exact arithmetic.  In an ordered field nothing is infinite or a NaN, sums do not depend on their
order, and the mean of a list is the one number from which its entries deviate least. -/
namespace Centroids

/-- Functions that a field need not have. -/
class Analytic (F : Type) where
  sqrt : F → F
  exponential : Nat → F

namespace Exact

/-- The squared deviations from a number, by those from zero. -/
theorem sum_sq_sub {F : Type} [Field F] (xs : List F) (c : F) :
    (xs.map fun x => (x - c) ^ 2).sum =
      (xs.map (· ^ 2)).sum - 2 * c * xs.sum + xs.length * c ^ 2 := by
  induction xs with
  | nil => simp
  | cons x xs ih =>
    simp only [List.map_cons, List.sum_cons, List.length_cons, ih]
    push_cast
    ring

end Exact

variable {F : Type} [Field F] [LinearOrder F] [Analytic F]

instance : Sampled F where
  beq x y := decide (x = y)
  lt x y := decide (x < y)
  sqrt := Analytic.sqrt
  abs x := |x|
  ofNat n := n
  tiny := 1 / 10 ^ 30
  isFinite _ := true
  isBounded _ := true
  uniform k := k / 2 ^ 53
  exponential := Analytic.exponential

instance : Widening F F := ⟨id⟩

namespace Exact

theorem isNaN_eq_false (x : F) : Scalar.isNaN x = false := by
  have heq : (x == x) = true := decide_eq_true rfl
  unfold Scalar.isNaN
  rw [heq]
  rfl

instance : Ranked F where
  Rank := F
  order := inferInstance
  rank x := x
  lt_iff x y := by
    rw [isNaN_eq_false, isNaN_eq_false]
    change decide (x < y) = true ↔ _
    simp
  beq_iff x y := by
    rw [isNaN_eq_false, isNaN_eq_false]
    change decide (x = y) = true ↔ _
    simp

theorem le_iff (x y : F) : Scalar.le x y = true ↔ x ≤ y := by
  rw [Scalar.le_iff, isNaN_eq_false, isNaN_eq_false]
  simp [Ranked.rank]

theorem lt_iff (x y : F) : Scalar.lt x y = true ↔ x < y := decide_eq_true_iff

theorem not_lt_iff (x y : F) : Scalar.lt x y = false ↔ y ≤ x := decide_eq_false_iff_not.trans not_lt

theorem total_eq_sum (xs : List F) : Scalar.total xs = xs.sum :=
  List.sum_eq_foldl.symm

theorem average_eq (xs : List F) : Scalar.average xs = xs.sum / xs.length := by
  unfold Scalar.average
  rw [total_eq_sum]
  rfl

section Average

variable [IsStrictOrderedRing F] {xs : List F} (hne : xs ≠ [])
include hne

/-- How much more a list deviates from a number than from its average. -/
theorem sum_sq_sub_eq_average (c : F) : (xs.map fun x => (x - c) ^ 2).sum =
    (xs.map fun x => (x - Scalar.average xs) ^ 2).sum + xs.length * (Scalar.average xs - c) ^ 2 := by
  have hlength : (xs.length : F) ≠ 0 := by
    rw [Nat.cast_ne_zero]
    exact (List.length_pos_iff.2 hne).ne'
  have hsum : xs.sum = xs.length * Scalar.average xs := by
    rw [average_eq]
    field_simp
  rw [sum_sq_sub, sum_sq_sub, hsum]
  ring

/-- No number has less squared deviations than the average. -/
theorem sum_sq_sub_average_le (c : F) :
    (xs.map fun x => (x - Scalar.average xs) ^ 2).sum ≤ (xs.map fun x => (x - c) ^ 2).sum := by
  rw [sum_sq_sub_eq_average hne c]
  exact le_add_of_nonneg_right (by positivity)

/-- No other number has as little as the average. -/
theorem eq_average_of_sum_sq_sub_le {c : F}
    (h : (xs.map fun x => (x - c) ^ 2).sum ≤ (xs.map fun x => (x - Scalar.average xs) ^ 2).sum) :
    c = Scalar.average xs := by
  rw [sum_sq_sub_eq_average hne c] at h
  have hlength : (0 : F) < xs.length := Nat.cast_pos.2 (List.length_pos_iff.2 hne)
  have hgap : (xs.length : F) * (Scalar.average xs - c) ^ 2 ≤ 0 := by linarith
  have hzero : (Scalar.average xs - c) ^ 2 ≤ 0 := le_of_mul_le_mul_left (by simpa using hgap) hlength
  exact (sub_eq_zero.1 (pow_eq_zero_iff two_ne_zero |>.1 (le_antisymm hzero (sq_nonneg _)))).symm

end Average

end Exact

end Centroids

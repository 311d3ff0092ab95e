import Centroids.Proofs.Exact
import Centroids.Proofs.Image

/-! Numbers times a factor.  In exact arithmetic a factor above zero changes no comparison, so the
least and the greatest of a list stand where they stood; sums and averages are multiplied by it, and
deviations from the average by its square. -/
namespace Centroids.Exact

variable {F : Type} [Field F] [LinearOrder F] [Analytic F]

theorem below_eq (x best : F) : Scalar.below x best = Scalar.lt x best := by
  unfold Scalar.below
  rw [isNaN_eq_false, isNaN_eq_false]
  simp

theorem above_eq (x best : F) : Scalar.above x best = Scalar.lt best x := by
  unfold Scalar.above
  rw [isNaN_eq_false, isNaN_eq_false]
  simp

theorem total_mul (k : F) (xs : List F) : Scalar.total (xs.map (k * ·)) = k * Scalar.total xs := by
  rw [total_eq_sum, total_eq_sum, List.sum_map_mul_left, List.map_id']

theorem average_mul (k : F) (xs : List F) :
    Scalar.average (xs.map (k * ·)) = k * Scalar.average xs := by
  unfold Scalar.average
  rw [total_mul, List.length_map, mul_div_assoc]

theorem average_affine [IsStrictOrderedRing F] {xs : List F} (hne : xs ≠ []) (k t : F) :
    Scalar.average (xs.map fun x => k * x + t) = k * Scalar.average xs + t := by
  have hlength : (xs.length : F) ≠ 0 := by
    rw [Nat.cast_ne_zero]
    exact (List.length_pos_iff.2 hne).ne'
  have hsum : (xs.map fun x => k * x + t).sum = k * xs.sum + xs.length * t := by
    rw [List.sum_map_add, List.sum_map_mul_left, List.map_id', List.map_const', List.sum_replicate,
      nsmul_eq_mul]
  rw [average_eq, average_eq, hsum, List.length_map]
  field_simp

/-- The variance of a list grows with the square of a factor. -/
theorem sampleVariance_mul (k : F) (xs : List F) :
    sampleVariance (xs.map (k * ·)) = k ^ 2 * sampleVariance xs := by
  unfold sampleVariance
  have hsquares : ((xs.map (k * ·)).map fun x =>
      (x - k * Scalar.average xs) * (x - k * Scalar.average xs)) =
      (xs.map fun x => (x - Scalar.average xs) * (x - Scalar.average xs)).map (k ^ 2 * ·) := by
    rw [List.map_map, List.map_map]
    apply List.map_congr_left
    intro x _
    simp only [Function.comp_apply]
    ring
  dsimp only
  rw [average_mul, hsquares, total_mul, List.length_map, mul_div_assoc]

variable [IsStrictOrderedRing F] {k : F} (hk : 0 < k)
include hk

theorem lt_mul (x y : F) : Scalar.lt (k * x) (k * y) = Scalar.lt x y := by
  exact decide_eq_decide.2 (mul_lt_mul_iff_right₀ hk)

theorem lt_zero_mul (x : F) : Scalar.lt 0 (k * x) = Scalar.lt 0 x := by
  have h := lt_mul hk 0 x
  rwa [mul_zero] at h

theorem argmin_mul (xs : List F) : Scalar.argmin (xs.map (k * ·)) = Scalar.argmin xs := by
  cases xs with
  | nil => rfl
  | cons x xs =>
    have hbelow : ∀ x y : F, Scalar.below (k * x) (k * y) = Scalar.below x y := by
      intro x y
      rw [below_eq, below_eq, lt_mul hk]
    change (leader Scalar.below (0, k * x) 1 (xs.map (k * ·))).1 = _
    rw [leader_map hbelow (0, x) 1 xs]
    rfl

theorem leader_above_mul (x : F) (xs : List F) :
    leader Scalar.above (0, k * x) 1 (xs.map (k * ·)) =
      ((leader Scalar.above (0, x) 1 xs).1, k * (leader Scalar.above (0, x) 1 xs).2) := by
  have habove : ∀ x y : F, Scalar.above (k * x) (k * y) = Scalar.above x y := by
    intro x y
    rw [above_eq, above_eq, lt_mul hk]
  exact leader_map habove (0, x) 1 xs

theorem argmax_mul (xs : List F) : Scalar.argmax (xs.map (k * ·)) = Scalar.argmax xs := by
  cases xs with
  | nil => rfl
  | cons x xs =>
    change (leader Scalar.above (0, k * x) 1 (xs.map (k * ·))).1 = _
    rw [leader_above_mul hk]
    rfl

theorem greatest_mul (xs : List F) : Scalar.greatest (xs.map (k * ·)) = k * Scalar.greatest xs := by
  cases xs with
  | nil => exact (mul_zero k).symm
  | cons x xs =>
    change (leader Scalar.above (0, k * x) 1 (xs.map (k * ·))).2 = _
    rw [leader_above_mul hk]
    rfl

theorem least_mul (x y : F) : Scalar.least (k * x) (k * y) = k * Scalar.least x y := by
  unfold Scalar.least
  rw [below_eq, below_eq, lt_mul hk]
  split <;> rfl

end Centroids.Exact

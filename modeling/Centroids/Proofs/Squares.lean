import Centroids.Proofs.Exact

/-! Squared distances in exact arithmetic.  Whatever axes are stretched, a squared distance is a
weighted sum of squared differences, and no center is nearer to points than their mean; without
weights, none is as near. -/
namespace Centroids

namespace Formula

section Stretch

variable {α : Type} [Scalar α]

theorem length_stretchRow (width : Nat) (row : List α) : (stretchRow width row).length = width := by
  unfold stretchRow
  split
  · assumption
  · exact List.length_replicate

/-- The coordinate that stands at a place of a stretched point. -/
def source (dim width j : Nat) : Nat := if dim = width then j else 0

theorem getD_stretchRow {dim width j : Nat} {row : List α} (hrow : row.length = dim)
    (hj : j < width) : (stretchRow width row).getD j 0 = row.getD (source dim width j) 0 := by
  unfold stretchRow source
  rw [hrow]
  split
  · rfl
  · cases row <;> simp [List.getD_eq_getElem?_getD, hj]

theorem zipWith_eq_map_range {β γ δ : Type} {g : β → γ → δ} {n : Nat} {xs : List β} {ys : List γ}
    (hxs : xs.length = n) (hys : ys.length = n) (x : β) (y : γ) :
    List.zipWith g xs ys = (List.range n).map fun j => g (xs.getD j x) (ys.getD j y) := by
  apply List.ext_getElem
  · simp [hxs, hys]
  intro j hj hj'
  have hlt : j < n := by simpa using hj'
  rw [List.getElem_zipWith, List.getElem_map, List.getElem_range, List.getD_eq_getElem?_getD,
    List.getD_eq_getElem?_getD, List.getElem?_eq_getElem (hxs ▸ hlt),
    List.getElem?_eq_getElem (hys ▸ hlt)]
  rfl

end Stretch

variable {F : Type} [Field F] [LinearOrder F]

/-- Squared differences are added up, with weights that are not negative. -/
def IsSquared : Formula F → Prop
  | euclidean squared => squared = true
  | weighted weights squared => squared = true ∧ ∀ w ∈ weights, 0 ≤ w
  | _ => False

def weightAt (f : Formula F) (width j : Nat) : F :=
  match f with
  | weighted weights _ => weights.getD (source weights.length width j) 0
  | _ => 1

variable {f : Formula F}

theorem weightAt_nonneg [IsStrictOrderedRing F] (hf : f.IsSquared) (width j : Nat) :
    0 ≤ f.weightAt width j := by
  cases f with
  | weighted weights squared =>
    change 0 ≤ weights.getD (source weights.length width j) 0
    rw [List.getD_eq_getElem?_getD]
    cases hw : weights[source weights.length width j]? with
    | none => exact le_rfl
    | some w => exact hf.2 w (List.mem_of_getElem? hw)
  | euclidean | manhattan | chebyshev | canberra => exact zero_le_one

/-- The weights fit points of a dimension: only axes of length one are stretched. -/
theorem source_lt {dim width j : Nat} (hfit : f.width? dim dim = some width) (hf : f.IsSquared)
    (hj : j < width) : source dim width j < dim := by
  have hjoin : ∀ m n k, Grid.joinLength? m n = some k → k = n ∨ n = 1 := by
    intro m n k h
    unfold Grid.joinLength? at h
    split at h
    · have := Option.some.inj h
      omega
    · split at h
      · have := Option.some.inj h
        omega
      · cases h
  have hwidth : width = dim ∨ dim = 1 := by
    cases f with
    | euclidean => exact hjoin _ _ _ hfit
    | weighted weights squared =>
      unfold width? at hfit
      rw [Grid.joinLength?_self] at hfit
      exact hjoin _ _ _ hfit
    | manhattan | chebyshev | canberra => exact hf.elim
  unfold source
  split
  · omega
  · omega

variable [Analytic F] {dim width : Nat} {x c : List F}

theorem total_eq_sum_range {n : Nat} (g : Nat → F) :
    Scalar.total ((List.range n).map g) = ∑ j ∈ Finset.range n, g j := by
  rw [Exact.total_eq_sum]
  rfl

theorem between_eq_sum (hf : f.IsSquared) (hx : x.length = dim) (hc : c.length = dim) :
    f.between width x c = ∑ j ∈ Finset.range width, f.weightAt width j *
      (x.getD (source dim width j) 0 - c.getD (source dim width j) 0) ^ 2 := by
  have hlengths := length_stretchRow width x
  have hlengthc := length_stretchRow width c
  cases f with
  | euclidean squared =>
    cases hf
    change Scalar.total (List.zipWith _ (stretchRow width x) (stretchRow width c)) = _
    rw [zipWith_eq_map_range hlengths hlengthc 0 0, total_eq_sum_range]
    apply Finset.sum_congr rfl
    intro j hj
    rw [getD_stretchRow hx (Finset.mem_range.1 hj), getD_stretchRow hc (Finset.mem_range.1 hj)]
    exact (pow_two _).symm.trans (one_mul _).symm
  | weighted weights squared =>
    cases hf.1
    change Scalar.total (List.zipWith weigh (stretchRow width weights)
      (List.zipWith (fun a b => a - b) (stretchRow width x) (stretchRow width c))) = _
    have hlengthd : ((List.range width).map fun j =>
        (stretchRow width x).getD j 0 - (stretchRow width c).getD j 0).length = width := by simp
    rw [zipWith_eq_map_range hlengths hlengthc 0 0,
      zipWith_eq_map_range (length_stretchRow width weights) hlengthd 0 0, total_eq_sum_range]
    apply Finset.sum_congr rfl
    intro j hj
    have hlt := Finset.mem_range.1 hj
    have hdifference : ((List.range width).map fun j =>
        (stretchRow width x).getD j 0 - (stretchRow width c).getD j 0).getD j 0 =
        (stretchRow width x).getD j 0 - (stretchRow width c).getD j 0 := by
      rw [List.getD_eq_getElem?_getD, List.getElem?_map, List.getElem?_range hlt]
      rfl
    rw [hdifference, getD_stretchRow rfl hlt, getD_stretchRow hx hlt, getD_stretchRow hc hlt]
    exact (mul_assoc _ _ _).trans (congrArg _ (pow_two _).symm)
  | manhattan | chebyshev | canberra => exact hf.elim

theorem between_nonneg [IsStrictOrderedRing F] (hf : f.IsSquared) (hx : x.length = dim)
    (hc : c.length = dim) : 0 ≤ f.between width x c := by
  rw [between_eq_sum hf hx hc]
  apply Finset.sum_nonneg
  intro j _
  exact mul_nonneg (weightAt_nonneg hf width j) (sq_nonneg _)

theorem between_self (hf : f.IsSquared) : f.between width x x = 0 := by
  rw [between_eq_sum hf rfl rfl]
  simp

theorem getD_mean {points : Points F} {mean : List F} (h : points.mean = .ok mean) {i : Nat}
    (hi : i < points.dim) : mean.getD i 0 = Scalar.average (points.rows.map (·.getD i 0)) := by
  unfold Points.mean at h
  split at h
  · cases h
  · cases h
    rw [List.getD_eq_getElem?_getD, List.getElem?_map]
    unfold Points.columns
    rw [getElem?_transpose points.length_row hi 0]
    rfl

/-- How far points are from a number in one coordinate. -/
def deviation (points : Points F) (i : Nat) (y : F) : F :=
  ((points.rows.map (·.getD i 0)).map fun x => (x - y) ^ 2).sum

/-- The distances of points to a center, summed coordinate by coordinate. -/
theorem sum_between_eq {points : Points F} (hf : f.IsSquared) (hc : c.length = points.dim) :
    (points.rows.map fun x => f.between width x c).sum =
      ∑ j ∈ Finset.range width, f.weightAt width j *
        deviation points (source points.dim width j) (c.getD (source points.dim width j) 0) := by
  have hrows : (points.rows.map fun x => f.between width x c) =
      points.rows.map fun x => ∑ j ∈ Finset.range width, f.weightAt width j *
        (x.getD (source points.dim width j) 0 - c.getD (source points.dim width j) 0) ^ 2 := by
    apply List.map_congr_left
    intro x hx
    exact between_eq_sum hf (points.length_row x hx) hc
  rw [hrows]
  refine (@Multiset.sum_map_sum _ _ _ _ (points.rows : Multiset (List F)) _ _).trans ?_
  apply Finset.sum_congr rfl
  intro j _
  unfold deviation
  rw [Multiset.map_coe, Multiset.sum_coe, List.sum_map_mul_left, List.map_map]
  rfl

/-- Points are stretched to their own dimension by nothing. -/
theorem sum_between_euclidean_eq {points : Points F} (hc : c.length = points.dim) :
    (points.rows.map fun x => (euclidean true).between points.dim x c).sum =
      ∑ j ∈ Finset.range points.dim, deviation points j (c.getD j 0) := by
  have hf : (euclidean true : Formula F).IsSquared := rfl
  rw [sum_between_eq hf hc]
  apply Finset.sum_congr rfl
  intro j _
  rw [source, if_pos rfl]
  exact one_mul _

theorem rows_ne_nil_of_mean {points : Points F} {mean : List F} (hmean : points.mean = .ok mean) :
    points.rows ≠ [] := by
  intro hnil
  have hnone : points.mean = .error .emptyMean := if_pos (congrArg List.length hnil)
  rw [hmean] at hnone
  cases hnone

section Mean

variable [IsStrictOrderedRing F] {points : Points F} {mean : List F} {i : Nat}
  (hmean : points.mean = .ok mean)
include hmean

/-- No number is nearer to points in one coordinate than that of their mean. -/
theorem deviation_mean_le (hi : i < points.dim) (y : F) :
    deviation points i (mean.getD i 0) ≤ deviation points i y := by
  rw [getD_mean hmean hi]
  apply Exact.sum_sq_sub_average_le
  exact List.map_eq_nil_iff.not.2 (rows_ne_nil_of_mean hmean)

theorem eq_mean_of_deviation_le (hi : i < points.dim) {y : F}
    (h : deviation points i y ≤ deviation points i (mean.getD i 0)) : y = mean.getD i 0 := by
  rw [getD_mean hmean hi] at h ⊢
  apply Exact.eq_average_of_sum_sq_sub_le _ h
  exact List.map_eq_nil_iff.not.2 (rows_ne_nil_of_mean hmean)

/-- No center is nearer to points, in sum, than their mean. -/
theorem sum_between_mean_le (hf : f.IsSquared)
    (hfit : f.width? points.dim points.dim = some width) (hc : c.length = points.dim) :
    (points.rows.map fun x => f.between width x mean).sum ≤
      (points.rows.map fun x => f.between width x c).sum := by
  rw [sum_between_eq hf (Points.length_of_mean hmean), sum_between_eq hf hc]
  apply Finset.sum_le_sum
  intro j hj
  apply mul_le_mul_of_nonneg_left _ (weightAt_nonneg hf width j)
  exact deviation_mean_le hmean (source_lt hfit hf (Finset.mem_range.1 hj)) _

/-- Where no coordinate is weighted, no other center is as near. -/
theorem eq_mean_of_sum_between_le (hc : c.length = points.dim)
    (h : (points.rows.map fun x => (euclidean true).between points.dim x c).sum ≤
      (points.rows.map fun x => (euclidean true).between points.dim x mean).sum) : c = mean := by
  have hlength := Points.length_of_mean hmean
  have hcoordinates : ∀ j ∈ Finset.range points.dim,
      deviation points j (mean.getD j 0) ≤ deviation points j (c.getD j 0) := by
    intro j hj
    exact deviation_mean_le hmean (Finset.mem_range.1 hj) _
  rw [sum_between_euclidean_eq hlength, sum_between_euclidean_eq hc] at h
  have hequal := (Finset.sum_eq_sum_iff_of_le hcoordinates).1
    (le_antisymm (Finset.sum_le_sum hcoordinates) h)
  apply List.ext_getElem (hc.trans hlength.symm)
  intro j hj hj'
  have hlt : j < points.dim := hc ▸ hj
  have hsame := eq_mean_of_deviation_le hmean hlt (hequal j (Finset.mem_range.2 hlt)).ge
  simpa [List.getD_eq_getElem?_getD, hj, hj'] using hsame

end Mean

end Formula

end Centroids

import Centroids.Proofs.Grouping
import Centroids.Proofs.Ranking
import Centroids.Trial

/-! What an assignment does when its distances can be compared: there is one, and no center is nearer
to a point than that of its label, which is the first of those that are equally near. -/
namespace Centroids

namespace Assignment

variable {α : Type} [Scalar α] {metric : Metric α} {points : Points α} {centers : List (List α)}
  {labels : List Int} {columns : List (List α)}

/-- The distances from one point to all centers, of which its label is the place of the least. -/
theorem argmin_of_label (hcolumns : centers.mapM (metric.distances points) = .ok columns)
    (hlabels : Assignment.labels metric points centers = .ok labels) {row k : Nat}
    (hlabel : labels[row]? = some (Int.ofNat k)) :
    Scalar.argmin (columns.map (·.getD row 0)) = k ∧ k < columns.length := by
  have hrow : row < points.size := by
    rw [← length_labels hlabels]
    exact (List.getElem?_eq_some_iff.1 hlabel).1
  rcases labels_eq_ok.1 hlabels with ⟨hne, others, hothers, rfl⟩
  cases hcolumns.symm.trans hothers
  rw [List.getElem?_map, getElem?_transpose (length_of_mem_columns hcolumns) hrow 0] at hlabel
  have hk : Scalar.argmin (columns.map (·.getD row 0)) = k :=
    Int.ofNat.inj (Option.some.inj hlabel)
  have hcolumnsne : columns.map (·.getD row 0) ≠ [] := by
    have hlength := length_of_mapM_eq_ok hcolumns
    have hpos := List.length_pos_iff.2 hne
    apply List.ne_nil_of_length_pos
    rw [List.length_map]
    omega
  have hlt := Scalar.argmin_lt hcolumnsne
  rw [hk, List.length_map] at hlt
  exact ⟨hk, hlt⟩

/-- Where the distances from a point are no NaNs, its label names a center than which none is nearer,
and those before it are farther. -/
theorem le_of_label [Ranked α] (hcolumns : centers.mapM (metric.distances points) = .ok columns)
    (hlabels : Assignment.labels metric points centers = .ok labels) {row k : Nat}
    (hnan : ∀ d ∈ columns.map (·.getD row 0), Scalar.isNaN d = false)
    (hlabel : labels[row]? = some (Int.ofNat k)) :
    ∃ nearest, columns[k]? = some nearest ∧
      (∀ column ∈ columns, Scalar.le (nearest.getD row 0) (column.getD row 0) = true) ∧
      ∀ j column, j < k → columns[j]? = some column →
        Scalar.lt (nearest.getD row 0) (column.getD row 0) = true := by
  have ⟨hargmin, hk⟩ := argmin_of_label hcolumns hlabels hlabel
  have hleast : (columns.map (·.getD row 0))[Scalar.argmin (columns.map (·.getD row 0))]? =
      some (columns[k].getD row 0) := by
    rw [hargmin, List.getElem?_map, List.getElem?_eq_getElem hk]
    rfl
  refine ⟨columns[k], List.getElem?_eq_getElem hk, ?_, ?_⟩
  · intro column hcolumn
    exact Scalar.le_of_argmin hleast hnan _ (List.mem_map_of_mem hcolumn)
  · intro j column hj hcolumn
    rw [← hargmin] at hj
    apply Scalar.lt_of_lt_argmin hleast hnan hj
    rw [List.getElem?_map, hcolumn]
    rfl

theorem exists_labels (hne : centers ≠ [])
    (hcolumns : centers.mapM (metric.distances points) = .ok columns) :
    ∃ labels, Assignment.labels metric points centers = .ok labels :=
  ⟨_, labels_eq_ok.2 ⟨hne, columns, hcolumns, rfl⟩⟩

end Assignment

end Centroids

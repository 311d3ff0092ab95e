import Centroids.Cluster

/-!
Every point goes to the nearest center, the first of several that are equally near.  The labels of
the points then group them into clusters.
-/
namespace Centroids

namespace Assignment

variable {α : Type}

/-- The place of the nearest center for each point; there is none without centers. -/
def labels [Scalar α] (metric : Metric α) (points : Points α) (centers : List (List α)) :
    Except Fault (List Int) :=
  if centers.isEmpty then .error .indexOutOfRange
  else (centers.mapM (metric.distances points)).map fun columns =>
    (transpose points.size columns).map fun row => Int.ofNat (Scalar.argmin row)

section Labels

variable [Scalar α] {metric : Metric α} {points : Points α} {centers : List (List α)}
  {ls : List Int}

theorem labels_eq_ok : labels metric points centers = .ok ls ↔
    centers ≠ [] ∧ ∃ columns, centers.mapM (metric.distances points) = .ok columns ∧
      (transpose points.size columns).map (fun row => Int.ofNat (Scalar.argmin row)) = ls := by
  cases centers with
  | nil => simp [labels]
  | cons c cs => simp only [labels, List.isEmpty_cons, Bool.false_eq_true, if_false, map_eq_ok,
      ne_eq, reduceCtorEq, not_false_eq_true, true_and]

theorem length_of_mem_columns {columns : List (List α)}
    (h : centers.mapM (metric.distances points) = .ok columns) :
    ∀ column ∈ columns, column.length = points.size := by
  intro column hc
  have hm : (.ok column : Except Fault (List α)) ∈ centers.map (metric.distances points) := by
    rw [mapM_eq_ok.1 h]
    exact List.mem_map.2 ⟨column, hc, rfl⟩
  obtain ⟨center, -, hd⟩ := List.mem_map.1 hm
  exact Metric.length_distances hd

theorem length_labels (h : labels metric points centers = .ok ls) : ls.length = points.size := by
  obtain ⟨-, columns, hc, rfl⟩ := labels_eq_ok.1 h
  rw [List.length_map, length_transpose (length_of_mem_columns hc)]

theorem labels_lt (h : labels metric points centers = .ok ls) :
    ∀ l ∈ ls, 0 ≤ l ∧ l < centers.length := by
  obtain ⟨hne, columns, hc, rfl⟩ := labels_eq_ok.1 h
  intro l hl
  obtain ⟨row, hr, rfl⟩ := List.mem_map.1 hl
  have hlen : row.length = centers.length := by
    rw [length_of_mem_transpose (length_of_mem_columns hc) row hr, length_of_mapM_eq_ok hc]
  have hrow : row ≠ [] := by
    rintro rfl
    exact hne (List.length_eq_zero_iff.1 hlen.symm)
  exact ⟨Int.natCast_nonneg _, by rw [← hlen]; exact Int.ofNat_lt.2 (Scalar.argmin_lt hrow)⟩

end Labels

def members (labels : List Int) (k : Nat) : List Int :=
  (labels.zipIdx.filter (·.1 = Int.ofNat k)).map fun x => Int.ofNat x.2

theorem mem_members {labels : List Int} {k : Nat} {i : Int} :
    i ∈ members labels k ↔ ∃ n : Nat, i = n ∧ labels[n]? = some (Int.ofNat k) := by
  simp only [members, List.mem_map, List.mem_filter, decide_eq_true_eq, Prod.exists,
    List.mem_zipIdx_iff_getElem?]
  constructor
  · rintro ⟨l, n, ⟨hl, rfl⟩, rfl⟩
    exact ⟨n, rfl, hl⟩
  · rintro ⟨n, rfl, hl⟩
    exact ⟨_, n, ⟨hl, rfl⟩, rfl⟩

theorem pairwise_members (labels : List Int) (k : Nat) : (members labels k).Pairwise (· < ·) := by
  have h : (labels.zipIdx.map Prod.snd).Pairwise (· < ·) := by
    rw [List.zipIdx_map_snd]
    exact List.pairwise_lt_range'
  rw [members, List.pairwise_map]
  exact ((List.pairwise_map.1 h).filter _).imp fun hlt => Int.ofNat_lt.2 hlt

/-- One cluster around each center; points whose label is no center's place belong to none. -/
def clusters (points : Points α) (centers : List (List α)) (labels : List Int) :
    Except Fault (Partition α) :=
  centers.zipIdx.mapM fun (center, k) => do
    Cluster.make center (← points.pick (members labels k)) (some (members labels k))

end Assignment

end Centroids

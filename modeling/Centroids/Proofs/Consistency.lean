import Centroids.Proofs.Availability
import Centroids.Proofs.Coverage
import Centroids.Proofs.Nearest

/-! Consistency of a partition with its own centers.  Labels, centers and members are of one
generation wherever a run ends: each point is in the cluster whose center is nearest to it, the first
of several that are equally near. -/
namespace Centroids

section Rowwise

variable {α : Type} [Scalar α]

/-- Each point is measured by itself: an answer for several points holds the distance of each. -/
def Metric.IsRowwise (metric : Metric α) (between : List α → List α → α) : Prop :=
  ∀ points center ds, metric.distances points center = .ok ds →
    ds = points.rows.map (between · center)

/-- The distance between two points of any lengths that fit. -/
def Formula.pairwise (f : Formula α) (x center : List α) : α :=
  f.between ((f.width? x.length center.length).getD 0) x center

theorem Metric.IsRowwise.columns_eq {metric : Metric α} {between : List α → List α → α}
    (hrowwise : metric.IsRowwise between) {points : Points α} {centers columns : List (List α)}
    (h : centers.mapM (metric.distances points) = .ok columns) :
    columns = centers.map fun center => points.rows.map (between · center) := by
  rw [mapM_eq_ok] at h
  apply List.ext_getElem?
  intro k
  have hk := congrArg (·[k]?) h
  simp only [List.getElem?_map] at hk ⊢
  cases hcolumn : columns[k]? with
  | none => simpa [hcolumn] using hk
  | some column =>
    cases hcenter : centers[k]? with
    | none => simp [hcolumn, hcenter] at hk
    | some center =>
      simp only [hcolumn, hcenter, Option.map_some, Option.some.injEq] at hk ⊢
      exact hrowwise points center column hk

end Rowwise

section Nearest

variable {α : Type} [Scalar α] {between : List α → List α → α} {clusters : Partition α}

/-- Every point is in the cluster of its nearest center, the first of several that are equally near. -/
structure Partition.Nearest (between : List α → List α → α) (clusters : Partition α) : Prop where
  own_le : ∀ (c : Cluster α), c ∈ clusters → ∀ x ∈ c.points.rows, ∀ (d : Cluster α), d ∈ clusters →
    Scalar.le (between x c.center) (between x d.center) = true
  own_lt : ∀ (k : Nat) (c : Cluster α), clusters[k]? = some c → ∀ x ∈ c.points.rows,
    ∀ (j : Nat) (d : Cluster α), j < k → clusters[j]? = some d →
      Scalar.lt (between x c.center) (between x d.center) = true

variable [Ranked α]

omit [Ranked α] in
/-- A point of a cluster is a row of the data, whose label is the place of the cluster. -/
theorem Trial.Assigned.exists_row {metric : Metric α} {points : Points α} {count k : Nat}
    {labels : List Int} (h : Assigned metric points count clusters labels) {c : Cluster α}
    (hc : clusters[k]? = some c) {x : List α} (hx : x ∈ c.points.rows) :
    ∃ row < points.size, labels[row]? = some (Int.ofNat k) ∧ x = points.row row := by
  have hwithin := h.divides.toShares.within c (List.mem_of_getElem? hc)
  rw [hwithin.selected, Points.rows_select hwithin.lt_size] at hx
  rcases List.mem_map.1 hx with ⟨row, hplace, rfl⟩
  refine ⟨row, hwithin.lt_size row hplace, ?_, rfl⟩
  rwa [h.groups.places_eq hc, Assignment.mem_places] at hplace

theorem Trial.Assigned.nearest {metric : Metric α} {points : Points α} {count : Nat}
    {labels : List Int} (h : Assigned metric points count clusters labels)
    (hrowwise : metric.IsRowwise between)
    (hnan : ∀ c ∈ clusters, ∀ x ∈ c.points.rows, ∀ d ∈ clusters,
      Scalar.isNaN (between x d.center) = false) : clusters.Nearest between := by
  rcases Assignment.labels_eq_ok.1 h.labelled with ⟨-, columns, hcolumns, -⟩
  have hentries := hrowwise.columns_eq hcolumns
  rw [List.map_map] at hentries
  have hnearest : ∀ (k : Nat) (c : Cluster α), clusters[k]? = some c → ∀ x ∈ c.points.rows,
      (∀ d ∈ clusters, Scalar.le (between x c.center) (between x d.center) = true) ∧
      ∀ (j : Nat) (d : Cluster α), j < k → clusters[j]? = some d →
        Scalar.lt (between x c.center) (between x d.center) = true := by
    intro k c hc x hx
    rcases h.exists_row hc hx with ⟨row, hlt, hlabel, rfl⟩
    have hdistance : ∀ d : Cluster α, (points.rows.map (between · d.center)).getD row 0 =
        between (points.row row) d.center :=
      fun d => Points.getD_map_rows hlt (between · d.center) 0
    have hclean : ∀ d ∈ columns.map (·.getD row 0), Scalar.isNaN d = false := by
      intro d hd
      rw [hentries, List.map_map] at hd
      rcases List.mem_map.1 hd with ⟨e, he, rfl⟩
      simp only [Function.comp_apply, hdistance]
      exact hnan c (List.mem_of_getElem? hc) _ hx e he
    rcases Assignment.le_of_label hcolumns h.labelled hclean hlabel with ⟨own, hown, hle, hlt⟩
    rw [hentries, List.getElem?_map, hc] at hown
    cases hown
    rw [hentries] at hle hlt
    simp only [Function.comp_apply, hdistance] at hle hlt
    constructor
    · intro d hd
      rw [← hdistance d]
      exact hle _ (List.mem_map_of_mem hd)
    · intro j d hj hd
      rw [← hdistance d]
      exact hlt j _ hj (by rw [List.getElem?_map, hd]; rfl)
  constructor
  · intro c hc
    rcases List.mem_iff_getElem?.1 hc with ⟨k, hk⟩
    exact fun x hx => (hnearest k c hk x hx).1
  · exact fun k c hc x hx => (hnearest k c hc x hx).2

end Nearest

namespace Clusterer

variable {horizon : Nat} {data : Dataset} {s t : Session Clusterer}
  {outcome : Trial.Outcome Float32} {between : List Float32 → List Float32 → Float32}

end Clusterer

end Centroids

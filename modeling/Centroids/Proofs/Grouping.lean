import Mathlib
import Centroids.Assignment

/-! Clusters as groups of rows.  Labels below the number of centers put every row into exactly one
group, the groups keep the order of the rows, and the labels can be read back from them. -/
namespace Centroids

variable {α : Type}

/-- The numbers of the members' rows; a cluster without numbers has none. -/
def Cluster.places (c : Cluster α) : List Nat := (c.indices.getD []).map Int.toNat

namespace Partition

/-- The clusters share out the rows: each row is in one of them, and each cluster holds the points of
its rows. -/
structure Shares (clusters : Partition α) (points : Points α) : Prop where
  numbered : ∀ c ∈ clusters, c.indices = some (c.places.map Int.ofNat)
  selected : ∀ c ∈ clusters, c.points = points.select c.places
  perm : (clusters.flatMap Cluster.places).Perm (List.range points.size)

/-- Rows that are shared out in the order they have in the data. -/
structure Divides (clusters : Partition α) (points : Points α) : Prop extends
    Shares clusters points where
  ascending : ∀ c ∈ clusters, c.places.Pairwise (· < ·)
  disjoint : clusters.Pairwise fun c d => c.places.Disjoint d.places

/-- The place of the cluster that holds each row. -/
def labels (clusters : Partition α) (size : Nat) : List Int :=
  (List.range size).map fun row => Int.ofNat (clusters.findIdx fun c => row ∈ c.places)

end Partition

theorem Points.pick_of_lt {points : Points α} {places : List Nat}
    (h : ∀ k ∈ places, k < points.size) :
    points.pick (places.map Int.ofNat) = .ok (points.select places) := by
  have hplaces : (places.map Int.ofNat).mapM (place? points.size) = some places := by
    rw [mapM_eq_some, List.map_map]
    apply List.map_congr_left
    intro k hk
    exact (place?_natCast points.size k).trans (if_pos (h k hk))
  unfold Points.pick
  rw [hplaces]

namespace Assignment

/-- The rows with a given label. -/
def places (labels : List Int) (k : Nat) : List Nat :=
  (labels.zipIdx.filter (·.1 = Int.ofNat k)).map Prod.snd

variable {labels : List Int} {k count : Nat}

theorem members_eq_places (labels : List Int) (k : Nat) :
    members labels k = (places labels k).map Int.ofNat := by
  unfold members places
  rw [List.map_map]
  rfl

theorem mem_places {row : Nat} : row ∈ places labels k ↔ labels[row]? = some (Int.ofNat k) := by
  have hmem : Int.ofNat row ∈ members labels k ↔ _ := mem_members
  rw [members_eq_places, List.mem_map_of_injective fun _ _ h => Int.ofNat.inj h] at hmem
  rw [hmem]
  constructor
  · intro h
    rcases h with ⟨n, hn, hlabel⟩
    rw [Int.ofNat.inj hn]
    exact hlabel
  · intro h
    exact ⟨row, rfl, h⟩

theorem lt_of_mem_places {row : Nat} (h : row ∈ places labels k) : row < labels.length :=
  (List.getElem?_eq_some_iff.1 (mem_places.1 h)).1

theorem pairwise_places (labels : List Int) (k : Nat) : (places labels k).Pairwise (· < ·) := by
  have hmembers := pairwise_members labels k
  rw [members_eq_places, List.pairwise_map] at hmembers
  exact hmembers.imp Int.ofNat_lt.1

theorem disjoint_places {j : Nat} (h : j ≠ k) : (places labels j).Disjoint (places labels k) := by
  intro row hj hk
  rw [mem_places] at hj hk
  rw [hj] at hk
  exact h (Int.ofNat.inj (Option.some.inj hk))

/-- Labels that name a group each put every row into one group. -/
theorem flatMap_places_perm (h : ∀ l ∈ labels, 0 ≤ l ∧ l < count) :
    ((List.range count).flatMap (places labels)).Perm (List.range labels.length) := by
  have hnodup : ((List.range count).flatMap (places labels)).Nodup := by
    rw [List.nodup_flatMap]
    constructor
    · intro k _
      exact (pairwise_places labels k).imp Nat.ne_of_lt
    · exact List.nodup_range.imp disjoint_places
  rw [List.perm_ext_iff_of_nodup hnodup List.nodup_range]
  intro row
  rw [List.mem_flatMap, List.mem_range]
  constructor
  · intro hrow
    rcases hrow with ⟨k, -, hrow⟩
    exact lt_of_mem_places hrow
  · intro hrow
    have hlabel := h labels[row] (List.getElem_mem hrow)
    refine ⟨labels[row].toNat, ?_, ?_⟩
    · rw [List.mem_range]
      omega
    · rw [mem_places, List.getElem?_eq_getElem hrow]
      exact congrArg some (Int.toNat_of_nonneg hlabel.1).symm

/-- What the clusters around given centers hold when the points have given labels. -/
structure Groups (points : Points α) (centers : List (List α)) (labels : List Int)
    (clusters : Partition α) : Prop where
  centers_eq : clusters.map (·.center) = centers
  indices_eq : ∀ k c, clusters[k]? = some c → c.indices = some (members labels k)
  points_eq : ∀ k c, clusters[k]? = some c → c.points = points.select (places labels k)

variable {points : Points α} {centers : List (List α)} {clusters : Partition α}

theorem pick_members (hl : labels.length = points.size) (k : Nat) :
    points.pick (members labels k) = .ok (points.select (places labels k)) := by
  rw [members_eq_places]
  apply Points.pick_of_lt
  intro row hrow
  rw [← hl]
  exact lt_of_mem_places hrow

theorem exists_make (hl : labels.length = points.size)
    (h : Assignment.clusters points centers labels = .ok clusters) {k : Nat} {c : Cluster α}
    (hc : clusters[k]? = some c) :
    ∃ center, centers[k]? = some center ∧
      Cluster.make center (points.select (places labels k)) (some (members labels k)) = .ok c := by
  unfold Assignment.clusters at h
  simp only [pick_members hl] at h
  have hk := congrArg (·[k]?) (mapM_eq_ok.1 h)
  simp only [List.getElem?_map, List.getElem?_zipIdx, hc, Option.map_some] at hk
  cases hcenter : centers[k]? with
  | none =>
    rw [hcenter] at hk
    cases hk
  | some center =>
    rw [hcenter] at hk
    rw [Option.map_some, Option.map_some, Nat.zero_add] at hk
    exact ⟨center, rfl, Option.some.inj hk⟩

theorem groups_of_clusters (hl : labels.length = points.size)
    (h : Assignment.clusters points centers labels = .ok clusters) :
    Groups points centers labels clusters := by
  have hlength := length_of_mapM_eq_ok h
  rw [List.length_zipIdx] at hlength
  constructor
  · apply List.ext_getElem?
    intro k
    rw [List.getElem?_map]
    cases hc : clusters[k]? with
    | none =>
      rw [List.getElem?_eq_none_iff] at hc
      exact (List.getElem?_eq_none_iff.2 (by omega)).symm
    | some c =>
      rcases exists_make hl h hc with ⟨center, hcenter, hmake⟩
      rw [hcenter, Option.map_some, (Cluster.make_eq_ok hmake).1]
  · intro k c hc
    rcases exists_make hl h hc with ⟨center, -, hmake⟩
    exact (Cluster.make_eq_ok hmake).2.2
  · intro k c hc
    rcases exists_make hl h hc with ⟨center, -, hmake⟩
    exact (Cluster.make_eq_ok hmake).2.1

/-- Clusters can be built around centers with as many coordinates as the points have. -/
theorem exists_clusters (hl : labels.length = points.size)
    (hcenters : ∀ center ∈ centers, center.length = points.dim) :
    ∃ clusters, Assignment.clusters points centers labels = .ok clusters := by
  unfold Assignment.clusters
  apply exists_mapM_eq_ok
  intro entry hentry
  rcases entry with ⟨center, k⟩
  have hcenter := hcenters center (List.fst_mem_of_mem_zipIdx hentry)
  have hdim : (points.select (places labels k)).size ≠ 0 →
      (points.select (places labels k)).dim = center.length := fun _ => hcenter.symm
  have hindices : ∀ is, some (members labels k) = some is →
      is.length = (points.select (places labels k)).size := by
    intro is his
    rw [← Option.some.inj his, members_eq_places, List.length_map, Points.size_select]
    intro row hrow
    rw [← hl]
    exact lt_of_mem_places hrow
  simp only [pick_members hl]
  change ∃ c, Cluster.make center (points.select (places labels k)) _ = .ok c
  unfold Cluster.make
  rw [dif_pos hdim, dif_pos hindices]
  exact ⟨_, rfl⟩

namespace Groups

variable (h : Groups points centers labels clusters)
include h

theorem length_eq : clusters.length = centers.length := by
  rw [← h.centers_eq, List.length_map]

theorem places_eq {c : Cluster α} (hc : clusters[k]? = some c) : c.places = places labels k := by
  unfold Cluster.places
  rw [h.indices_eq k c hc, Option.getD_some, members_eq_places, List.map_map]
  exact List.map_id _

theorem map_places : clusters.map Cluster.places = (List.range centers.length).map (places labels) := by
  apply List.ext_getElem?
  intro k
  rw [List.getElem?_map, List.getElem?_map]
  cases hc : clusters[k]? with
  | none =>
    rw [List.getElem?_eq_none_iff, h.length_eq] at hc
    rw [List.getElem?_eq_none (by simpa using hc)]
    rfl
  | some c =>
    have hk := (List.getElem?_eq_some_iff.1 hc).1
    rw [h.length_eq] at hk
    rw [Option.map_some, List.getElem?_range hk, Option.map_some, h.places_eq hc]

theorem divides (hl : labels.length = points.size)
    (hrange : ∀ l ∈ labels, 0 ≤ l ∧ l < centers.length) : Partition.Divides clusters points := by
  have hat : ∀ c ∈ clusters, ∃ k, clusters[k]? = some c := fun c => List.mem_iff_getElem?.1
  refine ⟨⟨?_, ?_, ?_⟩, ?_, ?_⟩
  · intro c hc
    rcases hat c hc with ⟨k, hk⟩
    rw [h.places_eq hk, h.indices_eq k c hk, members_eq_places]
  · intro c hc
    rcases hat c hc with ⟨k, hk⟩
    rw [h.places_eq hk, h.points_eq k c hk]
  · have hperm := flatMap_places_perm hrange
    rw [hl] at hperm
    rw [List.flatMap_def] at hperm ⊢
    rw [h.map_places]
    exact hperm
  · intro c hc
    rcases hat c hc with ⟨k, hk⟩
    rw [h.places_eq hk]
    exact pairwise_places labels k
  · have hdisjoint : (clusters.map Cluster.places).Pairwise List.Disjoint := by
      rw [h.map_places, List.pairwise_map]
      exact List.nodup_range.imp disjoint_places
    exact List.pairwise_map.1 hdisjoint

/-- The first group that holds a row is the one that its label names. -/
theorem labels_eq (hl : labels.length = points.size)
    (hrange : ∀ l ∈ labels, 0 ≤ l ∧ l < centers.length) :
    Partition.labels clusters points.size = labels := by
  unfold Partition.labels
  apply List.ext_getElem
  · rw [List.length_map, List.length_range, hl]
  intro row hrow hlabel
  have hbound := hrange labels[row] (List.getElem_mem hlabel)
  have hk : labels[row].toNat < clusters.length := by
    rw [h.length_eq]
    omega
  have hsome : clusters[labels[row].toNat]? = some clusters[labels[row].toNat] :=
    List.getElem?_eq_getElem hk
  have hindex : clusters.findIdx (fun c => row ∈ c.places) = labels[row].toNat := by
    rw [List.findIdx_eq hk]
    constructor
    · rw [decide_eq_true_eq, h.places_eq hsome, mem_places, List.getElem?_eq_getElem hlabel]
      exact congrArg some (Int.toNat_of_nonneg hbound.1).symm
    · intro j hj
      rw [decide_eq_false_iff_not, h.places_eq (List.getElem?_eq_getElem (by omega)), mem_places,
        List.getElem?_eq_getElem hlabel]
      intro heq
      have := Option.some.inj heq
      simp only [Int.ofNat_eq_natCast] at this
      omega
  rw [List.getElem_map, List.getElem_range, hindex]
  exact Int.toNat_of_nonneg hbound.1

end Groups

end Assignment

end Centroids

import Mathlib
import Centroids.Update
import Centroids.Proofs.Grouping

/-! What is left of a cluster while points are taken.  Of a cluster of a partition, the members and
the rows that it can give are those of its places that are still available. -/
namespace Centroids

/-- Nothing has been taken yet. -/
def Pool.full (g : Generator) (size : Nat) : Pool := ⟨g, List.replicate size true⟩

theorem Pool.length_full (g : Generator) (size : Nat) :
    (Pool.full g size).available.length = size :=
  List.length_replicate

variable {α : Type}

/-- The cluster holds rows of these points, and knows their numbers. -/
structure Cluster.Within (c : Cluster α) (points : Points α) : Prop where
  numbered : c.indices = some (c.places.map Int.ofNat)
  selected : c.points = points.select c.places
  lt_size : ∀ row ∈ c.places, row < points.size

/-- The rows of a cluster that have not been taken. -/
def Cluster.left (available : List Bool) (c : Cluster α) : List Nat :=
  c.places.filter (available.getD · false)

theorem Cluster.places_ne_nil {available : List Bool} {c : Cluster α}
    (h : c.left available ≠ []) : c.places ≠ [] := by
  intro hnil
  apply h
  unfold Cluster.left
  rw [hnil]
  rfl

theorem Cluster.Within.left_lt_size {c : Cluster α} {points : Points α} (h : c.Within points)
    (available : List Bool) : ∀ row ∈ c.left available, row < points.size := by
  intro row hrow
  exact h.lt_size row (List.mem_filter.1 hrow).1

theorem Cluster.Within.size_eq {c : Cluster α} {points : Points α} (h : c.Within points) :
    c.size = c.places.length := by
  unfold Cluster.size
  rw [h.selected, Points.size_select h.lt_size]

theorem Cluster.Within.isEmpty_iff {c : Cluster α} {points : Points α} (h : c.Within points) :
    c.isEmpty = true ↔ c.places = [] := by
  unfold Cluster.isEmpty
  rw [h.size_eq, beq_iff_eq]
  exact List.length_eq_zero_iff

theorem Cluster.Within.length_center {c : Cluster α} {points : Points α}
    (hc : c.Within points) (hne : c.places ≠ []) :
    c.center.length = points.dim := by
  have hpos : c.points.size ≠ 0 := by
    change c.size ≠ 0
    rw [hc.size_eq]
    exact (List.length_pos_iff.2 hne).ne'
  rw [← c.dim_eq hpos, hc.selected]
  rfl

namespace Partition.Shares

variable {clusters : Partition α} {points : Points α} (h : clusters.Shares points)
include h

theorem within : ∀ c ∈ clusters, c.Within points := by
  intro c hc
  refine ⟨h.numbered c hc, h.selected c hc, ?_⟩
  intro row hrow
  exact List.mem_range.1 (h.perm.mem_iff.1 (List.mem_flatMap.2 ⟨c, hc, hrow⟩))

theorem total_eq : Update.total clusters = points.size := by
  have hlength := h.perm.length_eq
  rw [List.length_flatMap, List.length_range] at hlength
  have hsum : Update.total clusters = (clusters.map (·.size)).sum := by
    rw [List.sum_eq_foldr, List.foldr_map]
    rfl
  rw [hsum, ← hlength]
  apply congrArg List.sum
  apply List.map_congr_left
  intro c hc
  exact (h.within c hc).size_eq

/-- A row that is available is left in the cluster that holds it. -/
theorem exists_left {available : List Bool} (hsize : available.length = points.size)
    (hpos : 0 < available.count true) : ∃ c ∈ clusters, c.left available ≠ [] := by
  rcases List.mem_iff_getElem?.1 (List.count_pos_iff.1 hpos) with ⟨row, hrow⟩
  have hlt := (List.getElem?_eq_some_iff.1 hrow).1
  rw [hsize] at hlt
  rcases List.mem_flatMap.1 (h.perm.mem_iff.2 (List.mem_range.2 hlt)) with ⟨c, hc, hplace⟩
  refine ⟨c, hc, List.ne_nil_of_mem (List.mem_filter.2 ⟨hplace, ?_⟩)⟩
  rw [List.getD_eq_getElem?_getD, hrow]
  rfl

end Partition.Shares

theorem Points.eq_of_rows {p q : Points α} (hdim : p.dim = q.dim) (hrows : p.rows = q.rows) :
    p = q := by
  cases p
  cases q
  cases hdim
  cases hrows
  rfl

theorem filter_zip_map {β γ : Type} {f : β → γ} {keep : β → Bool} (xs : List β) :
    (((xs.map f).zip (xs.map keep)).filter (·.2)).map (·.1) = (xs.filter keep).map f := by
  induction xs with
  | nil => rfl
  | cons x xs ih =>
    simp only [List.map_cons, List.zip_cons_cons, List.filter_cons]
    cases keep x with
    | true => simp only [if_true, List.map_cons, ih]
    | false => exact ih

/-- The row at a place that is in the data. -/
def Points.row (points : Points α) (place : Nat) : List α := points.rows.getD place []

theorem Points.getElem?_rows {points : Points α} {place : Nat} (h : place < points.size) :
    points.rows[place]? = some (points.row place) := by
  unfold Points.row
  rw [List.getD_eq_getElem?_getD, List.getElem?_eq_getElem h]
  rfl

theorem Points.getD_map_rows {β : Type} {points : Points α} {place : Nat} (h : place < points.size)
    (g : List α → β) (y : β) : (points.rows.map g).getD place y = g (points.row place) := by
  rw [List.getD_eq_getElem?_getD, List.getElem?_map, Points.getElem?_rows h]
  rfl

theorem Points.length_row_of_lt {points : Points α} {place : Nat} (h : place < points.size) :
    (points.row place).length = points.dim :=
  points.length_row _ (List.mem_of_getElem? (Points.getElem?_rows h))

theorem Points.rows_select {points : Points α} {places : List Nat}
    (h : ∀ row ∈ places, row < points.size) :
    (points.select places).rows = places.map points.row := by
  apply List.filterMap_eq_map_iff_forall_eq_some.2
  intro row hrow
  exact Points.getElem?_rows (h row hrow)

theorem Points.filter_select {points : Points α} {keep : Nat → Bool} {places : List Nat}
    (h : ∀ row ∈ places, row < points.size) :
    (points.select places).filter (places.map keep) = points.select (places.filter keep) := by
  have hkept : ∀ row ∈ places.filter keep, row < points.size := by
    intro row hrow
    exact h row (List.mem_filter.1 hrow).1
  apply Points.eq_of_rows
  · rfl
  · change (((points.select places).rows.zip (places.map keep)).filter (·.2)).map (·.1) = _
    rw [Points.rows_select h, filter_zip_map, Points.rows_select hkept]

/-- Clusters that know their rows are no lone numbers, so only the lengths of the centers count. -/
theorem Update.isUniform_eq_true {clusters : Partition α} {points : Points α}
    {centers : List (List α)} (hwithin : ∀ c ∈ clusters, c.Within points)
    (hlength : ∀ row ∈ centers, row.length = points.dim) :
    Update.isUniform clusters centers = true := by
  have hlevel : ∀ c ∈ clusters, Update.isLevel (Update.total clusters) c = false := by
    intro c hc
    unfold Update.isLevel
    rw [(hwithin c hc).numbered]
    rfl
  have hany : clusters.any (Update.isLevel (Update.total clusters)) = false := by
    rw [List.any_eq_false]
    intro c hc
    rw [hlevel c hc]
    exact Bool.false_ne_true
  have hall : (centers.all fun row => row.length == (centers.headD []).length) = true := by
    cases centers with
    | nil => rfl
    | cons first rest =>
      rw [List.all_eq_true]
      intro row hrow
      rw [beq_iff_eq, hlength row hrow]
      exact (hlength first (List.mem_cons_self ..)).symm
  unfold Update.isUniform
  rw [hany, hall]
  simp

theorem Points.length_of_mean [Scalar α] {points : Points α} {center : List α}
    (h : points.mean = .ok center) : center.length = points.dim := by
  unfold Points.mean at h
  split at h
  · cases h
  · cases h
    rw [List.length_map, Points.length_columns]

/-- Whether the row with this number has not been taken.  A negative number counts from the end. -/
def isFree (available : List Bool) (number : Int) : Bool :=
  ((place? available.length number).bind (available[·]?)).getD false

theorem isFree_iff {available : List Bool} {number : Int} : isFree available number = true ↔
    ∃ place, place? available.length number = some place ∧ available[place]? = some true := by
  unfold isFree
  cases hplace : place? available.length number with
  | none => simp
  | some place =>
    rw [Option.bind_some]
    cases havailable : available[place]? with
    | none => simp [havailable]
    | some free => simp [havailable]

theorem isFree_ofNat (available : List Bool) (row : Nat) :
    isFree available (Int.ofNat row) = available.getD row false := by
  have hplace : place? available.length (Int.ofNat row) =
      if row < available.length then some row else none := place?_natCast available.length row
  unfold isFree
  rw [hplace, List.getD_eq_getElem?_getD]
  split
  · rfl
  · rw [List.getElem?_eq_none (by omega)]
    rfl

/-- A mask tells for each number whether its row is free. -/
theorem Donor.mask_eq {available : List Bool} {numbers : List Int}
    (h : ∀ number ∈ numbers, (place? available.length number).isSome) :
    mask available numbers = .ok (numbers.map (isFree available)) := by
  have hmask : numbers.mapM (fun i => (place? available.length i).bind (available[·]?)) =
      some (numbers.map (isFree available)) := by
    rw [mapM_eq_some, List.map_map]
    apply List.map_congr_left
    intro number hnumber
    obtain ⟨place, hplace⟩ := Option.isSome_iff_exists.1 (h number hnumber)
    have hlt := List.getElem?_eq_getElem (place?_lt hplace)
    rw [Function.comp_apply, isFree, hplace, Option.bind_some, hlt, Option.getD_some]
  unfold mask
  rw [hmask]

section Left

variable {available : List Bool} {points : Points α} {c : Cluster α}
  (hc : c.Within points) (hsize : available.length = points.size)
include hc hsize

theorem Cluster.Within.isSome_place :
    ∀ number ∈ c.places.map Int.ofNat, (place? available.length number).isSome := by
  intro number hnumber
  obtain ⟨row, hrow, rfl⟩ := List.mem_map.1 hnumber
  rw [hsize]
  exact Option.isSome_of_eq_some ((place?_natCast points.size row).trans (if_pos (hc.lt_size row hrow)))

theorem Cluster.Within.mask_eq :
    Donor.mask available (c.places.map Int.ofNat) =
      .ok (c.places.map (available.getD · false)) := by
  rw [Donor.mask_eq (hc.isSome_place hsize), List.map_map]
  exact congrArg Except.ok (List.map_congr_left fun row _ => isFree_ofNat available row)

theorem Update.members_eq : Update.members available c = .ok (points.select (c.left available)) := by
  unfold Update.members
  rw [hc.numbered]
  dsimp only
  rw [hc.mask_eq hsize, hc.selected]
  exact congrArg Except.ok (Points.filter_select hc.lt_size)

theorem Donor.ofCluster_eq : Donor.ofCluster available c =
    .ok ⟨c.center, points.select (c.left available), (c.left available).map Int.ofNat⟩ := by
  unfold Donor.ofCluster
  rw [hc.numbered]
  dsimp only
  rw [hc.mask_eq hsize, hc.selected]
  change Except.ok (⟨_, (points.select c.places).filter _, _⟩ : Donor α) = _
  rw [Points.filter_select hc.lt_size, filter_zip_map]
  rfl

end Left

section Center

variable {ω : Type} [Scalar α] [Sampled ω] [Widening α ω] {handler : Handler α}
  {distance : Distance α ω} {clusters : Partition α} {points : Points α} {c : Cluster α}
  {pool pool' : Pool} {row : List α} {moved : Bool}
  (hc : c.Within points) (hsize : pool.available.length = points.size)
include hc hsize

private theorem Update.center_eq : Update.center handler distance clusters c pool =
    (if (points.select (c.left pool.available)).size = 0 then
      return (← handler.reseed distance clusters, true)
    else return (← (points.select (c.left pool.available)).mean, false) : Taking _) pool := by
  have hget : (get : Taking Pool) pool = .ok pool pool := rfl
  have hmembers : (liftM (Update.members pool.available c) : Taking (Points α)) pool =
      .ok (points.select (c.left pool.available)) pool :=
    step_lift_eq_ok.2 ⟨Update.members_eq hc hsize, rfl⟩
  unfold Update.center
  rw [step_bind_of_ok hget, step_bind_of_ok hmembers]

/-- A cluster with members left moves to their mean. -/
theorem Update.center_of_left (hleft : c.left pool.available ≠ []) :
    Update.center handler distance clusters c pool = .ok (row, moved) pool' ↔
      (points.select (c.left pool.available)).mean = .ok row ∧ moved = false ∧ pool' = pool := by
  have hpos := List.length_pos_iff.2 hleft
  rw [Update.center_eq hc hsize, Points.size_select (hc.left_lt_size _), if_neg hpos.ne']
  simp only [step_bind_eq_ok, step_pure_eq_ok, step_lift_eq_ok, Prod.mk.injEq]
  constructor
  · intro h
    rcases h with ⟨mean, u, ⟨hmean, rfl⟩, ⟨rfl, rfl⟩, rfl⟩
    exact ⟨hmean, rfl, rfl⟩
  · intro h
    rcases h with ⟨hmean, rfl, rfl⟩
    exact ⟨row, _, ⟨hmean, rfl⟩, ⟨rfl, rfl⟩, rfl⟩

/-- A cluster without members left takes a point. -/
theorem Update.center_of_none_left (hleft : c.left pool.available = []) :
    Update.center handler distance clusters c pool = .ok (row, moved) pool' ↔
      handler.reseed distance clusters pool = .ok row pool' ∧ moved = true := by
  rw [Update.center_eq hc hsize, Points.size_select (hc.left_lt_size _), hleft, List.length_nil,
    if_pos rfl]
  simp only [step_bind_eq_ok, step_pure_eq_ok, Prod.mk.injEq]
  constructor
  · intro h
    rcases h with ⟨taken, u, htaken, ⟨rfl, rfl⟩, rfl⟩
    exact ⟨htaken, rfl⟩
  · intro h
    rcases h with ⟨htaken, rfl⟩
    exact ⟨row, pool', htaken, ⟨rfl, rfl⟩, rfl⟩

theorem Update.center_error_of_none_left {e : Fault} (hleft : c.left pool.available = [])
    (h : handler.reseed distance clusters pool = .error e pool') :
    Update.center handler distance clusters c pool = .error e pool' := by
  rw [Update.center_eq hc hsize, Points.size_select (hc.left_lt_size _), hleft, List.length_nil,
    if_pos rfl]
  exact step_bind_of_error h

end Center

end Centroids

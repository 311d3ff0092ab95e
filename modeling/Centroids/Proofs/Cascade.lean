import Centroids.Proofs.Record
import Centroids.Proofs.Weighing

/-! Which rows the clusters take on the way to the next centers.  A cluster without members of its own,
and one whose members were all taken by those before it, takes a row that none of them has taken; any
other moves to the mean of the members that they have left it. -/
namespace Centroids

variable {α : Type}

/-- The rows of a cluster apart from these. -/
def Cluster.untaken (rows : List Nat) (c : Cluster α) : List Nat := c.places.filter (· ∉ rows)

namespace Update

variable {points : Points α}

/-- A mask in which these rows are gone. -/
def Marks (available : List Bool) (gone : List Nat) : Prop :=
  ∀ row (h : row < available.length), available[row] = decide (row ∉ gone)

section Marks

variable {available : List Bool} {gone : List Nat} (h : Marks available gone)
include h

theorem Marks.left_eq {c : Cluster α} (hc : c.Within points) (hsize : available.length = points.size) :
    c.left available = c.untaken gone := by
  apply List.filter_congr
  intro row hrow
  have hlt : row < available.length := by
    rw [hsize]
    exact hc.lt_size row hrow
  rw [List.getD_eq_getElem _ _ hlt, h row hlt]

theorem Marks.set (place : Nat) : Marks (available.set place false) (gone ++ [place]) := by
  intro row hrow
  rw [List.length_set] at hrow
  rw [List.getElem_set, h row hrow]
  by_cases hsame : place = row
  · simp [hsame]
  · simp [hsame, Ne.symm hsame]

theorem Marks.not_mem {place : Nat} (hfree : available[place]? = some true) : place ∉ gone := by
  obtain ⟨hlt, hvalue⟩ := List.getElem?_eq_some_iff.1 hfree
  rw [h place hlt] at hvalue
  exact of_decide_eq_true hvalue

end Marks

variable [Scalar α]

/-- What each cluster takes, once some rows are gone: a row of the data, or nothing. -/
structure Takes (points : Points α) (gone : List Nat) (clusters : Partition α)
    (next : List (List α)) (taken : List (Option Nat)) : Prop where
  length_next : next.length = clusters.length
  length_taken : taken.length = clusters.length
  distinct : (gone ++ taken.reduceOption).Nodup
  reseeded : ∀ k (c : Cluster α) row, clusters[k]? = some c → taken[k]? = some (some row) →
    c.untaken (gone ++ (taken.take k).reduceOption) = [] ∧ row < points.size ∧
      next[k]? = some (points.row row)
  moved : ∀ k (c : Cluster α), clusters[k]? = some c → taken[k]? = some none →
    c.untaken (gone ++ (taken.take k).reduceOption) ≠ [] ∧
      ∃ mean, (points.select (c.untaken (gone ++ (taken.take k).reduceOption))).mean = .ok mean ∧
        next[k]? = some mean

namespace Takes

variable {gone : List Nat} {clusters : Partition α} {c : Cluster α} {next : List (List α)}
  {taken : List (Option Nat)}

theorem cons_none {mean : List α} (hleft : c.untaken gone ≠ [])
    (hmean : (points.select (c.untaken gone)).mean = .ok mean)
    (h : Takes points gone clusters next taken) :
    Takes points gone (c :: clusters) (mean :: next) (none :: taken) where
  length_next := by rw [List.length_cons, List.length_cons, h.length_next]
  length_taken := by rw [List.length_cons, List.length_cons, h.length_taken]
  distinct := h.distinct
  reseeded k d row hd hrow := by
    cases k with
    | zero => cases hrow
    | succ k => exact h.reseeded k d row hd hrow
  moved k d hd hrow := by
    cases k with
    | zero =>
      cases hd
      simp only [List.take_zero, List.reduceOption_nil, List.append_nil]
      exact ⟨hleft, mean, hmean, rfl⟩
    | succ k => exact h.moved k d hd hrow

theorem cons_some {place : Nat} (hleft : c.untaken gone = []) (hplace : place < points.size)
    (h : Takes points (gone ++ [place]) clusters next taken) :
    Takes points gone (c :: clusters) (points.row place :: next) (some place :: taken) where
  length_next := by rw [List.length_cons, List.length_cons, h.length_next]
  length_taken := by rw [List.length_cons, List.length_cons, h.length_taken]
  distinct := by
    rw [List.reduceOption_cons_of_some, List.append_cons]
    exact h.distinct
  reseeded k d row hd hrow := by
    cases k with
    | zero =>
      cases hd
      cases hrow
      rw [List.take_zero, List.reduceOption_nil, List.append_nil]
      exact ⟨hleft, hplace, rfl⟩
    | succ k =>
      rw [List.take_succ_cons, List.reduceOption_cons_of_some, List.append_cons]
      exact h.reseeded k d row hd hrow
  moved k d hd hrow := by
    cases k with
    | zero => cases hrow
    | succ k =>
      rw [List.take_succ_cons, List.reduceOption_cons_of_some, List.append_cons]
      exact h.moved k d hd hrow

end Takes

/-- A walk along the clusters takes rows that are still available, each at most once. -/
theorem Walk.exists_takes {available : List Bool} {clusters : Partition α} {next : List (List α)}
    (h : Walk points available clusters next) {gone : List Nat} (hmarks : Marks available gone)
    (hdistinct : gone.Nodup) (hsize : available.length = points.size)
    (hwithin : ∀ c ∈ clusters, c.Within points) :
    ∃ taken, Takes points gone clusters next taken := by
  induction h generalizing gone with
  | done => exact ⟨[], rfl, rfl, by simpa using hdistinct, by simp, by simp⟩
  | mean hleft hmean _ ih =>
    rw [List.forall_mem_cons] at hwithin
    rw [hmarks.left_eq hwithin.1 hsize] at hleft hmean
    obtain ⟨taken, htaken⟩ := ih hmarks hdistinct hsize hwithin.2
    exact ⟨none :: taken, htaken.cons_none hleft hmean⟩
  | @take available c clusters place centers hleft hfree _ ih =>
    rw [List.forall_mem_cons] at hwithin
    rw [hmarks.left_eq hwithin.1 hsize] at hleft
    have hplace := (List.getElem?_eq_some_iff.1 hfree).1
    rw [hsize] at hplace
    have hmore : (gone ++ [place]).Nodup := by
      rw [← List.concat_eq_append]
      exact hdistinct.concat (hmarks.not_mem hfree)
    obtain ⟨taken, htaken⟩ :=
      ih (hmarks.set place) hmore (by rw [List.length_set, hsize]) hwithin.2
    exact ⟨some place :: taken, htaken.cons_some hleft hplace⟩

end Update

section Finite

variable {ω : Type} [Scalar α] [Widening α ω] {points : Points α} {center : List α}
  {ds : Format × List ω}

theorem Grid.mem_of_single? {g : Grid ω} {x : ω} (h : g.single? = some x) : x ∈ g.toList := by
  unfold single? at h
  split at h
  · rename_i y hlist
    rw [hlist]
    cases h
    exact List.mem_singleton_self x
  · cases h

theorem Distance.exists_single {distance : Distance α ω}
    (h : distance.rowByRow points center = .ok ds) : ∀ d ∈ ds.2, ∃ row ∈ points.rows, ∃ format,
      distance.single (.ofList row) (.ofList center) = .ok (format, d) := by
  unfold rowByRow at h
  obtain ⟨answers, hanswers, h⟩ := bind_eq_ok.1 h
  have hlist : ds.2 = answers.map (·.2) := by
    cases answers with
    | nil => cases h
    | cons first rest =>
      cases h
      rfl
  rw [hlist]
  intro d hd
  obtain ⟨answer, hanswer, rfl⟩ := List.mem_map.1 hd
  have hmem : (.ok answer : Except Fault _) ∈ answers.map .ok := List.mem_map_of_mem hanswer
  rw [← mapM_eq_ok.1 hanswers] at hmem
  obtain ⟨row, hrow, hsingle⟩ := List.mem_map.1 hmem
  exact ⟨row, hrow, answer.1, hsingle⟩

variable {metric : Metric α}

/-- A metric answers in the format of the points. -/
theorem Metric.exists_widen_of_call {measured around : Grid α} {answer : Answer ω}
    (h : (Distance.metric metric : Distance α ω).call measured around = .ok answer) :
    ∀ d ∈ answer.values.toList, ∃ x : α, d = Widening.widen x := by
  obtain ⟨values, -, hvalues⟩ := bind_eq_ok.1 h
  cases hvalues
  intro d hd
  rw [Grid.toList_map] at hd
  obtain ⟨x, -, rfl⟩ := List.mem_map.1 hd
  exact ⟨x, rfl⟩

theorem Metric.exists_widen
    (h : (Distance.metric metric : Distance α ω).ofMembers points center = .ok ds) :
    ∀ d ∈ ds.2, ∃ x : α, d = Widening.widen x := by
  unfold Distance.ofMembers at h
  split at h
  · obtain ⟨distances, -, h⟩ := bind_eq_ok.1 h
    cases h
    intro d hd
    obtain ⟨x, -, rfl⟩ := List.mem_map.1 hd
    exact ⟨x, rfl⟩
  · obtain ⟨answer, hanswer, h⟩ := bind_eq_ok.1 h
    split at h
    · cases h
      exact Metric.exists_widen_of_call hanswer
    · intro d hd
      obtain ⟨row, -, format, hsingle⟩ := Distance.exists_single h d hd
      obtain ⟨answer, hanswer, hvalue⟩ := bind_eq_ok.1 hsingle
      split at hvalue
      · rename_i x hx
        cases hvalue
        exact Metric.exists_widen_of_call hanswer d (Grid.mem_of_single? hx)
      · cases hvalue

end Finite

section Single

variable {metric : Metric Float32} {points : Points Float32} {c : Cluster Float32}

/-- The members of a cluster are at finite distances from its center, whichever of them are measured
together. -/
def Metric.FiniteOn (metric : Metric Float32) (points : Points Float32) (c : Cluster Float32) : Prop :=
  ∀ rows, rows.Sublist c.places → rows ≠ [] →
    ∃ ds, (Distance.metric metric : Distance Float32 Float).ofMembers (points.select rows) c.center =
      .ok ds ∧ ∀ d ∈ ds.2, Scalar.isFinite d = true

/-- A formula measures each member by itself. -/
theorem Metric.finiteOn_formula {f : Formula Float32} {width : Nat}
    (hfit : f.width? points.dim points.dim = some width) (hc : c.Within points)
    (hfinite : ∀ row ∈ c.places,
      Scalar.isFinite (f.between width (points.row row) c.center) = true) :
    (Metric.formula f).FiniteOn points c := by
  intro rows hrows hne
  have hcenter := hc.length_center (List.ne_nil_of_length_pos
    ((List.length_pos_iff.2 hne).trans_le hrows.length_le))
  have hselect : f.width? (points.select rows).dim (points.select rows).dim = some width := hfit
  refine ⟨_, Formula.ofMembers_eq_ok hselect hcenter, ?_⟩
  intro d hd
  obtain ⟨x, hx, rfl⟩ := List.mem_map.1 hd
  rw [Points.rows_select fun row hrow => hc.lt_size row (hrows.subset hrow), List.map_map] at hx
  obtain ⟨row, hrow, rfl⟩ := List.mem_map.1 hx
  exact (small_ofSingle (hfinite row (hrows.subset hrow))).1.isFinite.1

/-- Members at finite distances can be measured, and one of them chosen. -/
theorem Metric.FiniteOn.measures_and_admits {strategy : Strategy}
    (h : metric.FiniteOn points c) (available : List Bool) (hstrategy : strategy ≠ .refuse)
    (hc : c.Within points) (hleft : c.left available ≠ []) :
    strategy.Measures (.metric metric : Distance Float32 Float) (c.donor points available) ∧
      strategy.Admits (.metric metric : Distance Float32 Float) (c.donor points available) := by
  obtain ⟨ds, hds, hnumbers⟩ := h (c.left available) List.filter_sublist hleft
  have hpos := hc.size_donor_ne_zero hleft
  have hsmall : ∀ d ∈ ds.2, Small (-149) 128 (Double.unpack d) := by
    intro d hd
    obtain ⟨x, rfl⟩ := Metric.exists_widen hds d hd
    exact (small_ofSingle (isFinite_of_ofSingle (hnumbers _ hd))).1
  exact ⟨Strategy.measures_of_ofMembers hstrategy hpos hds,
    Strategy.admits_of_small hstrategy hpos hds hsmall⟩

end Single

namespace Update

variable {metric : Metric Float32} {points : Points Float32} {clusters : Partition Float32}
  {strategy : Strategy}

/-- No more clusters than rows, and members at finite distances: each cluster arrives at a row that no
other has taken, or at the mean of the members that those before it have left. -/
theorem centers_cascade (h : clusters.Shares points) (hne : clusters ≠ [])
    (hle : clusters.length ≤ points.size) (hstrategy : strategy ≠ .refuse)
    (hfinite : ∀ c ∈ clusters, metric.FiniteOn points c) (g : Generator) :
    ∃ next reseeded g' taken,
      centers strategy (.metric metric : Distance Float32 Float) clusters g =
        .ok (next, reseeded) g' ∧
      Takes points [] clusters next taken ∧
      (reseeded = true ↔ ∃ c ∈ clusters, c.isEmpty = true) := by
  have hdonor := fun available c hc hleft =>
    (hfinite c hc).measures_and_admits available hstrategy (h.within c hc) hleft
  obtain ⟨next, reseeded, g', hcenters, hwalk⟩ := exists_centers h hne hle
    (fun available c hc hleft => (hdonor available c hc hleft).1)
    (fun available c hc hleft => (hdonor available c hc hleft).2)
  have hmarks : Marks (List.replicate points.size true) [] := by
    intro row hrow
    simp
  obtain ⟨taken, htaken⟩ :=
    hwalk.exists_takes hmarks List.nodup_nil List.length_replicate h.within
  exact ⟨next, reseeded, g', taken, hcenters, htaken, reseeded_iff h hcenters⟩

/-- Three points on a line, of which two lie close together. -/
def level : Points Float32 := ⟨1, [[0], [5], [6]], by simp⟩

/-- An empty cluster of these points, one of a single member that is farthest from its center, and one
of two. -/
def chain : Partition Float32 :=
  [⟨[9], level.select [], some [], fun _ => rfl, fun _ h => by cases h; rfl⟩,
    ⟨[3], level.select [0], some [0], fun _ => rfl, fun _ h => by cases h; rfl⟩,
    ⟨[5], level.select [1, 2], some [1, 2], fun _ => rfl, fun _ h => by cases h; rfl⟩]

/-- The empty cluster takes the single member of the second, which takes one of the third in turn. -/
theorem centers_cascade_chain : ∃ g' taken,
    centers (.strategy .farthestPoint)
      (.metric (.formula (.euclidean false)) : Distance Float32 Float) chain (.ofSeed 0) =
        .ok ([[0], [6], [5]], true) g' ∧
    Takes level [] chain [[0], [6], [5]] taken := by
  have hshares : chain.Shares level := ⟨by decide, by decide, by decide⟩
  have hfinite : ∀ c ∈ chain, (Metric.formula (.euclidean false)).FiniteOn level c := by
    intro c hc
    refine Metric.finiteOn_formula rfl (hshares.within c hc) ?_
    revert c
    decide +kernel
  have hrun : (match centers (.strategy .farthestPoint)
      (.metric (.formula (.euclidean false)) : Distance Float32 Float) chain (.ofSeed 0) with
      | .ok answer _ => some answer
      | .error _ _ => none) = some ([[0], [6], [5]], true) := by decide +kernel
  have htakes : Strategy.farthestPoint ≠ .refuse := by decide
  obtain ⟨next, reseeded, g', taken, hcenters, htaken, -⟩ :=
    centers_cascade hshares (by decide) (by decide) htakes hfinite (.ofSeed 0)
  rw [hcenters] at hrun
  obtain ⟨rfl, rfl⟩ := Prod.mk.inj (Option.some.inj hrun)
  exact ⟨g', taken, hcenters, htaken⟩

end Update

end Centroids

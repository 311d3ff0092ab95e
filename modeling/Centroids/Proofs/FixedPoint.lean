import Centroids.Proofs.Availability
import Centroids.Proofs.Coverage
import Centroids.Proofs.Share

/-! Where a run with a tolerance of zero ends.  In its last round no label changed and nothing was
taken, so the clusters before and after hold the same points and the centers are their means; the
next round then has nothing to move. -/
namespace Centroids

section Kept

variable {α ω : Type} {clusters : Partition α} {points : Points α} {g g' : Generator}

theorem Cluster.Within.left_full {c : Cluster α} (hc : c.Within points) :
    c.left (Pool.full g points.size).available = c.places := by
  unfold Cluster.left Pool.full
  rw [List.filter_eq_self]
  intro row hrow
  simp [hc.lt_size row hrow]

variable [Scalar α] [Sampled ω] [Widening α ω] {handler : Handler α} {distance : Distance α ω}
  {all : Partition α}

theorem Update.center_full {c : Cluster α} {pool : Pool} {row : List α} (hc : c.Within points) :
    Update.center handler distance all c (.full g points.size) = .ok (row, false) pool ↔
      c.points.mean = .ok row ∧ pool = .full g points.size := by
  have hsize := Pool.length_full g points.size
  cases hplaces : c.places with
  | nil =>
    have hleft : c.left (Pool.full g points.size).available = [] := hc.left_full.trans hplaces
    have hnone : c.points.mean = .error .emptyMean := by
      have hzero := hc.size_eq
      rw [hplaces] at hzero
      exact if_pos hzero
    rw [Update.center_of_none_left hc hsize hleft, hnone]
    simp
  | cons place places =>
    have hleft : c.left (Pool.full g points.size).available ≠ [] := by
      rw [hc.left_full, hplaces]
      exact List.cons_ne_nil place places
    rw [Update.center_of_left hc hsize hleft, hc.left_full, ← hc.selected]
    simp

/-- Where no cluster takes a point, the centers are the means and nothing is drawn. -/
theorem Update.mapM_center_full {answers : List (List α × Bool)} {pool : Pool}
    (hwithin : ∀ c ∈ clusters, c.Within points) (hkept : ∀ answer ∈ answers, answer.2 = false) :
    clusters.mapM (Update.center handler distance all) (.full g points.size) = .ok answers pool ↔
      clusters.mapM (·.points.mean) = .ok (answers.map (·.1)) ∧ pool = .full g points.size := by
  rw [mapM_eq_ok]
  induction clusters generalizing answers with
  | nil =>
    rw [List.mapM_nil, step_pure_eq_ok, eq_comm (b := pool)]
    cases answers <;> simp
  | cons c clusters ih =>
    have hc := hwithin c (List.mem_cons_self ..)
    have hrest : ∀ d ∈ clusters, d.Within points := fun d hd => hwithin d (List.mem_cons_of_mem _ hd)
    rw [step_mapM_cons_eq_ok]
    constructor
    · intro h
      rcases h with ⟨⟨row, moved⟩, u, rest, hcenter, htail, rfl⟩
      have hmoved : moved = false := hkept _ (List.mem_cons_self ..)
      rw [hmoved, Update.center_full hc] at hcenter
      rcases hcenter with ⟨hmean, rfl⟩
      have := (ih hrest fun answer ha => hkept answer (List.mem_cons_of_mem _ ha)).1 htail
      simp only [List.map_cons, hmean, this.1]
      exact ⟨trivial, this.2⟩
    · intro h
      rcases h with ⟨hmeans, rfl⟩
      cases answers with
      | nil => simp at hmeans
      | cons answer answers =>
        rcases answer with ⟨row, moved⟩
        have hmoved : moved = false := hkept _ (List.mem_cons_self ..)
        simp only [List.map_cons, List.cons.injEq] at hmeans
        refine ⟨(row, moved), .full g points.size, answers, ?_, ?_, rfl⟩
        · rw [hmoved]
          exact (Update.center_full hc).2 ⟨hmeans.1, rfl⟩
        · exact (ih hrest fun answer ha => hkept answer (List.mem_cons_of_mem _ ha)).2
            ⟨hmeans.2, rfl⟩

theorem Partition.Shares.length_of_means {centers : List (List α)} (h : clusters.Shares points)
    (hmeans : clusters.mapM (·.points.mean) = .ok centers) :
    ∀ center ∈ centers, center.length = points.dim := by
  intro row hrow
  have hmem : (.ok row : Except Fault (List α)) ∈ clusters.map (·.points.mean) := by
    rw [mapM_eq_ok.1 hmeans]
    exact List.mem_map_of_mem hrow
  rcases List.mem_map.1 hmem with ⟨c, hc, hmean⟩
  rw [Points.length_of_mean hmean, h.selected c hc]
  rfl

/-- A step that reseeds nothing moves each center to the mean of its cluster. -/
theorem Update.centers_kept {centers : List (List α)} (h : clusters.Shares points) :
    Update.centers handler distance clusters g = .ok (centers, false) g' ↔
      clusters ≠ [] ∧ clusters.mapM (·.points.mean) = .ok centers ∧ g' = g := by
  rw [Update.centers_eq_ok, h.total_eq]
  apply and_congr_right
  intro hne
  constructor
  · intro hsome
    rcases hsome with ⟨answers, pool, hanswers, -, rfl, hflags, rfl⟩
    have hkept : ∀ answer ∈ answers, answer.2 = false := by simpa using hflags
    rcases (Update.mapM_center_full h.within hkept).1 hanswers with ⟨hmeans, rfl⟩
    exact ⟨hmeans, rfl⟩
  · intro hmeans
    rcases hmeans with ⟨hmeans, rfl⟩
    have hrows : (centers.map fun row => (row, false)).map (·.1) = centers := by
      rw [List.map_map]
      exact List.map_id centers
    have hkept : ∀ answer ∈ centers.map fun row => (row, false), answer.2 = false := by simp
    refine ⟨centers.map fun row => (row, false), .full g' points.size, ?_, ?_, hrows, by simp, rfl⟩
    · apply (Update.mapM_center_full h.within hkept).2
      rw [hrows]
      exact ⟨hmeans, rfl⟩
    · rw [hrows]
      exact Update.isUniform_eq_true h.within (h.length_of_means hmeans)

end Kept

namespace Trial

variable {α ω : Type} [Scalar α] [Sampled ω] [Widening α ω] {plan : Plan α} {points : Points α}
  {clusters next : Partition α} {labels : List Int} {count : Nat}

/-- Clusters that stay as they are when they move, whatever the generator: each has members, and its
center is their mean. -/
structure Settled (plan : Plan α) (points : Points α) (clusters : Partition α) (labels : List Int) :
    Prop where
  nonempty : ∀ c ∈ clusters, c.size ≠ 0
  mean_eq : ∀ c ∈ clusters, c.points.mean = .ok c.center
  move_eq : ∀ g, move plan points clusters g = .ok (clusters, labels, false) g

/-- What the members are depends on the labels only. -/
theorem Assigned.map_points {metric : Metric α} (h : Assigned metric points count clusters labels) :
    clusters.map (·.points) =
      (List.range count).map fun k => points.select (Assignment.places labels k) := by
  have hselect : clusters.map (·.points) = (clusters.map Cluster.places).map points.select := by
    rw [List.map_map]
    exact List.map_congr_left h.divides.selected
  rw [hselect, h.groups.map_places, List.map_map, List.length_map, h.length_eq]
  rfl

theorem settled_of_means (h : assign plan points (clusters.map (·.center)) = .ok (clusters, labels))
    (hne : clusters ≠ [])
    (hmeans : clusters.mapM (·.points.mean) = .ok (clusters.map (·.center))) :
    Settled plan points clusters labels := by
  have hdivides := (assigned_of_assign h).1.divides
  have hmean : ∀ c ∈ clusters, c.points.mean = .ok c.center := by
    rw [mapM_eq_ok, List.map_map] at hmeans
    exact List.map_inj_left.1 hmeans
  refine ⟨?_, hmean, ?_⟩
  · intro c hc hzero
    have hnone : c.points.mean = .error .emptyMean := if_pos hzero
    rw [hmean c hc] at hnone
    cases hnone
  · intro g
    exact move_eq_ok.2 ⟨_, (Update.centers_kept hdivides.toShares).2 ⟨hne, hmeans, rfl⟩, h⟩

/-- A step that changes no label and takes no point leads to clusters that stay. -/
theorem settled_of_move {g g' : Generator}
    (hassigned : Assigned plan.metric points count clusters labels)
    (h : move plan points clusters g = .ok (next, labels, false) g') :
    Settled plan points next labels := by
  rcases move_eq_ok.1 h with ⟨centers, hcenters, hassign⟩
  rcases assigned_of_assign hassign with ⟨hnext, rfl⟩
  rcases (Update.centers_kept hassigned.divides.toShares).1 hcenters with ⟨hne, hmeans, -⟩
  have hlength : (next.map (·.center)).length = count := by
    rw [length_of_mapM_eq_ok hmeans, hassigned.length_eq]
  -- The labels are the same, so the clusters hold the same points as before.
  have hpoints : next.map (·.points) = clusters.map (·.points) := by
    rw [hnext.map_points, hassigned.map_points, hlength]
  have hkept : next.mapM (·.points.mean) = .ok (next.map (·.center)) := by
    rw [mapM_eq_ok] at hmeans ⊢
    rw [← hmeans]
    have hmap := congrArg (List.map Points.mean) hpoints
    rw [List.map_map, List.map_map] at hmap
    exact hmap
  apply settled_of_means hassign _ hkept
  intro hnil
  rw [hnil, ← hassigned.length_eq] at hlength
  exact hne (List.length_eq_zero_iff.1 hlength.symm)

/-- What every round keeps of the tolerance. -/
theorem Round.tolerance_eq {s t : Stage α} {met : Bool} (h : Round plan points s met t) :
    t.criterion.tolerance = s.criterion.tolerance := by
  rcases h.moves with ⟨labels, reseeded, -, hcheck⟩
  exact (Criterion.check_eq_ok hcheck).2.1

/-- A last round that meets a criterion with a tolerance of zero changes no label and takes no
point. -/
theorem Round.settled {s t : Stage α} (hs : s.Covers plan.metric points count)
    (hzero : s.criterion.tolerance.compare? (.int 0) = some .eq) (hrows : points.size ≤ 2 ^ 1074)
    (h : Round plan points s true t) :
    Settled plan points t.clusters (t.clusters.labels points.size) := by
  rcases hs with ⟨before, hassigned, hprevious⟩
  rcases h.moves with ⟨labels, reseeded, hmove, hcheck⟩
  rcases move_eq_ok.1 hmove with ⟨centers, -, hassign⟩
  have hnext := (assigned_of_assign hassign).1
  have hlabels := hnext.length_labels
  have hsame := Criterion.eq_of_met hprevious hzero (hlabels.trans hassigned.length_labels.symm)
    (hlabels.le.trans hrows) hcheck
  rcases hsame with ⟨rfl, rfl⟩
  rw [hnext.labels_eq]
  exact settled_of_move hassigned hmove

end Trial

namespace Clusterer

variable {horizon : Nat} {data : Dataset} {s t : Session Clusterer}
  {outcome : Trial.Outcome Float32} {tolerance : Numeral}

/-- A run with a tolerance of zero that ends because its criterion is met ends in clusters that stay.
The share of one row is above zero among as many rows as `2 ^ 1074`, which is more than any array
has. -/
theorem settled_of_converged (h : run horizon data s = .ok outcome t)
    (hconverged : outcome.converged = true)
    (htolerance : s.procedure.parameters.tol.numeral? = some tolerance)
    (hzero : tolerance.compare? (.int 0) = some .eq)
    (hrows : ∀ points, s.procedure.validate data = .ok points → points.size ≤ 2 ^ 1074) :
    ∃ p, s.procedure.prepare data = .ok p ∧
      Trial.Settled p.plan p.points outcome.clusters (outcome.clusters.labels p.points.size) := by
  rcases rounds_of_run h with ⟨p, first, k, hprepare, -, hfirst, hrounds, hkept, -⟩
  rcases prepare_eq_ok hprepare with ⟨hvalidate, -, -, hcriterion⟩
  have htol : first.criterion.tolerance = tolerance := by
    have hmake := Criterion.numeral_of_make hcriterion
    rw [htolerance] at hmake
    rw [hkept]
    exact (Option.some.inj hmake).symm
  have hkeeps : ∀ (u : Trial.Stage Float32) met v,
      u.Covers p.plan.metric p.points p.plan.clusters.toNat ∧ u.criterion.tolerance = tolerance →
      Trial.Round p.plan p.points u met v →
      v.Covers p.plan.metric p.points p.plan.clusters.toNat ∧ v.criterion.tolerance = tolerance := by
    intro u met v hu hround
    exact ⟨hround.covers hu.1, hround.tolerance_eq.trans hu.2⟩
  rcases hrounds.last hkeeps hconverged ⟨hfirst, htol⟩ with ⟨u, ⟨hu, hutol⟩, hround⟩
  refine ⟨p, hprepare, hround.settled hu ?_ (hrows p.points hvalidate)⟩
  rw [hutol]
  exact hzero

theorem settled_of_converged_pairing : ∃ outcome t p, run 9 triple pairing = .ok outcome t ∧
    outcome.converged = true ∧ outcome.clusters.map Cluster.places = [[0, 1], [2]] ∧
    pairing.procedure.prepare triple = .ok p ∧
    Trial.Settled p.plan p.points outcome.clusters (outcome.clusters.labels p.points.size) := by
  rcases run_pairing with ⟨outcome, t, hrun, hconverged, hplaces⟩
  have hthree : ((pairing.procedure.validate triple).map Points.size) = .ok 3 := by decide +kernel
  have hrows : ∀ points, pairing.procedure.validate triple = .ok points →
      points.size ≤ 2 ^ 1074 := by
    intro points hpoints
    rw [hpoints] at hthree
    rw [show points.size = 3 from Except.ok.inj hthree]
    have hlog : 3 < 2 ^ 2 := by decide
    apply hlog.le.trans
    apply Nat.pow_le_pow_right (by decide)
    decide
  rcases settled_of_converged hrun hconverged rfl (by decide +kernel) hrows with
    ⟨p, hprepare, hsettled⟩
  exact ⟨outcome, t, p, hrun, hconverged, hplaces, hprepare, hsettled⟩

end Clusterer

end Centroids

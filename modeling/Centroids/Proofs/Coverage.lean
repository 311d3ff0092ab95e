import Centroids.Proofs.Grouping
import Centroids.Proofs.Rounds
import Centroids.Proofs.Seeding
import Centroids.Proofs.Session

/-! Coverage.  Every assignment gives as many clusters as there are centers and puts each point into
one of them; the next centers are as many as the clusters.  So a partition of the data is kept from
the seeding to the end of a run, whatever the distances are. -/
namespace Centroids

section Step

variable {α ω : Type} [Scalar α] [Sampled ω] [Widening α ω]

theorem Update.length_centers {handler : Handler α} {distance : Distance α ω}
    {clusters : Partition α} {centers : List (List α)} {reseeded : Bool} {g g' : Generator}
    (h : Update.centers handler distance clusters g = .ok (centers, reseeded) g') :
    centers.length = clusters.length := by
  rcases (Update.centers_eq_ok.1 h).2 with ⟨answers, pool, hanswers, -, rfl, -, -⟩
  rw [List.length_map]
  exact length_of_step_mapM_eq_ok hanswers

namespace Trial

variable {plan : Plan α} {points : Points α} {centers : List (List α)}
  {clusters next : Partition α} {labels : List Int} {reseeded : Bool} {g g' : Generator}

theorem assign_eq_ok : assign plan points centers = .ok (clusters, labels) ↔
    Assignment.labels plan.metric points centers = .ok labels ∧
      Assignment.clusters points centers labels = .ok clusters := by
  unfold assign
  simp only [bind_eq_ok, pure, Except.pure, Except.ok.injEq, Prod.mk.injEq]
  constructor
  · intro h
    rcases h with ⟨ls, hlabels, cs, hclusters, rfl, rfl⟩
    exact ⟨hlabels, hclusters⟩
  · intro h
    exact ⟨labels, h.1, clusters, h.2, rfl, rfl⟩

theorem move_eq_ok : move plan points clusters g = .ok (next, labels, reseeded) g' ↔
    ∃ centers,
      Update.centers plan.handler (.metric plan.metric) clusters g = .ok (centers, reseeded) g' ∧
      assign plan points centers = .ok (next, labels) := by
  unfold move
  simp only [step_bind_eq_ok, step_pure_eq_ok, step_lift_eq_ok, Prod.mk.injEq]
  constructor
  · intro h
    rcases h with ⟨⟨centers, _⟩, u, hcenters, ⟨cs, ls⟩, v, ⟨hassign, rfl⟩, ⟨rfl, rfl, rfl⟩, rfl⟩
    exact ⟨centers, hcenters, hassign⟩
  · intro h
    rcases h with ⟨centers, hcenters, hassign⟩
    exact ⟨(centers, reseeded), g', hcenters, (next, labels), g', ⟨hassign, rfl⟩, ⟨rfl, rfl, rfl⟩,
      rfl⟩

/-- As many clusters as asked for, which hold the points as the labels of their centers say. -/
structure Assigned (metric : Metric α) (points : Points α) (count : Nat) (clusters : Partition α)
    (labels : List Int) : Prop where
  length_eq : clusters.length = count
  labelled : Assignment.labels metric points (clusters.map (·.center)) = .ok labels
  groups : Assignment.Groups points (clusters.map (·.center)) labels clusters

theorem assigned_of_assign (h : assign plan points centers = .ok (clusters, labels)) :
    Assigned plan.metric points centers.length clusters labels ∧
      clusters.map (·.center) = centers := by
  rcases assign_eq_ok.1 h with ⟨hlabels, hclusters⟩
  have hgroups := Assignment.groups_of_clusters (Assignment.length_labels hlabels) hclusters
  refine ⟨⟨hgroups.length_eq, ?_, ?_⟩, hgroups.centers_eq⟩
  · rw [hgroups.centers_eq]
    exact hlabels
  · rw [hgroups.centers_eq]
    exact hgroups

namespace Assigned

variable {metric : Metric α} {count : Nat} (h : Assigned metric points count clusters labels)
include h

theorem ne_nil : clusters ≠ [] := by
  intro hnil
  have hne := (Assignment.labels_eq_ok.1 h.labelled).1
  rw [hnil] at hne
  exact hne rfl

theorem length_labels : labels.length = points.size := Assignment.length_labels h.labelled

theorem divides : clusters.Divides points :=
  h.groups.divides h.length_labels (Assignment.labels_lt h.labelled)

theorem labels_eq : clusters.labels points.size = labels :=
  h.groups.labels_eq h.length_labels (Assignment.labels_lt h.labelled)

end Assigned

/-- What every round keeps: the clusters are assigned, and the criterion remembers their labels. -/
def Stage.Covers (metric : Metric α) (points : Points α) (count : Nat) (s : Stage α) : Prop :=
  ∃ labels, Assigned metric points count s.clusters labels ∧
    s.criterion.previous = some (.ofList labels)

theorem Round.covers {s t : Stage α} {met : Bool} {count : Nat}
    (hs : s.Covers plan.metric points count) (h : Round plan points s met t) :
    t.Covers plan.metric points count := by
  rcases hs with ⟨_, hassigned, _⟩
  rcases h.moves with ⟨labels, reseeded, hmove, hcheck⟩
  rcases move_eq_ok.1 hmove with ⟨centers, hcenters, hassign⟩
  have hnext := (assigned_of_assign hassign).1
  rw [Update.length_centers hcenters, hassigned.length_eq] at hnext
  exact ⟨labels, hnext, (Criterion.check_eq_ok hcheck).1⟩

theorem covers_of_start {clusters : Partition α} {c : Criterion} (hpos : 0 < plan.clusters)
    (h : start plan points g = .ok (clusters, labels) g') :
    Stage.Covers plan.metric points plan.clusters.toNat
      ⟨0, clusters, g', { c with previous := some (.ofList labels) }⟩ := by
  unfold start at h
  rcases step_bind_eq_ok.1 h with ⟨centers, u, hcenters, h⟩
  have hassigned := (assigned_of_assign (step_lift_eq_ok.1 h).1).1
  rw [Seeding.length_centers hpos hcenters] at hassigned
  exact ⟨labels, hassigned, rfl⟩

end Trial

end Step

namespace Clusterer

/-- What has been judged when a run begins. -/
theorem prepare_eq_ok {c : Clusterer} {data : Dataset} {p : Prepared}
    (h : c.prepare data = .ok p) :
    c.validate data = .ok p.points ∧ clusterCount p.points.size c.clusters = .ok p.plan.clusters ∧
      p.plan.metric = c.parameters.distance ∧
      Criterion.make c.parameters.tol (.int 1) = .ok p.criterion := by
  unfold prepare at h
  rcases bind_eq_ok.1 h with ⟨points, hpoints, h⟩
  rcases bind_eq_ok.1 h with ⟨clusters, hclusters, h⟩
  rcases bind_eq_ok.1 h with ⟨components, hcomponents, h⟩
  cases h
  unfold Clusterer.components at hcomponents
  rcases bind_eq_ok.1 hcomponents with ⟨handler, -, hcomponents⟩
  rcases bind_eq_ok.1 hcomponents with ⟨seeding, -, hcomponents⟩
  rcases bind_eq_ok.1 hcomponents with ⟨criterion, hcriterion, hcomponents⟩
  cases hcomponents
  exact ⟨hpoints, hclusters, rfl, hcriterion⟩

/-- How a run goes on is what the options say. -/
theorem plan_of_prepare {c : Clusterer} {data : Dataset} {p : Prepared}
    (h : c.prepare data = .ok p) :
    c.parameters.strategy.resolve = .ok p.plan.handler ∧
      Seeding.ofValue c.parameters.init = .ok p.plan.seeding ∧
      p.plan.limit = .ofValue c.parameters.maxIter ∧
      p.plan.verbosity = .ofValue c.parameters.verbose := by
  unfold prepare at h
  obtain ⟨points, -, h⟩ := bind_eq_ok.1 h
  obtain ⟨clusters, -, h⟩ := bind_eq_ok.1 h
  obtain ⟨components, hcomponents, h⟩ := bind_eq_ok.1 h
  cases h
  unfold Clusterer.components at hcomponents
  obtain ⟨handler, hhandler, hcomponents⟩ := bind_eq_ok.1 hcomponents
  obtain ⟨seeding, hseeding, hcomponents⟩ := bind_eq_ok.1 hcomponents
  obtain ⟨criterion, -, hcomponents⟩ := bind_eq_ok.1 hcomponents
  cases hcomponents
  exact ⟨hhandler, hseeding, rfl, rfl⟩

/-- There are at least one cluster and as many points as clusters. -/
theorem count_of_prepare {c : Clusterer} {data : Dataset} {p : Prepared}
    (h : c.prepare data = .ok p) : 0 < p.plan.clusters ∧ p.plan.clusters ≤ p.points.size :=
  (clusterCount_eq_ok.1 (prepare_eq_ok h).2.1).2

variable {horizon : Nat} {data : Dataset} {s t : Session Clusterer}
  {outcome : Trial.Outcome Float32}

/-- A run that returns has asked for at least one cluster and at most as many as there are points,
and its stages keep the partition from the first to the last. -/
theorem rounds_of_run (h : run horizon data s = .ok outcome t) :
    ∃ p first k, s.procedure.prepare data = .ok p ∧ 0 < p.plan.clusters ∧
      Trial.Stage.Covers p.plan.metric p.points p.plan.clusters.toNat first ∧
      Trial.Rounds p.plan p.points first outcome.converged
        (.of outcome.iterations outcome.clusters k) ∧
      first.criterion.tolerance = p.criterion.tolerance ∧
      t.procedure.criterion = some k.criterion := by
  rcases run_eq_ok.1 h with ⟨p, k, hprepare, hrun, rfl⟩
  have hcount := (count_of_prepare hprepare).1
  rcases Trial.run_eq_ok hrun with ⟨clusters, labels, g, hstart, hrounds⟩
  exact ⟨p, _, k, hprepare, hcount, Trial.covers_of_start hcount hstart, hrounds, rfl, rfl⟩

/-- A run that returns shares out all points among as many clusters as were asked for.  The labels
that can be read back from them are those that the centers assign, and the last that the criterion
saw. -/
theorem run_covers (h : run horizon data s = .ok outcome t) :
    ∃ points count, s.procedure.validate data = .ok points ∧
      s.procedure.clusters = .int count ∧ 0 < count ∧ count ≤ points.size ∧
      outcome.clusters.length = count ∧ outcome.clusters.Divides points ∧
      Assignment.labels s.procedure.parameters.distance points
        (outcome.clusters.map (·.center)) = .ok (outcome.clusters.labels points.size) ∧
      ∃ criterion, t.procedure.criterion = some criterion ∧
        criterion.previous = some (.ofList (outcome.clusters.labels points.size)) := by
  rcases rounds_of_run h with ⟨p, first, k, hprepare, hpos, hfirst, hrounds, -, hk⟩
  rcases prepare_eq_ok hprepare with ⟨hvalidate, hcount, hmetric, -⟩
  rcases clusterCount_eq_ok.1 hcount with ⟨hclusters, -, hle⟩
  have hlast := hrounds.invariant (fun _ _ _ hs hround => hround.covers hs) hfirst
  rcases hlast with ⟨labels, hassigned, hprevious⟩
  change Trial.Assigned _ _ _ outcome.clusters labels at hassigned
  have hlength := hassigned.length_eq
  refine ⟨p.points, p.plan.clusters, hvalidate, hclusters, hpos, hle, by omega,
    hassigned.divides, ?_, k.criterion, hk, ?_⟩
  · rw [hassigned.labels_eq, ← hmetric]
    exact hassigned.labelled
  · rw [hassigned.labels_eq]
    exact hprevious

/-- Two clusters are asked for, and a generator of zeros takes the first rows as centers. -/
def pairing : Session Clusterer where
  procedure :=
    { clusters := .int 2
      parameters :=
        { Parameters.default with distance := .formula (.euclidean true), init := .text "random" }
      metricVersion := 0
      generator := ⟨Vector.replicate 624 0, 0⟩
      criterion := none
      iterations := 0 }
  notices := []

/-- Two points that are near each other and one that is not. -/
def triple : Dataset := .doubles (.ofList [0, 1, 10])

theorem run_pairing : ∃ outcome t, run 9 triple pairing = .ok outcome t ∧
    outcome.converged = true ∧ outcome.clusters.map Cluster.places = [[0, 1], [2]] := by
  have hrun : (match run 9 triple pairing with
      | .ok outcome _ => some (outcome.converged, outcome.clusters.map Cluster.places)
      | .error _ _ => none) = some (true, [[0, 1], [2]]) := by decide +kernel
  cases hresult : run 9 triple pairing with
  | error e t =>
    rw [hresult] at hrun
    cases hrun
  | ok outcome t =>
    rw [hresult] at hrun
    have hpair := Prod.mk.inj (Option.some.inj hrun)
    exact ⟨outcome, t, rfl, hpair.1, hpair.2⟩

theorem run_covers_pairing : ∃ outcome t points, run 9 triple pairing = .ok outcome t ∧
    pairing.procedure.validate triple = .ok points ∧ outcome.clusters.length = 2 ∧
    outcome.clusters.Divides points ∧ outcome.clusters.map Cluster.places = [[0, 1], [2]] := by
  rcases run_pairing with ⟨outcome, t, hrun, -, hplaces⟩
  rcases run_covers hrun with ⟨points, count, hpoints, hcount, -, -, hlength, hdivides, -⟩
  cases hcount
  exact ⟨outcome, t, points, hrun, hpoints, by omega, hdivides, hplaces⟩

end Clusterer

end Centroids

import Centroids.Proofs.Failure
import Centroids.Proofs.Keeping
import Centroids.Proofs.Prefix

/-! Runs that take no points.  With the strategy that refuses, a round that finds an empty cluster
fails, so every partition from which a run went on has members in all clusters.  The partition that
a run returns is not looked at again: it may have an empty cluster, unless its labels are those of
the partition before. -/
namespace Centroids

section Step

variable {α ω : Type} [Scalar α] [Sampled ω] [Widening α ω] {points : Points α}

namespace Update

variable {distance : Distance α ω} {all clusters : Partition α}

theorem mapM_center_refuse (hwithin : ∀ c ∈ clusters, c.Within points)
    (hempty : ∃ c ∈ clusters, c.isEmpty = true) (g : Generator) :
    clusters.mapM (center (.strategy .refuse) distance all) (.full g points.size) =
      .error .emptyCluster (.full g points.size) := by
  induction clusters with
  | nil => simp at hempty
  | cons c clusters ih =>
    have hc := hwithin c (List.mem_cons_self ..)
    rw [List.mapM_cons]
    cases hfirst : c.isEmpty with
    | true =>
      have hleft : c.left (Pool.full g points.size).available = [] :=
        hc.left_full.trans (hc.isEmpty_iff.1 hfirst)
      exact step_bind_of_error
        (center_error_of_none_left hc (Pool.length_full g points.size) hleft rfl)
    | false =>
      have hzero : c.points.size ≠ 0 := by
        intro hzero
        rw [show c.isEmpty = true from beq_iff_eq.2 hzero] at hfirst
        cases hfirst
      have hrest : ∃ d ∈ clusters, d.isEmpty = true := by
        obtain ⟨d, hd, hempty⟩ := hempty
        obtain rfl | hd := List.mem_cons.1 hd
        · rw [hfirst] at hempty
          cases hempty
        · exact ⟨d, hd, hempty⟩
      have htail := ih (fun d hd => hwithin d (List.mem_cons_of_mem _ hd)) hrest
      rw [step_bind_of_ok ((center_full hc).2 ⟨if_neg hzero, rfl⟩)]
      exact step_bind_of_error htail

/-- Where no point is taken, a partition with an empty cluster has no next centers. -/
theorem centers_refuse (h : clusters.Shares points) (hempty : ∃ c ∈ clusters, c.isEmpty = true)
    (g : Generator) : centers (.strategy .refuse) distance clusters g = .error .emptyCluster g := by
  have hne : ¬ clusters.isEmpty = true := by
    obtain ⟨c, hc, -⟩ := hempty
    intro hnil
    rw [List.isEmpty_iff.1 hnil] at hc
    cases hc
  have hmapM : clusters.mapM (center (.strategy .refuse) distance clusters) (.full g points.size) =
      .error .emptyCluster (.full g points.size) := mapM_center_refuse h.within hempty g
  unfold Pool.full at hmapM
  unfold centers
  rw [if_neg hne, h.total_eq]
  dsimp only
  rw [hmapM]

end Update

namespace Trial

variable {plan : Plan α} {count : Nat} (hrefuse : plan.handler = .strategy .refuse)
include hrefuse

/-- A round that finds an empty cluster fails. -/
theorem round_refuse {iteration : Nat} {clusters : Partition α} {j : Journal}
    (hshares : clusters.Shares points) (hempty : ∃ c ∈ clusters, c.isEmpty = true) :
    round plan points iteration clusters j = .error .emptyCluster j := by
  have hmove : move plan points clusters j.generator = .error .emptyCluster j.generator := by
    unfold move
    rw [hrefuse]
    exact step_bind_of_error (Update.centers_refuse hshares hempty j.generator)
  exact step_bind_of_error (Journal.draw_of_error hmove)

theorem Round.size_ne_zero {s t : Stage α} {met : Bool} (hs : s.Covers plan.metric points count)
    (h : Round plan points s met t) : ∀ c ∈ s.clusters, c.size ≠ 0 := by
  intro c hc hzero
  obtain ⟨before, hassigned, -⟩ := hs
  obtain ⟨labels, reseeded, hmove, -⟩ := h.moves
  obtain ⟨centers, hcenters, -⟩ := move_eq_ok.1 hmove
  rw [hrefuse, Update.centers_refuse hassigned.divides.toShares ⟨c, hc, beq_iff_eq.2 hzero⟩]
    at hcenters
  cases hcenters

/-- After a round that changed no label, all clusters have members still. -/
theorem Round.size_ne_zero_of_changes {s t : Stage α} {met : Bool}
    (hs : s.Covers plan.metric points count) (h : Round plan points s met t)
    (hsame : Partition.changes points.size s.clusters t.clusters = 0) :
    ∀ c ∈ t.clusters, c.size ≠ 0 := by
  have hsizes := h.size_ne_zero hrefuse hs
  obtain ⟨after, hnext, -⟩ := h.covers hs
  obtain ⟨before, hassigned, -⟩ := hs
  have hlabels := Partition.labels_eq_of_changes hsame
  rw [hnext.labels_eq, hassigned.labels_eq] at hlabels
  subst hlabels
  have hpoints : t.clusters.map (·.points) = s.clusters.map (·.points) := by
    rw [hnext.map_points, hassigned.map_points]
  intro c hc
  have hmem := List.mem_map_of_mem (f := fun c => c.points) hc
  rw [hpoints] at hmem
  obtain ⟨d, hd, hsame⟩ := List.mem_map.1 hmem
  have hsize := hsizes d hd
  unfold Cluster.size at hsize ⊢
  rwa [hsame] at hsize

omit hrefuse in
/-- Rounds that do not meet the criterion lead on to the stage that a run comes to. -/
theorem rounds_of_reaches {s t : Stage α} (hdetails : plan.verbosity.details.isSome)
    (h : Relation.ReflTransGen (Round plan points · false ·) s t) {iteration : Nat}
    {clusters : Partition α} {j : Journal} (hs : s = .of iteration clusters j) :
    ∃ n next k, t = .of (iteration + n) next k ∧ ∀ more,
      rounds plan points (n + more) iteration clusters j =
        rounds plan points more (iteration + n) next k := by
  induction h using Relation.ReflTransGen.head_induction_on generalizing iteration clusters j with
  | refl => exact ⟨0, clusters, j, hs, fun more => by rw [Nat.zero_add, Nat.add_zero]⟩
  | head hround _ ih =>
    subst hs
    obtain ⟨moved, k, hnext, hrounds⟩ := rounds_of_unmet hdetails hround
    obtain ⟨n, next, k', hlast, hmore⟩ := ih hnext
    refine ⟨n + 1, next, k', ?_, ?_⟩
    · rw [hlast]
      congr 1
      omega
    · intro more
      have hcount : n + 1 + more = n + more + 1 := by omega
      have hplace : iteration + (n + 1) = iteration + 1 + n := by omega
      rw [hcount, hrounds, hmore, hplace]

/-- A run that comes to an empty cluster before it is over fails. -/
theorem run_refuse {horizon : Nat} {j : Journal} {t : Stage α}
    (hdetails : plan.verbosity.details.isSome) (hpos : 0 < plan.clusters)
    (ht : Reaches plan points j.generator j.criterion t)
    (hgoing : isOver plan t.iteration = .ok false)
    (hhorizon : plan.limit = .unlimited → t.iteration < horizon)
    (hempty : ∃ c ∈ t.clusters, c.isEmpty = true) :
    ∃ k, run horizon plan points j = .error .emptyCluster k := by
  obtain ⟨before, hassigned, -⟩ := ht.covers hpos
  obtain ⟨clusters, labels, g, hstart, hreached⟩ := ht
  obtain ⟨n, next, k, rfl, hrounds⟩ := rounds_of_reaches hdetails hreached
    (j := ⟨g, { j.criterion.reset with previous := some (.ofList labels) }, j.notices⟩) rfl
  have hmore : ∃ more, plan.limit.horizon horizon = n + (more + 1) := by
    change isOver plan (0 + n) = .ok false at hgoing
    change plan.limit = .unlimited → 0 + n < horizon at hhorizon
    unfold isOver at hgoing
    cases hlimit : plan.limit with
    | unlimited =>
      refine ⟨horizon - n - 1, ?_⟩
      have := hhorizon hlimit
      change horizon = _
      omega
    | atMost m =>
      rw [hlimit] at hgoing
      have := of_decide_eq_false (Except.ok.inj hgoing)
      refine ⟨m - n, ?_⟩
      change m + 1 = _
      omega
    | unordered =>
      rw [hlimit] at hgoing
      cases hgoing
  obtain ⟨more, hmore⟩ := hmore
  refine ⟨k, ?_⟩
  rw [run_of_start hstart, hmore, hrounds]
  exact rounds_of_error hgoing (round_refuse hrefuse hassigned.divides.toShares hempty) more

end Trial

end Step

namespace Clusterer

variable {data : Dataset} {s t : Session Clusterer}

section Course

variable {outcome : Trial.Outcome Float32} {p : Prepared} {stage : Nat → Trial.Stage Float32}
  (h : Course data s outcome t p stage)
include h

theorem Course.size_ne_zero (hrefuse : p.plan.handler = .strategy .refuse) {i : Nat}
    (hi : i < outcome.iterations) : ∀ c ∈ (stage i).clusters, c.size ≠ 0 :=
  (h.stages.round i hi).size_ne_zero hrefuse (h.stages.covers h.pos hi.le)

/-- Where the last round changed no label, what is returned has members as what it began with. -/
theorem Course.size_ne_zero_of_unchanged (hrefuse : p.plan.handler = .strategy .refuse)
    {criterion : Criterion} (hcriterion : t.procedure.criterion = some criterion) {e : Entry}
    (hlast : criterion.history.getLast? = some e) (hsame : e.changed = 0) :
    ∀ c ∈ outcome.clusters, c.size ≠ 0 := by
  have hhistory := h.criterion_eq.symm.trans hcriterion
  cases Option.some.inj hhistory
  have hlength := h.stages.length_history h.pos h.patience_eq le_rfl
  cases hcount : outcome.iterations with
  | zero =>
    rw [hcount] at hlength hlast
    rw [List.length_eq_zero_iff.1 hlength] at hlast
    cases hlast
  | succ n =>
    have hn : n < outcome.iterations := by omega
    obtain ⟨last, hat, hdescribes, -⟩ := h.stages.exists_getElem?_history h.pos h.patience_eq hn
    rw [List.getLast?_eq_getElem?, hlength, hcount, Nat.add_sub_cancel, ← hcount, hat] at hlast
    cases hlast
    rw [hdescribes.changed_eq] at hsame
    rw [h.clusters_eq, hcount]
    exact (h.stages.round n hn).size_ne_zero_of_changes hrefuse (h.stages.covers h.pos hn.le) hsame

theorem Course.size_ne_zero_of_converged {tolerance : Numeral} (hconverged : outcome.converged = true)
    (htolerance : s.procedure.parameters.tol.numeral? = some tolerance)
    (hzero : tolerance.compare? (.int 0) = some .eq) (hrows : p.points.size ≤ 2 ^ 1074) :
    ∀ c ∈ outcome.clusters, c.size ≠ 0 := by
  have hpos := h.stages.pos_of_met hconverged
  have hlast : outcome.iterations - 1 + 1 = outcome.iterations := by omega
  have hround := h.stages.round (outcome.iterations - 1) (by omega)
  rw [hlast, hconverged, beq_self_eq_true] at hround
  have hmake := Criterion.numeral_of_make (prepare_eq_ok h.prepared).2.2.2
  rw [htolerance, ← (h.stages.asked_eq (Nat.sub_le outcome.iterations 1)).1] at hmake
  rw [Option.some.inj hmake] at hzero
  rw [h.clusters_eq]
  exact (hround.settled (h.stages.covers h.pos (Nat.sub_le _ 1)) hzero hrows).nonempty

end Course

/-- A run that takes no points goes on from no partition with an empty cluster: if it returns, no round
found one, and if it comes to one, it fails.  What it returns has no empty cluster where the last
round changed no label, as when the criterion is met with a tolerance of zero. -/
theorem run_refuses (hrefuse : s.procedure.parameters.strategy.resolve = .ok (.strategy .refuse))
    (horizon : Nat) :
    (∀ outcome t, run horizon data s = .ok outcome t →
      ∃ p stage criterion, Course data s outcome t p stage ∧
        t.procedure.criterion = some criterion ∧
        (∀ i < outcome.iterations, ∀ c ∈ (stage i).clusters, c.size ≠ 0) ∧
        (∀ e, criterion.history.getLast? = some e → e.changed = 0 →
          ∀ c ∈ outcome.clusters, c.size ≠ 0) ∧
        (outcome.converged = true → criterion.tolerance.compare? (.int 0) = some .eq →
          p.points.size ≤ 2 ^ 1074 → ∀ c ∈ outcome.clusters, c.size ≠ 0)) ∧
    ∀ p last, s.procedure.prepare data = .ok p → s.procedure.parameters.verbose.numeral?.isSome →
      Trial.Reaches p.plan p.points s.procedure.generator p.criterion last →
      Trial.isOver p.plan last.iteration = .ok false →
      (p.plan.limit = .unlimited → last.iteration < horizon) →
      (∃ c ∈ last.clusters, c.size = 0) → ∃ t, run horizon data s = .error .emptyCluster t := by
  constructor
  · intro outcome t hrun
    obtain ⟨p, stage, hcourse⟩ := exists_course hrun
    obtain ⟨criterion, hcriterion, htolerance, -⟩ := hcourse.exists_criterion
    have hplan := (plan_of_prepare hcourse.prepared).1
    rw [hrefuse] at hplan
    have hhandler := (Except.ok.inj hplan).symm
    refine ⟨p, stage, criterion, hcourse, hcriterion, ?_, ?_, ?_⟩
    · exact fun i hi => hcourse.size_ne_zero hhandler hi
    · exact fun e hlast hsame => hcourse.size_ne_zero_of_unchanged hhandler hcriterion hlast hsame
    · exact fun hmet hzero hrows => hcourse.size_ne_zero_of_converged hmet htolerance hzero hrows
  · intro p last hprepare hverbose hlast hgoing hhorizon hempty
    obtain ⟨hplan, -, -, hverbosity⟩ := plan_of_prepare hprepare
    rw [hrefuse] at hplan
    have hdetails : p.plan.verbosity.details.isSome := by
      rw [hverbosity]
      exact Verbosity.isSome_details hverbose
    have hpos := (count_of_prepare hprepare).1
    have hfound : ∃ c ∈ last.clusters, c.isEmpty = true := by
      obtain ⟨c, hc, hzero⟩ := hempty
      exact ⟨c, hc, beq_iff_eq.2 hzero⟩
    obtain ⟨k, htrial⟩ := Trial.run_refuse (Except.ok.inj hplan).symm (j := p.journal s) hdetails hpos
      hlast hgoing hhorizon hfound
    exact ⟨keep s k, run_eq_error.2 (.inr ⟨p, k, hprepare, htrial, rfl⟩)⟩

/-- As `pairing`, but no cluster takes a point. -/
def refusing : Session Clusterer :=
  { pairing with procedure := { pairing.procedure with parameters :=
    { pairing.procedure.parameters with strategy := .named .refuse } } }

/-- Two equal points: both centers are the same, and the second cluster is empty. -/
def twins : Dataset := .doubles (.ofList [1, 1])

/-- Three points of which two are near each other leave no cluster empty, and two equal points do. -/
theorem run_refuses_twins :
    (∃ outcome t, run 9 triple refusing = .ok outcome t ∧ ∀ c ∈ outcome.clusters, c.size ≠ 0) ∧
    ∃ t, run 9 twins refusing = .error .emptyCluster t := by
  constructor
  · have hlast : (match run 9 triple refusing with
        | .ok _ t => t.procedure.criterion.bind fun c => c.history.getLast?.map fun e => e.changed
        | .error _ _ => none) = some 0 := by decide +kernel
    cases hrun : run 9 triple refusing with
    | error e t =>
      rw [hrun] at hlast
      cases hlast
    | ok outcome t =>
      obtain ⟨p, stage, criterion, -, hcriterion, -, hsizes, -⟩ :=
        (run_refuses rfl 9).1 outcome t hrun
      rw [hrun] at hlast
      dsimp only at hlast
      rw [hcriterion] at hlast
      obtain ⟨e, he, hsame⟩ := Option.map_eq_some_iff.1 hlast
      exact ⟨outcome, t, rfl, hsizes e he hsame⟩
  · have hsizes : (match refusing.procedure.prepare twins with
        | .ok p => match Trial.start p.plan p.points refusing.procedure.generator with
          | .ok (clusters, _) _ => some (clusters.map fun c => c.size)
          | .error _ _ => none
        | .error _ => none) = some [2, 0] := by decide +kernel
    cases hprepare : refusing.procedure.prepare twins with
    | error e =>
      rw [hprepare] at hsizes
      cases hsizes
    | ok p =>
      rw [hprepare] at hsizes
      dsimp only at hsizes
      cases hstart : Trial.start p.plan p.points refusing.procedure.generator with
      | error e g =>
        rw [hstart] at hsizes
        cases hsizes
      | ok seeded g =>
        obtain ⟨clusters, labels⟩ := seeded
        rw [hstart] at hsizes
        have hzero : 0 ∈ clusters.map fun c => c.size := by
          rw [Option.some.inj hsizes]
          decide
        have hlimit : p.plan.limit = .unlimited :=
          (plan_of_prepare hprepare).2.2.1.trans (Trial.limit_eq_unlimited rfl (by decide))
        have hgoing : Trial.isOver p.plan 0 = .ok false := by
          unfold Trial.isOver
          rw [hlimit]
        have hreaches : Trial.Reaches p.plan p.points refusing.procedure.generator p.criterion
            ⟨0, clusters, g, { p.criterion.reset with previous := some (.ofList labels) }⟩ :=
          ⟨clusters, labels, g, hstart, .refl⟩
        exact (run_refuses rfl 9).2 p _ hprepare rfl hreaches hgoing (fun _ => Nat.succ_pos 8)
          (List.mem_map.1 hzero)

/-- As `refusing`, with three clusters and a tolerance of half the points. -/
def tolerant : Session Clusterer :=
  { refusing with procedure := { refusing.procedure with
    clusters := .int 3
    parameters := { refusing.procedure.parameters with tol := .double 0.5 } } }

/-- A round moves the center in the middle to where each point is nearer to another one. -/
def scattered : Dataset := .doubles (.ofList [-1, 0, 21, 10, 11, 11])

theorem exists_empty_of_sizes {horizon : Nat} {sizes : List Nat} {converged : Bool}
    (h : (match run horizon data s with
      | .ok outcome _ => some (outcome.converged, outcome.clusters.map fun c => c.size)
      | .error _ _ => none) = some (converged, sizes)) (hzero : 0 ∈ sizes) :
    ∃ outcome t, run horizon data s = .ok outcome t ∧ outcome.converged = converged ∧
      ∃ c ∈ outcome.clusters, c.size = 0 := by
  cases hrun : run horizon data s with
  | error e t =>
    rw [hrun] at h
    cases h
  | ok outcome t =>
    rw [hrun] at h
    obtain ⟨hconverged, hsizes⟩ := Prod.mk.inj (Option.some.inj h)
    rw [← hsizes] at hzero
    exact ⟨outcome, t, rfl, hconverged, List.mem_map.1 hzero⟩

/-- The last partition of a run is not looked at again: the one at the limit may have an empty cluster,
and so may one that differs little enough from that before. -/
theorem returns_empty_refusing :
    (bounded refusing (.int 0)).procedure.parameters.strategy.resolve = .ok (.strategy .refuse) ∧
    tolerant.procedure.parameters.strategy.resolve = .ok (.strategy .refuse) ∧
    (∃ outcome t, run 9 twins (bounded refusing (.int 0)) = .ok outcome t ∧
      outcome.converged = false ∧ ∃ c ∈ outcome.clusters, c.size = 0) ∧
    ∃ outcome t, run 9 scattered tolerant = .ok outcome t ∧
      outcome.converged = true ∧ ∃ c ∈ outcome.clusters, c.size = 0 := by
  refine ⟨rfl, rfl, ?_, ?_⟩
  · exact exists_empty_of_sizes (by decide +kernel :
      (match run 9 twins (bounded refusing (.int 0)) with
      | .ok outcome _ => some (outcome.converged, outcome.clusters.map fun c => c.size)
      | .error _ _ => none) = some (false, [2, 0])) (by decide)
  · exact exists_empty_of_sizes (by decide +kernel :
      (match run 9 scattered tolerant with
      | .ok outcome _ => some (outcome.converged, outcome.clusters.map fun c => c.size)
      | .error _ _ => none) = some (true, [2, 0, 4])) (by decide)

end Clusterer

end Centroids

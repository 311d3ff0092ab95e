import Centroids.Proofs.Fitting
import Centroids.Proofs.FixedPoint

/-! Rounds that take no point.  They move each center to the mean of its cluster, so where they lead
depends on the labels only, and labels that stay meet the criterion.  While no cluster is empty there
is one. -/
namespace Centroids

namespace Trial

variable {α ω : Type} [Scalar α] [Sampled ω] [Widening α ω]

/-- A round in which no cluster takes a point. -/
structure Kept (plan : Plan α) (points : Points α) (s : Stage α) (met : Bool) (t : Stage α) : Prop
    extends Round plan points s met t where
  keeps : ∃ labels, move plan points s.clusters s.generator =
    .ok (t.clusters, labels, false) t.generator

/-- What every round keeps of a run whose tolerance is not negative and whose criterion needs one
stable comparison. -/
structure Stage.Regular (metric : Metric α) (points : Points α) (count : Nat) (s : Stage α) :
    Prop where
  covers : s.Covers metric points count
  patience : s.criterion.patience = .int 1
  tolerance : Numeral.le (.int 0) s.criterion.tolerance = true

variable {plan : Plan α} {points : Points α} {count : Nat} {s t u v : Stage α} {met met' : Bool}

theorem Round.regular (hs : s.Regular plan.metric points count) (h : Round plan points s met t) :
    t.Regular plan.metric points count := by
  rcases h.moves with ⟨labels, reseeded, -, hcheck⟩
  have hkept := Criterion.check_eq_ok hcheck
  refine ⟨h.covers hs.covers, ?_, ?_⟩
  · rw [hkept.2.2, hs.patience]
  · rw [hkept.2.1, hs.tolerance]

/-- The stage before the first round of a run. -/
theorem regular_of_start {clusters : Partition α} {labels : List Int} {g g' : Generator}
    {tolerance : Value} {x : Numeral} {c : Criterion} (hpos : 0 < plan.clusters)
    (hmake : Criterion.make tolerance (.int 1) = .ok c) (hvalue : tolerance.numeral? = some x)
    (htolerance : Numeral.le (.int 0) x = true)
    (h : start plan points g = .ok (clusters, labels) g') :
    Stage.Regular plan.metric points plan.clusters.toNat
      ⟨0, clusters, g', { c.reset with previous := some (.ofList labels) }⟩ := by
  rcases Criterion.numerals_of_make hmake with ⟨htol, hpatience⟩
  rw [hvalue] at htol
  refine ⟨covers_of_start hpos h, (Option.some.inj hpatience).symm, ?_⟩
  rw [Option.some.inj htol] at htolerance
  exact htolerance

/-- The centers of a round that takes nothing are the means of the clusters before. -/
theorem Kept.means {labels : List Int} (hs : Assigned plan.metric points count s.clusters labels)
    (h : Kept plan points s met t) :
    s.clusters.mapM (·.points.mean) = .ok (t.clusters.map (·.center)) ∧
      ∃ next, assign plan points (t.clusters.map (·.center)) = .ok (t.clusters, next) := by
  rcases h.keeps with ⟨next, hmove⟩
  rcases move_eq_ok.1 hmove with ⟨centers, hcenters, hassign⟩
  rcases assigned_of_assign hassign with ⟨-, rfl⟩
  exact ⟨((Update.centers_kept hs.divides.toShares).1 hcenters).2.1, next, hassign⟩

theorem Kept.exists_mean {labels : List Int}
    (hs : Assigned plan.metric points count s.clusters labels) (h : Kept plan points s met t)
    {c : Cluster α} (hc : c ∈ s.clusters) :
    ∃ mean ∈ t.clusters.map (·.center), c.points.mean = .ok mean := by
  have hmem := List.mem_map_of_mem (f := fun c => c.points.mean) hc
  rw [mapM_eq_ok.1 (h.means hs).1] at hmem
  rcases List.mem_map.1 hmem with ⟨mean, hmem, hmean⟩
  exact ⟨mean, hmem, hmean.symm⟩

/-- Where a round that takes nothing leads depends on the labels only. -/
theorem Kept.clusters_eq (hs : s.Covers plan.metric points count)
    (hu : u.Covers plan.metric points count)
    (hsame : s.clusters.labels points.size = u.clusters.labels points.size)
    (h : Kept plan points s met t) (h' : Kept plan points u met' v) : t.clusters = v.clusters := by
  rcases hs with ⟨labels, hs, -⟩
  rcases hu with ⟨others, hu, -⟩
  rw [hs.labels_eq, hu.labels_eq] at hsame
  subst hsame
  rcases h.means hs with ⟨hmeans, next, hassign⟩
  rcases h'.means hu with ⟨hmeans', next', hassign'⟩
  have hpoints : s.clusters.map (·.points) = u.clusters.map (·.points) := by
    rw [hs.map_points, hu.map_points]
  have hmap := congrArg (List.map Points.mean) hpoints
  rw [List.map_map, List.map_map] at hmap
  have hcenters : t.clusters.map (·.center) = v.clusters.map (·.center) := by
    rw [mapM_eq_ok] at hmeans hmeans'
    have hoks := hmeans.symm.trans (hmap.trans hmeans')
    exact List.map_injective_iff.2 (fun _ _ => Except.ok.inj) hoks
  rw [hcenters, hassign'] at hassign
  exact (Prod.mk.inj (Except.ok.inj hassign)).1.symm

/-- Before a round that takes nothing and does not meet the criterion, some center is not the mean of
its cluster. -/
theorem Kept.exists_mean_ne (hs : s.Regular plan.metric points count)
    (h : Kept plan points s false t) : ∃ c ∈ s.clusters, c.points.mean ≠ .ok c.center := by
  by_contra hnone
  push Not at hnone
  rcases hs.covers with ⟨labels, hassigned, hprevious⟩
  rcases h.keeps with ⟨next, hmove⟩
  rcases h.moves with ⟨others, reseeded, hmoves, hcheck⟩
  rw [hmove] at hmoves
  cases hmoves
  rcases move_eq_ok.1 hmove with ⟨centers, -, hassign⟩
  have hmeans := (h.means hassigned).1
  have hcenters : s.clusters.map (·.center) = t.clusters.map (·.center) := by
    rw [mapM_eq_ok, List.map_congr_left hnone] at hmeans
    apply List.map_injective_iff.2 fun _ _ => Except.ok.inj
    rw [List.map_map]
    exact hmeans
  -- The same centers give the same labels, and these meet the criterion.
  have hlabelled := (assigned_of_assign hassign).1.labelled
  rw [← hcenters, hassigned.labelled] at hlabelled
  cases hlabelled
  rcases Criterion.met_of_eq hprevious hs.patience hs.tolerance with ⟨c, hmet⟩
  rw [hmet] at hcheck
  cases hcheck

/-- While no cluster is empty, there is a round that takes nothing. -/
theorem exists_kept {f : Formula α} {width : Nat} (hmetric : plan.metric = .formula f)
    (hfit : f.width? points.dim points.dim = some width) (hs : s.Covers plan.metric points count)
    (hstop : isOver plan s.iteration = .ok false) (hsizes : ∀ c ∈ s.clusters, c.size ≠ 0) :
    ∃ met t, Kept plan points s met t := by
  have ⟨labels, hassigned, _⟩ := hs
  have hmeans : ∀ c ∈ s.clusters, ∃ mean, c.points.mean = .ok mean :=
    fun c hc => ⟨_, if_neg (hsizes c hc)⟩
  rcases exists_mapM_eq_ok hmeans with ⟨centers, hcenters⟩
  have hshares := hassigned.divides.toShares
  have hlength := hshares.length_of_means hcenters
  have hcentersne : centers ≠ [] := by
    apply List.ne_nil_of_length_pos
    rw [length_of_mapM_eq_ok hcenters]
    exact List.length_pos_iff.2 hassigned.ne_nil
  rcases exists_assign hmetric hfit hcentersne hlength with ⟨next, others, hassign⟩
  have hmove : move plan points s.clusters s.generator = .ok (next, others, false) s.generator :=
    move_eq_ok.2
      ⟨centers, (Update.centers_kept hshares).2 ⟨hassigned.ne_nil, hcenters, rfl⟩, hassign⟩
  rcases exists_round_of_move hs hstop hmove with ⟨met, c, hround⟩
  exact ⟨met, _, hround, others, hmove⟩

end Trial

end Centroids

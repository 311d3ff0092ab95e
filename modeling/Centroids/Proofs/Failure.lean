import Centroids.Proofs.Sampling
import Centroids.Proofs.Walk

/-! How a run on valid data can fail.  Where the metric fits the points and there are no more clusters
than points, only two things stop a run with a limit: weights that are no probabilities, on the way
to the first centers, and donors whose measures cannot be compared, while a cluster is empty. -/
namespace Centroids

variable {α ω : Type} [Scalar α] [Sampled ω] [Widening α ω] {points : Points α}

/-- A cluster with the most rows left can always be chosen. -/
theorem Update.Stuck.ne_largestCount {strategy : Strategy} {distance : Distance α ω}
    {clusters : Partition α} (h : Update.Stuck points strategy distance clusters) :
    strategy ≠ .largestCount := by
  rintro rfl
  rcases h with ⟨available, -, -, ⟨c, hc, hleft⟩, hrefused⟩
  exact hrefused c hc hleft trivial

namespace Trial

variable {plan : Plan α} {f : Formula α} {width count : Nat}

/-- The stages to which a run comes from the seeding, by rounds that do not meet the criterion. -/
def Reaches (plan : Plan α) (points : Points α) (g : Generator) (c : Criterion) (t : Stage α) :
    Prop :=
  ∃ clusters labels g', start plan points g = .ok (clusters, labels) g' ∧
    Relation.ReflTransGen (Round plan points · false ·)
      ⟨0, clusters, g', { c.reset with previous := some (.ofList labels) }⟩ t

theorem Reaches.covers {g : Generator} {c : Criterion} {t : Stage α} (hpos : 0 < plan.clusters)
    (h : Reaches plan points g c t) : t.Covers plan.metric points plan.clusters.toNat := by
  obtain ⟨clusters, labels, g', hstart, hreached⟩ := h
  induction hreached with
  | refl => exact covers_of_start hpos hstart
  | tail _ hround ih => exact hround.covers ih

/-- Where each round can be run, or fails for want of a point, rounds end, fail at a stage that they
come to, or are given up at their horizon. -/
theorem rounds_ends {holds : Stage α → Prop} {fails : Partition α → Prop}
    (hdetails : plan.verbosity.details.isSome) (hordered : plan.limit ≠ .unordered)
    (hkeeps : ∀ s met t, holds s → Round plan points s met t → holds t)
    (hround : ∀ iteration clusters j, holds (.of iteration clusters j) →
      isOver plan iteration = .ok false →
      (∃ met t, Round plan points (.of iteration clusters j) met t) ∨
        fails clusters ∧ ∃ k, round plan points iteration clusters j = .error .emptyCluster k)
    (horizon : Nat) {iteration : Nat} {clusters : Partition α} {j : Journal}
    (hs : holds (.of iteration clusters j)) :
    (∃ outcome k, rounds plan points horizon iteration clusters j = .ok outcome k) ∨
      ((∃ t, Relation.ReflTransGen (Round plan points · false ·) (.of iteration clusters j) t ∧
          fails t.clusters) ∧
        ∃ k, rounds plan points horizon iteration clusters j = .error .emptyCluster k) ∨
      (∀ i, iteration ≤ i → i < iteration + horizon → isOver plan i = .ok false) ∧
        ∃ k, rounds plan points horizon iteration clusters j = .error .stalled k := by
  induction horizon generalizing iteration clusters j with
  | zero => exact .inr (.inr ⟨fun i hle hlt => by omega, j, rfl⟩)
  | succ horizon ih =>
    cases hover : isOver plan iteration with
    | error e =>
      unfold isOver at hover
      cases hlimit : plan.limit with
      | unordered => exact absurd hlimit hordered
      | unlimited =>
        rw [hlimit] at hover
        cases hover
      | atMost n =>
        rw [hlimit] at hover
        cases hover
    | ok stop =>
      cases stop with
      | true => exact .inl ⟨_, j, rounds_of_over hover horizon⟩
      | false =>
        obtain ⟨met, t, hnext⟩ | ⟨hfails, k, herror⟩ := hround iteration clusters j hs hover
        · cases met with
          | true =>
            obtain ⟨k, hend, -⟩ := rounds_of_met hdetails hnext horizon
            exact .inl ⟨_, k, hend⟩
          | false =>
            obtain ⟨next, k, rfl, hrounds⟩ := rounds_of_unmet hdetails hnext
            rw [hrounds]
            obtain hend | ⟨⟨t, ht, hfails⟩, herror⟩ | ⟨hgoing, hstalled⟩ := ih (hkeeps _ _ _ hs hnext)
            · exact .inl hend
            · exact .inr (.inl ⟨⟨t, .head hnext ht, hfails⟩, herror⟩)
            · refine .inr (.inr ⟨?_, hstalled⟩)
              intro i hle hlt
              obtain rfl | hmore := Nat.eq_or_lt_of_le hle
              · exact hover
              · exact hgoing i hmore (by omega)
        · exact .inr (.inl ⟨⟨_, .refl, hfails⟩, k, rounds_of_error hover herror horizon⟩)

section Fit

variable (hmetric : plan.metric = .formula f)
  (hfit : f.width? points.dim points.dim = some width)
include hmetric hfit

theorem exists_start_of_centers {centers : List (List α)} {g g' : Generator}
    (hpos : 0 < plan.clusters)
    (h : plan.seeding.centers plan.metric points plan.clusters g = .ok centers g') :
    ∃ clusters labels, start plan points g = .ok (clusters, labels) g' := by
  have hne : centers ≠ [] := by
    apply List.ne_nil_of_length_pos
    rw [Seeding.length_centers hpos h]
    omega
  obtain ⟨clusters, labels, hassign⟩ := exists_assign hmetric hfit hne (Seeding.length_of_centers h)
  refine ⟨clusters, labels, ?_⟩
  unfold start
  rw [step_bind_of_ok h]
  exact step_lift_eq_ok.2 ⟨hassign, rfl⟩

theorem start_cases (hpos : 0 < plan.clusters) (hle : plan.clusters ≤ points.size)
    (hseeding : plan.seeding = .spread 1 ∨ plan.seeding = .random) (g : Generator) :
    (∃ clusters labels g', start plan points g = .ok (clusters, labels) g') ∨
      (plan.seeding = .spread 1 ∧ ∃ s : Spread ω,
          plan.seeding.Draws plan.metric points plan.clusters g s ∧
          s.Chosen plan.metric points ∧ s.Unsampled) ∧
        ∃ g', start plan points g = .error .samplingWeights g' := by
  have hcases := Seeding.centers_cases hfit hpos hle hseeding g
  rw [← hmetric] at hcases
  rcases hcases with ⟨centers, g', hcenters⟩ | ⟨hnone, g', herror⟩
  · obtain ⟨clusters, labels, hstart⟩ := exists_start_of_centers hmetric hfit hpos hcenters
    exact .inl ⟨clusters, labels, g', hstart⟩
  · refine .inr ⟨hnone, g', ?_⟩
    unfold start
    exact step_bind_of_error herror

section Strategy

variable {strategy : Strategy} (hhandler : plan.handler = strategy) (hstrategy : strategy ≠ .refuse)
include hhandler hstrategy

theorem move_cases {clusters : Partition α} (hshares : clusters.Shares points) (hne : clusters ≠ [])
    (hle : clusters.length ≤ points.size) (g : Generator) :
    (∃ next labels reseeded g', move plan points clusters g = .ok (next, labels, reseeded) g') ∨
      Update.Stuck points strategy (.metric plan.metric) clusters ∧
        ∃ g', move plan points clusters g = .error .emptyCluster g' := by
  have hmeasures := measures_of_shares (ω := ω) hmetric hfit hstrategy hshares
  rcases Update.centers_cases (g := g) hshares hne hle hmeasures with
    ⟨centers, reseeded, g', hcenters, hwalk⟩ | ⟨⟨g', herror⟩, hstuck⟩
  · left
    rw [← hhandler] at hcenters
    have hcentersne := hwalk.ne_nil hne
    have hlength := hwalk.length_center List.length_replicate
    rcases exists_assign hmetric hfit hcentersne hlength with ⟨next, labels, hassign⟩
    exact ⟨next, labels, reseeded, g', move_eq_ok.2 ⟨centers, hcenters, hassign⟩⟩
  · right
    rw [← hhandler] at herror
    refine ⟨hstuck, g', ?_⟩
    unfold move
    exact step_bind_of_error herror

theorem round_cases {iteration : Nat} {clusters : Partition α} {j : Journal}
    (hle : count ≤ points.size) (hstop : isOver plan iteration = .ok false)
    (hs : (Stage.of iteration clusters j).Covers plan.metric points count) :
    (∃ met t, Round plan points (.of iteration clusters j) met t) ∨
      Update.Stuck points strategy (.metric plan.metric) clusters ∧
        ∃ k, round plan points iteration clusters j = .error .emptyCluster k := by
  have ⟨labels, hassigned, _⟩ := hs
  have hcount := hassigned.length_eq
  rcases move_cases hmetric hfit hhandler hstrategy hassigned.divides.toShares hassigned.ne_nil
    (hcount ▸ hle) j.generator with ⟨next, labels, reseeded, g', hmove⟩ | ⟨hstuck, g', herror⟩
  · rcases exists_round_of_move hs hstop hmove with ⟨met, c, hround⟩
    exact .inl ⟨met, _, hround⟩
  · right
    refine ⟨hstuck, { j with generator := g' }, ?_⟩
    exact step_bind_of_error (Journal.draw_of_error herror)

/-- Rounds up to a limit end, or come to a cluster that cannot be filled. -/
theorem rounds_cases {limit horizon iteration : Nat} {clusters : Partition α} {j : Journal}
    (hdetails : plan.verbosity.details.isSome) (hlimit : plan.limit = .atMost limit)
    (hle : count ≤ points.size) (hiteration : iteration ≤ limit)
    (hhorizon : limit < iteration + horizon)
    (hs : (Stage.of iteration clusters j).Covers plan.metric points count) :
    (∃ outcome k, rounds plan points horizon iteration clusters j = .ok outcome k) ∨
      (∃ t, Relation.ReflTransGen (Round plan points · false ·) (.of iteration clusters j) t ∧
        Update.Stuck points strategy (.metric plan.metric) t.clusters) ∧
        ∃ k, rounds plan points horizon iteration clusters j = .error .emptyCluster k := by
  have hordered : plan.limit ≠ .unordered := by
    rw [hlimit]
    exact Limit.noConfusion
  have hround : ∀ iteration clusters j,
      (Stage.of iteration clusters j).Covers plan.metric points count →
      isOver plan iteration = .ok false →
      (∃ met t, Round plan points (.of iteration clusters j) met t) ∨
        Update.Stuck points strategy (.metric plan.metric) clusters ∧
          ∃ k, round plan points iteration clusters j = .error .emptyCluster k :=
    fun _ _ _ hs hstop => round_cases hmetric hfit hhandler hstrategy hle hstop hs
  obtain hend | hstuck | ⟨hgoing, -⟩ := rounds_ends hdetails hordered
    (fun _ _ _ hs hround => hround.covers hs) hround horizon hs
  · exact .inl hend
  · exact .inr hstuck
  · have hover := hgoing limit hiteration hhorizon
    unfold isOver at hover
    rw [hlimit] at hover
    have := Except.ok.inj hover
    simp at this

/-- A run with a limit ends, or fails in one of two ways. -/
theorem run_cases {limit : Nat} (hdetails : plan.verbosity.details.isSome)
    (hlimit : plan.limit = .atMost limit)
    (hpos : 0 < plan.clusters) (hle : plan.clusters ≤ points.size)
    (hseeding : plan.seeding = .spread 1 ∨ plan.seeding = .random) (horizon : Nat) (j : Journal) :
    (∃ outcome k, run horizon plan points j = .ok outcome k) ∨
      (plan.seeding.CanFail plan.metric points ∧
        ∃ k, run horizon plan points j = .error .samplingWeights k) ∨
      (∃ t, Reaches plan points j.generator j.criterion t ∧
        Update.Stuck points strategy (.metric plan.metric) t.clusters) ∧
        ∃ k, run horizon plan points j = .error .emptyCluster k := by
  rcases start_cases hmetric hfit hpos hle hseeding j.generator with
    ⟨clusters, labels, g, hstart⟩ | ⟨⟨hspread, s, -, hnone⟩, g, herror⟩
  · have hcovers : (Stage.of 0 clusters ⟨g,
        { j.criterion.reset with previous := some (.ofList labels) }, j.notices⟩).Covers
          plan.metric points plan.clusters.toNat := covers_of_start hpos hstart
    have hcount : plan.clusters.toNat ≤ points.size := by omega
    have hhorizon : plan.limit.horizon horizon = limit + 1 := by
      rw [hlimit]
      rfl
    rw [run_of_start hstart, hhorizon]
    have hlast : limit < 0 + (limit + 1) := by omega
    rcases rounds_cases hmetric hfit hhandler hstrategy hdetails hlimit hcount (Nat.zero_le limit)
      hlast hcovers with hend | ⟨⟨t, ht, hstuck⟩, herror⟩
    · exact .inl hend
    · exact .inr (.inr ⟨⟨t, ⟨clusters, labels, g, hstart, ht⟩, hstuck⟩, herror⟩)
  · right
    left
    refine ⟨⟨hspread, s, hnone⟩, { j with generator := g }, ?_⟩
    exact run_of_start_error herror horizon

end Strategy

end Fit

end Trial

/-- All metrics with a name fit any points. -/
theorem Metric.fit_of_name {α : Type} {name : String} {metric : Metric α}
    (h : ofName? name = some metric) :
    ∃ f, metric = .formula f ∧ ∀ dim, f.width? dim dim = some dim := by
  unfold ofName? at h
  split at h <;> cases h <;> exact ⟨_, rfl, Grid.joinLength?_self⟩

theorem Seeding.eq_or_of_value {v : Value} {seeding : Seeding} (h : ofValue v = .ok seeding) :
    seeding = .spread 1 ∨ seeding = .random := by
  unfold ofValue at h
  split at h <;> cases h
  · exact .inl rfl
  · exact .inr rfl

theorem Criterion.exists_make {tolerance : Value} {x : Numeral}
    (hvalue : tolerance.numeral? = some x) (hnonneg : x.lt (.int 0) = false) :
    ∃ c, make tolerance (.int 1) = .ok c := by
  unfold make
  rw [hvalue]
  dsimp only
  rw [hnonneg]
  exact ⟨_, rfl⟩

namespace Clusterer

/-- Valid data and options: at most as many clusters as there are points, a metric with a name, one of
the ways of seeding, a strategy that takes points, a tolerance that is not negative and a limit. -/
structure Workable (c : Clusterer) (data : Dataset) (points : Points Float32) (seeding : Seeding)
    (strategy : Strategy) : Prop where
  validated : c.validate data = .ok points
  feasible : ∃ count, c.clusters = .int count ∧ 0 < count ∧ count ≤ points.size
  named : ∃ name, Metric.ofName? name = some c.parameters.distance
  seeded : Seeding.ofValue c.parameters.init = .ok seeding
  resolved : c.parameters.strategy.resolve = .ok (.strategy strategy)
  takes : strategy ≠ .refuse
  tolerant : ∃ x, c.parameters.tol.numeral? = some x ∧ x.lt (.int 0) = false
  limited : ∃ limit, Limit.ofValue c.parameters.maxIter = .atMost limit
  verbose : c.parameters.verbose.numeral?.isSome

variable {points : Points Float32} {seeding : Seeding} {strategy : Strategy} {data : Dataset}

theorem Workable.exists_prepare {c : Clusterer} (h : c.Workable data points seeding strategy) :
    ∃ (count : Int) (criterion : Criterion), 0 < count ∧ count ≤ points.size ∧
      c.prepare data = .ok ⟨points, ⟨count, seeding, c.parameters.distance, strategy,
        .ofValue c.parameters.maxIter, .ofValue c.parameters.verbose⟩, criterion⟩ := by
  rcases h.feasible with ⟨count, hclusters, hpos, hle⟩
  rcases h.tolerant with ⟨x, hvalue, hnonneg⟩
  rcases Criterion.exists_make hvalue hnonneg with ⟨criterion, hmake⟩
  have hcount := clusterCount_eq_ok.2 ⟨hclusters, hpos, hle⟩
  have hcomponents : c.components = .ok ⟨strategy, seeding, criterion⟩ := by
    unfold components
    rw [h.resolved, h.seeded, hmake]
    rfl
  refine ⟨count, criterion, hpos, hle, ?_⟩
  unfold prepare
  rw [h.validated]
  change (clusterCount points.size c.clusters >>= _) = _
  rw [hcount, hcomponents]
  rfl

variable {s : Session Clusterer}

/-- A prepared run ends as its trial does. -/
theorem run_of_prepare {p : Prepared} (h : s.procedure.prepare data = .ok p) (horizon : Nat) :
    ∃ j : Journal, j.generator = s.procedure.generator ∧ j.criterion = p.criterion ∧
      (∀ outcome k, Trial.run horizon p.plan p.points j = .ok outcome k →
        ∃ t, run horizon data s = .ok outcome t) ∧
      ∀ e k, Trial.run horizon p.plan p.points j = .error e k →
        ∃ t, run horizon data s = .error e t := by
  refine ⟨p.journal s, rfl, rfl, ?_, ?_⟩
  · intro outcome k hrun
    exact ⟨p.finish s outcome k, by rw [run_eq h, hrun]⟩
  · intro e k hrun
    exact ⟨keep s k, by rw [run_eq h, hrun]⟩

/-- A run on valid data, with valid options, returns or fails in one of two ways.  Either weights on
the way to the first centers are no probabilities, or rounds lead to clusters of which one is
empty while no other can be chosen to give a point. -/
theorem run_returns_or_fails (h : s.procedure.Workable data points seeding strategy)
    (horizon : Nat) :
    (∃ outcome t, run horizon data s = .ok outcome t) ∨
      (seeding.CanFail s.procedure.parameters.distance points ∧
        ∃ t, run horizon data s = .error .samplingWeights t) ∨
      ∃ p last, s.procedure.prepare data = .ok p ∧
        Trial.Reaches p.plan points s.procedure.generator p.criterion last ∧
        Update.Stuck points strategy (.metric s.procedure.parameters.distance) last.clusters ∧
        strategy ≠ .largestCount ∧ ∃ t, run horizon data s = .error .emptyCluster t := by
  rcases h.exists_prepare with ⟨count, criterion, hpos, hle, hprepare⟩
  rcases run_of_prepare hprepare horizon with ⟨j, hgenerator, hcriterion, hok, herror⟩
  rcases h.named with ⟨name, hname⟩
  rcases Metric.fit_of_name hname with ⟨f, hmetric, hfit⟩
  rcases h.limited with ⟨limit, hlimit⟩
  have hseeding := Seeding.eq_or_of_value h.seeded
  have hdetails := Verbosity.isSome_details h.verbose
  rcases @Trial.run_cases _ _ _ _ _ points ⟨count, seeding, _, strategy, _, _⟩ f _ hmetric
    (hfit points.dim) strategy rfl h.takes limit hdetails hlimit hpos hle hseeding horizon j with
    ⟨outcome, k, hrun⟩ | ⟨hnone, k, hrun⟩ | ⟨⟨last, hlast, hstuck⟩, k, hrun⟩
  · exact .inl ⟨outcome, hok outcome k hrun⟩
  · exact .inr (.inl ⟨hnone, herror _ k hrun⟩)
  · right
    right
    rw [hgenerator, hcriterion] at hlast
    exact ⟨_, last, hprepare, hlast, hstuck, hstuck.ne_largestCount, herror _ k hrun⟩

/-- As `pairing`, with a limit, and with the greatest cluster as the donor. -/
def limited : Session Clusterer :=
  { pairing with procedure := { pairing.procedure with parameters :=
    { pairing.procedure.parameters with strategy := .named .largestCount, maxIter := .int 10 } } }

theorem exists_validate {c : Clusterer} {size : Nat}
    (h : (c.validate data).map Points.size = .ok size) :
    ∃ points, c.validate data = .ok points ∧ points.size = size := by
  rcases map_eq_ok.1 h with ⟨points, hpoints, hsize⟩
  exact ⟨points, hpoints, hsize⟩

/-- Neither way to fail is open where the first centers are a permutation's and the greatest cluster
gives. -/
theorem run_returns_limited : ∃ outcome t, run 9 triple limited = .ok outcome t := by
  have hthree : (limited.procedure.validate triple).map Points.size = .ok 3 := by decide +kernel
  rcases exists_validate hthree with ⟨points, hpoints, hsize⟩
  have hworkable : limited.procedure.Workable triple points .random .largestCount :=
    { validated := hpoints
      feasible := ⟨2, rfl, by decide, by omega⟩
      named := ⟨"sqeuclidean", rfl⟩
      seeded := rfl
      resolved := rfl
      takes := by decide
      tolerant := ⟨_, rfl, by decide +kernel⟩
      limited := ⟨10, Limit.ofValue_int (by decide)⟩
      verbose := rfl }
  rcases run_returns_or_fails hworkable 9 with
    hreturns | ⟨⟨hspread, -⟩, -⟩ | ⟨p, last, -, -, -, hcount, -⟩
  · exact hreturns
  · cases hspread
  · exact absurd rfl hcount

/-- As `pairing`, with a limit, and with rows drawn by the squares of squared distances. -/
def weighing : Session Clusterer :=
  { pairing with procedure := { pairing.procedure with parameters :=
    { pairing.procedure.parameters with init := .text "k-means++", maxIter := .int 10 } } }

/-- Finite numbers whose difference has a finite square, but no finite fourth power. -/
def sparse : Dataset := .doubles (.ofList [0, 1e10])

/-- Valid data and valid options, but the weight of the row that is left is infinite, and infinity in
relation to infinity is a NaN. -/
theorem cluster_fails_sparse : ∃ points,
    weighing.procedure.Workable sparse points (.spread 1) .largestVariance ∧
      ∃ t, cluster sparse weighing = .error .samplingWeights t := by
  have htwo : (weighing.procedure.validate sparse).map Points.size = .ok 2 := by decide +kernel
  have hfails : (match cluster sparse weighing with
      | .error .samplingWeights _ => true
      | _ => false) = true := by decide +kernel
  rcases exists_validate htwo with ⟨points, hpoints, hsize⟩
  refine ⟨points, ?_, ?_⟩
  · exact
      { validated := hpoints
        feasible := ⟨2, rfl, by decide, by omega⟩
        named := ⟨"sqeuclidean", rfl⟩
        seeded := rfl
        resolved := rfl
        takes := by decide
        tolerant := ⟨_, rfl, by decide +kernel⟩
        limited := ⟨10, Limit.ofValue_int (by decide)⟩
        verbose := rfl }
  · split at hfails
    · exact ⟨_, by assumption⟩
    · cases hfails

end Clusterer

end Centroids

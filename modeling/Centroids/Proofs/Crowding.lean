import Centroids.Proofs.Duplicates
import Centroids.Proofs.Refusal
import Centroids.Proofs.Weighing

/-! Fewer distinct rows than clusters.  Equal rows have one label, so every assignment leaves clusters
empty, and a round that begins with an empty cluster is not stable.  As long as distances are finite,
a run that takes points for empty clusters goes on to its limit; one that takes none fails in its
first round. -/
namespace Centroids

namespace Trial

section Step

variable {α ω : Type} [Scalar α] [Sampled ω] [Widening α ω] {plan : Plan α} {points : Points α}
  {count : Nat} {g : Generator} {c : Criterion} {s t : Stage α} {met : Bool}

/-- A round that begins with an empty cluster does not meet the criterion. -/
theorem Round.met_eq_false (hs : s.Covers plan.metric points count)
    (hempty : ∃ c ∈ s.clusters, c.isEmpty = true) (h : Round plan points s met t) :
    met = false := by
  obtain ⟨before, hassigned, hprevious⟩ := hs
  obtain ⟨labels, reseeded, hmove, hcheck⟩ := h.moves
  obtain ⟨centers, hcenters, hassign⟩ := move_eq_ok.1 hmove
  have hreseeded := (Update.reseeded_iff hassigned.divides.toShares hcenters).2 hempty
  have hlength := (assigned_of_assign hassign).1.length_labels.trans hassigned.length_labels.symm
  rw [Criterion.check_next hprevious (Criterion.compare_ofList hlength)] at hcheck
  have hmet := (Prod.mk.inj (Except.ok.inj hcheck)).1
  rw [← hmet, ← Bool.not_eq_true]
  intro hstable
  have hkept := (Criterion.isStable_eq_true.1 (Criterion.isMet_record hstable)).2
  exact Bool.noConfusion (hreseeded.symm.trans hkept)

theorem Reaches.round (h : Reaches plan points g c s) (hround : Round plan points s false t) :
    Reaches plan points g c t := by
  obtain ⟨clusters, labels, g', hstart, hreached⟩ := h
  exact ⟨clusters, labels, g', hstart, hreached.tail hround⟩

end Step

/-- The distances that a run computes are finite, and so are the squared ones of its seeding. -/
structure FiniteDistances (plan : Plan Float32) (points : Points Float32) (g : Generator)
    (c : Criterion) : Prop where
  squares : ∀ s : Spread Float, plan.seeding.Draws plan.metric points plan.clusters g s →
    ∀ row ∈ s.chosen, ∀ ds : List Float, Spread.squares plan.metric points row = .ok ds →
      ∀ d ∈ ds, Scalar.isFinite d = true
  distances : ∀ t, Reaches plan points g c t → ∀ d ∈ t.clusters, ∀ ds,
    plan.metric.distances points d.center = .ok ds → ∀ x ∈ ds, Scalar.isFinite x = true

section Check

variable {β : Type} [Scalar β] {plan : Plan Float32} {points : Points Float32} {m : Nat}

def allFinite (result : Except Fault (List β)) : Bool :=
  match result with
  | .ok ds => ds.all Scalar.isFinite
  | .error _ => true

theorem isFinite_of_allFinite {result : Except Fault (List β)} {ds : List β}
    (h : allFinite result = true) (hresult : result = .ok ds) :
    ∀ d ∈ ds, Scalar.isFinite d = true := by
  rw [hresult] at h
  exact List.all_eq_true.1 h

/-- Whether the distances from the centers are finite, there and after each of so many rounds. -/
def stayFinite (plan : Plan Float32) (points : Points Float32) :
    Nat → Partition Float32 → Generator → Bool
  | 0, clusters, _ => clusters.all fun d => allFinite (plan.metric.distances points d.center)
  | rounds + 1, clusters, g =>
    (clusters.all fun d => allFinite (plan.metric.distances points d.center)) &&
      match move plan points clusters g with
      | .ok (next, _, _) g' => stayFinite plan points rounds next g'
      | .error _ _ => true

/-- Whether all distances of a run with so many rounds are finite. -/
def runsFinite (plan : Plan Float32) (points : Points Float32) (g : Generator) (rounds : Nat) :
    Bool :=
  ((List.range points.size).all fun row =>
    allFinite (Spread.squares plan.metric points row : Except Fault (List Float))) &&
    match start plan points g with
    | .ok (clusters, _) g' => stayFinite plan points rounds clusters g'
    | .error _ _ => true

variable (hlimit : plan.limit = .atMost m)
include hlimit

theorem allFinite_of_reaches {s t : Stage Float32} {rounds : Nat}
    (h : Relation.ReflTransGen (Round plan points · false ·) s t)
    (hrounds : s.iteration + rounds = m)
    (hfinite : stayFinite plan points rounds s.clusters s.generator = true) :
    ∀ d ∈ t.clusters, allFinite (plan.metric.distances points d.center) = true := by
  induction h using Relation.ReflTransGen.head_induction_on generalizing rounds with
  | refl =>
    cases rounds with
    | zero => exact List.all_eq_true.1 hfinite
    | succ rounds => exact List.all_eq_true.1 (Bool.and_eq_true_iff.1 hfinite).1
  | head hround _ ih =>
    cases rounds with
    | zero =>
      have hgoing := hround.not_stopped
      unfold isOver at hgoing
      rw [hlimit] at hgoing
      have := of_decide_eq_false (Except.ok.inj hgoing)
      omega
    | succ rounds =>
      obtain ⟨labels, reseeded, hmove, -⟩ := hround.moves
      have hnext := (Bool.and_eq_true_iff.1 hfinite).2
      rw [hmove] at hnext
      refine ih ?_ hnext
      rw [hround.next]
      omega

theorem finiteDistances_of_runsFinite {g : Generator} (h : runsFinite plan points g m = true)
    (c : Criterion) : FiniteDistances plan points g c := by
  obtain ⟨hsquares, hfinite⟩ := Bool.and_eq_true_iff.1 h
  constructor
  · intro s _ row _ ds hds
    have hrow := List.mem_range.2 (Spread.lt_of_squares_eq_ok hds)
    exact isFinite_of_allFinite (List.all_eq_true.1 hsquares row hrow) hds
  · rintro t ⟨clusters, labels, g', hstart, hreached⟩ d hd ds hds
    rw [hstart] at hfinite
    have hall := allFinite_of_reaches hlimit hreached (Nat.zero_add m) hfinite
    exact isFinite_of_allFinite (hall d hd) hds

end Check

end Trial

theorem Trial.Assigned.le_distinct_add {f : Formula Float32} {metric : Metric Float32}
    {points : Points Float32} {count : Nat} {clusters : Partition Float32} {labels : List Int}
    (hmetric : metric = .formula f) (hself : ∀ row ∈ points.rows, (row == row) = true)
    (h : Trial.Assigned metric points count clusters labels) :
    count ≤ points.distinct.length + clusters.countP fun c => c.isEmpty := by
  have hle := h.countP_le_distinct hmetric hself
  have hall := clusters.length_eq_countP_add_countP fun c => c.isEmpty
  have hnot : clusters.countP (fun c => !c.isEmpty) =
      clusters.countP (fun c => ¬ c.isEmpty = true) := by
    apply List.countP_congr
    simp
  have hlength := h.length_eq
  omega

namespace Clusterer

/-- Valid rows have no NaN, so they are equal to themselves. -/
theorem beq_self_of_validate {c : Clusterer} {data : Dataset} {points : Points Float32}
    (h : c.validate data = .ok points) : ∀ row ∈ points.rows, (row == row) = true := by
  obtain ⟨-, hvalid⟩ := validate_eq_ok.1 h
  unfold Dataset.validate at hvalid
  obtain ⟨-, -, hvalid⟩ := bind_eq_ok.1 hvalid
  obtain ⟨grid, -, hvalid⟩ := bind_eq_ok.1 hvalid
  obtain ⟨read, -, hvalid⟩ := bind_eq_ok.1 hvalid
  obtain ⟨rfl, -, -, hnumbers⟩ := Dataset.check_eq_ok.1 hvalid
  intro row hrow
  rw [list_beq_iff, List.forall₂_same]
  intro x hx
  have hnan := (hnumbers row hrow x hx).1
  unfold Scalar.isNaN at hnan
  rwa [Bool.not_eq_false'] at hnan

/-- Prepared data with fewer distinct rows than clusters, under a metric that fits it, with a whole
number as the limit, and with finite distances all through the run. -/
structure Crowded (data : Dataset) (s : Session Clusterer) (p : Prepared) (m : Int) : Prop where
  prepared : s.procedure.prepare data = .ok p
  fits : ∃ f width, p.plan.metric = .formula f ∧
    f.width? p.points.dim p.points.dim = some width
  few : p.points.distinct.length < p.plan.clusters
  limited : s.procedure.parameters.maxIter.numeral? = some (.int m)
  verbose : s.procedure.parameters.verbose.numeral?.isSome
  finite : Trial.FiniteDistances p.plan p.points s.procedure.generator p.criterion

variable {data : Dataset} {s t : Session Clusterer} {p : Prepared} {strategy : Strategy} {m : Int}
  {horizon : Nat}

namespace Crowded

variable (h : Crowded data s p m)
include h

theorem pos : 0 < p.plan.clusters := (count_of_prepare h.prepared).1

theorem details : p.plan.verbosity.details.isSome := by
  rw [(plan_of_prepare h.prepared).2.2.2]
  exact Verbosity.isSome_details h.verbose

theorem limit_eq : p.plan.limit = if m < 0 then .unlimited else .atMost m.toNat := by
  rw [(plan_of_prepare h.prepared).2.2.1]
  split
  · rename_i hneg
    exact Limit.ofValue_of_neg h.limited hneg
  · exact Limit.ofValue_of_nonneg h.limited (by omega)

/-- Every assignment leaves at least as many clusters empty as there are distinct rows too few. -/
theorem le_distinct_add {stage : Trial.Stage Float32}
    (hs : stage.Covers p.plan.metric p.points p.plan.clusters.toNat) :
    p.plan.clusters ≤ p.points.distinct.length + stage.clusters.countP fun c => c.isEmpty := by
  obtain ⟨labels, hassigned, -⟩ := hs
  obtain ⟨f, width, hmetric, -⟩ := h.fits
  have hself := beq_self_of_validate (prepare_eq_ok h.prepared).1
  have hle := hassigned.le_distinct_add hmetric hself
  omega

theorem exists_isEmpty {stage : Trial.Stage Float32}
    (hs : stage.Covers p.plan.metric p.points p.plan.clusters.toNat) :
    ∃ c ∈ stage.clusters, c.isEmpty = true := by
  have hle := h.le_distinct_add hs
  have hfew := h.few
  have hpos : 0 < stage.clusters.countP fun c => c.isEmpty := by omega
  exact List.countP_pos_iff.1 hpos

/-- No run meets its criterion. -/
theorem converged_eq_false {outcome : Trial.Outcome Float32} {stage : Nat → Trial.Stage Float32}
    (hcourse : Course data s outcome t p stage) : outcome.converged = false := by
  by_contra hmet
  rw [Bool.not_eq_false] at hmet
  have hpos := hcourse.stages.pos_of_met hmet
  have hlast : outcome.iterations - 1 + 1 = outcome.iterations := by omega
  have hcovers := hcourse.stages.covers h.pos (Nat.sub_le outcome.iterations 1)
  have hround := hcourse.stages.round (outcome.iterations - 1) (by omega)
  have hunmet := hround.met_eq_false hcovers (h.exists_isEmpty hcovers)
  rw [hmet, hlast, beq_self_eq_true] at hunmet
  cases hunmet

theorem exists_start : ∃ clusters labels g,
    Trial.start p.plan p.points s.procedure.generator = .ok (clusters, labels) g := by
  obtain ⟨f, width, hmetric, hfit⟩ := h.fits
  have hseeding := Seeding.eq_or_of_value (plan_of_prepare h.prepared).2.1
  obtain hstart | ⟨⟨-, spread, hdraws, hchosen, hnone⟩, -⟩ :=
    Trial.start_cases (ω := Float) hmetric hfit h.pos (count_of_prepare h.prepared).2 hseeding
      s.procedure.generator
  · exact hstart
  · exact absurd hnone (hchosen.not_unsampled (h.finite.squares spread hdraws))

theorem reaches_of_round {u v : Trial.Stage Float32} {met : Bool}
    (hu : Trial.Reaches p.plan p.points s.procedure.generator p.criterion u)
    (hround : Trial.Round p.plan p.points u met v) :
    Trial.Reaches p.plan p.points s.procedure.generator p.criterion v := by
  have hcovers := hu.covers h.pos
  rw [hround.met_eq_false hcovers (h.exists_isEmpty hcovers)] at hround
  exact hu.round hround

/-- No donor is refused, so every round can be run. -/
theorem exists_round (hhandler : p.plan.handler = strategy) (hstrategy : strategy ≠ .refuse)
    {iteration : Nat}
    {clusters : Partition Float32} {j : Journal}
    (hreaches : Trial.Reaches p.plan p.points s.procedure.generator p.criterion
      (.of iteration clusters j)) (hgoing : Trial.isOver p.plan iteration = .ok false) :
    ∃ met u, Trial.Round p.plan p.points (.of iteration clusters j) met u := by
  obtain ⟨f, width, hmetric, hfit⟩ := h.fits
  have hcount : p.plan.clusters.toNat ≤ p.points.size := by
    have hle := (count_of_prepare h.prepared).2
    omega
  have hcovers := hreaches.covers h.pos
  obtain hround | ⟨hstuck, -⟩ :=
    Trial.round_cases hmetric hfit hhandler hstrategy hcount hgoing hcovers
  · exact hround
  · obtain ⟨labels, hassigned, -⟩ := hcovers
    exact absurd hstuck (Update.not_stuck hmetric hfit hstrategy hassigned.divides.toShares
      (h.finite.distances _ hreaches))

/-- A run that takes points has its rounds until it is over, or is given up. -/
theorem trial_cases (hhandler : p.plan.handler = strategy) (hstrategy : strategy ≠ .refuse)
    (horizon : Nat) :
    (∃ outcome k, Trial.run horizon p.plan p.points (p.journal s) = .ok outcome k) ∨
      (∀ i < p.plan.limit.horizon horizon, Trial.isOver p.plan i = .ok false) ∧
        ∃ k, Trial.run horizon p.plan p.points (p.journal s) = .error .stalled k := by
  obtain ⟨clusters, labels, g, hstart⟩ := h.exists_start
  have hordered : p.plan.limit ≠ .unordered := by
    rw [h.limit_eq]
    split <;> exact Limit.noConfusion
  have hfirst : Trial.Reaches p.plan p.points s.procedure.generator p.criterion
      (.of 0 clusters ⟨g, { p.criterion.reset with previous := some (.ofList labels) },
        (p.journal s).notices⟩) := ⟨clusters, labels, g, hstart, .refl⟩
  have hround : ∀ iteration clusters j, Trial.Reaches p.plan p.points s.procedure.generator
      p.criterion (.of iteration clusters j) → Trial.isOver p.plan iteration = .ok false →
      (∃ met u, Trial.Round p.plan p.points (.of iteration clusters j) met u) ∨ False ∧
        ∃ k, Trial.round p.plan p.points iteration clusters j = .error .emptyCluster k :=
    fun _ _ _ hreaches hgoing => .inl (h.exists_round hhandler hstrategy hreaches hgoing)
  have hends := @Trial.rounds_ends _ _ _ _ _ _ _ _ (fun _ => False) h.details hordered
    (fun _ _ _ hu hround => h.reaches_of_round hu hround) hround
    (p.plan.limit.horizon horizon) _ _ _ hfirst
  rw [Trial.run_of_start (j := p.journal s) hstart]
  obtain hend | ⟨⟨-, -, hfails⟩, -⟩ | ⟨hgoing, hstalled⟩ := hends
  · exact .inl hend
  · exact hfails.elim
  · exact .inr ⟨fun i hi => hgoing i (Nat.zero_le i) (by omega), hstalled⟩

/-- A run that returns has come to its limit by rounds of which each found an empty cluster. -/
theorem of_run {outcome : Trial.Outcome Float32} (hrun : run horizon data s = .ok outcome t) :
    outcome.converged = false ∧ outcome.iterations = m ∧
      t.procedure.iterations = outcome.iterations ∧
      (∃ criterion, t.procedure.criterion = some criterion ∧
        criterion.history.length = outcome.iterations ∧
        ∀ e ∈ criterion.history, e.reseeded = true) ∧
      p.plan.clusters ≤ p.points.distinct.length + outcome.clusters.countP fun c => c.isEmpty := by
  obtain ⟨q, stage, hcourse⟩ := exists_course hrun
  cases h.prepared.symm.trans hcourse.prepared
  have hunmet := h.converged_eq_false hcourse
  have hcovers : ∀ i ≤ outcome.iterations,
      (stage i).Covers p.plan.metric p.points p.plan.clusters.toNat :=
    fun i hi => hcourse.stages.covers h.pos hi
  have hcount : outcome.iterations = m := by
    have hgoing := mt (hcourse.converged_of_going h.limited) (by rw [hunmet]; decide)
    have hle := hcourse.iterations_le h.limited
    omega
  obtain ⟨criterion, hcriterion, -, hlength, hentries⟩ := hcourse.exists_record
  refine ⟨hunmet, hcount, hcourse.iterations_eq, ⟨criterion, hcriterion, hlength, ?_⟩, ?_⟩
  · intro e he
    obtain ⟨i, hi, rfl⟩ := List.mem_iff_getElem.1 he
    rw [hlength] at hi
    obtain ⟨e, hat, hdescribes, -⟩ := hentries i hi
    rw [List.getElem?_eq_getElem (hlength ▸ hi)] at hat
    rw [Option.some.inj hat]
    exact hdescribes.reseeded_iff.2 (h.exists_isEmpty (hcovers i hi.le))
  · rw [hcourse.clusters_eq]
    exact h.le_distinct_add (hcovers _ le_rfl)

theorem exists_run (hhandler : p.plan.handler = strategy) (hstrategy : strategy ≠ .refuse)
    (hm : 0 ≤ m) (horizon : Nat) :
    ∃ outcome t, run horizon data s = .ok outcome t := by
  obtain ⟨outcome, k, hrun⟩ | ⟨hgoing, -⟩ := h.trial_cases hhandler hstrategy horizon
  · exact ⟨outcome, p.finish s outcome k, by rw [run_eq h.prepared, hrun]⟩
  · have hlimit := h.limit_eq
    rw [if_neg (by omega)] at hlimit
    have hover : Trial.isOver p.plan m.toNat = .ok false := by
      apply hgoing
      rw [hlimit]
      exact Nat.lt_succ_self m.toNat
    unfold Trial.isOver at hover
    rw [hlimit] at hover
    exact absurd le_rfl (of_decide_eq_false (Except.ok.inj hover))

/-- Without a limit, a run that takes points is followed in vain. -/
theorem run_stalled (hhandler : p.plan.handler = strategy) (hstrategy : strategy ≠ .refuse)
    (hm : m < 0) (horizon : Nat) :
    ∃ t, run horizon data s = .error .stalled t := by
  obtain ⟨outcome, k, hrun⟩ | ⟨-, k, hstalled⟩ := h.trial_cases hhandler hstrategy horizon
  · have hreturns : run horizon data s = .ok outcome (p.finish s outcome k) := by
      rw [run_eq h.prepared, hrun]
    have hcount := (h.of_run hreturns).2.1
    omega
  · exact ⟨keep s k, by rw [run_eq h.prepared, hstalled]⟩

theorem begins (hm : m ≠ 0) (hhorizon : m < 0 → 0 < horizon) :
    Trial.isOver p.plan 0 = .ok false ∧ ∃ more, p.plan.limit.horizon horizon = more + 1 := by
  have hlimit := h.limit_eq
  unfold Trial.isOver
  by_cases hneg : m < 0
  · rw [if_pos hneg] at hlimit
    rw [hlimit]
    exact ⟨rfl, Nat.exists_eq_add_of_le' (hhorizon hneg)⟩
  · rw [if_neg hneg] at hlimit
    rw [hlimit]
    have hfew : ¬ m.toNat ≤ 0 := by omega
    exact ⟨congrArg Except.ok (decide_eq_false hfew), m.toNat, rfl⟩

/-- A run that takes no points fails in its first round. -/
theorem run_refused (hrefuse : p.plan.handler = .strategy .refuse) (hm : m ≠ 0)
    (hhorizon : m < 0 → 0 < horizon) :
    ∃ t criterion, run horizon data s = .error .emptyCluster t ∧
      t.procedure.criterion = some criterion ∧ criterion.history = [] := by
  obtain ⟨clusters, labels, g, hstart⟩ := h.exists_start
  obtain ⟨hgoing, more, hmore⟩ := h.begins hm hhorizon
  have hcovers := Trial.covers_of_start (c := p.criterion.reset) h.pos hstart
  have hempty := h.exists_isEmpty hcovers
  obtain ⟨others, hassigned, -⟩ := hcovers
  have htrial := Trial.run_of_start (j := p.journal s) hstart horizon
  rw [hmore, Trial.rounds_of_error hgoing
    (Trial.round_refuse hrefuse hassigned.divides.toShares hempty) more] at htrial
  exact ⟨_, _, by rw [run_eq h.prepared, htrial], rfl, rfl⟩

end Crowded

/-- With fewer distinct rows than clusters, a run that takes points for empty clusters has exactly as
many rounds as its limit allows, each after an empty cluster, and returns a partition with as many
empty clusters as there are distinct rows too few, or more; without a limit, it goes on beyond every
horizon.  A run that takes no points fails in its first round. -/
theorem run_crowded (h : Crowded data s p m) (hhandler : p.plan.handler = strategy)
    (horizon : Nat) :
    (strategy ≠ .refuse → 0 ≤ m → ∃ outcome t criterion,
      run horizon data s = .ok outcome t ∧ outcome.converged = false ∧
      outcome.iterations = m ∧ t.procedure.iterations = outcome.iterations ∧
      t.procedure.criterion = some criterion ∧
      criterion.history.length = outcome.iterations ∧
      (∀ e ∈ criterion.history, e.reseeded = true) ∧
      p.plan.clusters ≤ p.points.distinct.length +
        outcome.clusters.countP fun c => c.isEmpty) ∧
    (strategy ≠ .refuse → m < 0 → ∃ t, run horizon data s = .error .stalled t) ∧
    (strategy = .refuse → m ≠ 0 → (m < 0 → 0 < horizon) → ∃ t criterion,
      run horizon data s = .error .emptyCluster t ∧
      t.procedure.criterion = some criterion ∧ criterion.history = []) := by
  refine ⟨?_, ?_, ?_⟩
  · intro hstrategy hm
    obtain ⟨outcome, t, hrun⟩ := h.exists_run hhandler hstrategy hm horizon
    obtain ⟨hunmet, hcount, hcounted, ⟨criterion, hcriterion, hlength, hentries⟩, hempty⟩ :=
      h.of_run hrun
    exact ⟨outcome, t, criterion, hrun, hunmet, hcount, hcounted, hcriterion, hlength, hentries,
      hempty⟩
  · intro hstrategy hm
    exact h.run_stalled hhandler hstrategy hm horizon
  · intro hrefuse hm hhorizon
    rw [hrefuse] at hhandler
    exact h.run_refused hhandler hm hhorizon

/-- Two equal points for two clusters, and two rounds. -/
theorem run_crowded_twins : ∃ p, Crowded twins (bounded weighing (.int 2)) p 2 ∧
    ∃ outcome t criterion, run 9 twins (bounded weighing (.int 2)) = .ok outcome t ∧
      outcome.iterations = 2 ∧ t.procedure.criterion = some criterion ∧
      criterion.history.map (·.reseeded) = [true, true] ∧
      outcome.clusters.countP (·.isEmpty) ≠ 0 := by
  have hchecks : (match (bounded weighing (.int 2)).procedure.prepare twins with
      | .ok p => decide (p.points.distinct.length = 1 ∧ p.plan.clusters = 2) &&
        Trial.runsFinite p.plan p.points weighing.procedure.generator 2
      | .error _ => false) = true := by decide +kernel
  cases hprepare : (bounded weighing (.int 2)).procedure.prepare twins with
  | error e =>
    rw [hprepare] at hchecks
    cases hchecks
  | ok p =>
    rw [hprepare] at hchecks
    obtain ⟨hcounts, hfinite⟩ := Bool.and_eq_true_iff.1 hchecks
    obtain ⟨hone, htwo⟩ := of_decide_eq_true hcounts
    obtain ⟨hresolved, -, hlimit, -⟩ := plan_of_prepare hprepare
    rw [show Limit.ofValue _ = .atMost 2 from Limit.ofValue_int (by decide)] at hlimit
    have hcrowded : Crowded twins (bounded weighing (.int 2)) p 2 :=
      { prepared := hprepare
        fits := ⟨_, _, (prepare_eq_ok hprepare).2.2.1, Grid.joinLength?_self p.points.dim⟩
        few := by omega
        limited := rfl
        verbose := rfl
        finite := Trial.finiteDistances_of_runsFinite hlimit hfinite p.criterion }
    have hhandler : p.plan.handler = Strategy.largestVariance := (Except.ok.inj hresolved).symm
    obtain ⟨outcome, t, criterion, hrun, -, hcount, -, hcriterion, hlength, hentries, hempty⟩ :=
      (run_crowded hcrowded hhandler 9).1 (by decide) (by decide)
    have hrounds : outcome.iterations = 2 := by omega
    refine ⟨p, hcrowded, outcome, t, criterion, hrun, hrounds, hcriterion, ?_, by omega⟩
    rw [List.map_eq_replicate_iff.2 hentries, hlength, hrounds]
    rfl

end Clusterer

end Centroids

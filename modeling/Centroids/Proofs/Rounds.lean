import Centroids.Clusterer

/-! Runs without a horizon.  What a run changes between its reports is a sequence of rounds that ends
when there may be no more of them or when the criterion is met; every run that returns is one.  Where
the level of the reports is a number, reporting cannot fail, and rounds can be run. -/
namespace Centroids

namespace Journal

variable {β : Type}

theorem draw_eq_ok {choice : Random β} {x : β} {j k : Journal} :
    draw choice j = .ok x k ↔
      ∃ g, choice j.generator = .ok x g ∧ k = { j with generator := g } := by
  unfold draw
  cases choice j.generator with
  | ok y g => simp [eq_comm, and_assoc]
  | error e g => simp

theorem draw_of_error {choice : Random β} {e : Fault} {g : Generator} {j : Journal}
    (h : choice j.generator = .error e g) : draw choice j = .error e { j with generator := g } := by
  unfold draw
  rw [h]

theorem check_eq_ok {o : Observation} {met : Bool} {j k : Journal} :
    check o j = .ok met k ↔
      ∃ c, j.criterion.check o = .ok (met, c) ∧ k = { j with criterion := c } := by
  unfold check
  cases j.criterion.check o with
  | ok answer => simp [eq_comm, Prod.ext_iff, and_assoc]
  | error e => simp

end Journal

theorem Limit.ofValue_int {n : Int} (h : 0 ≤ n) : ofValue (.int n) = .atMost n.toNat := by
  have hceiling : ceiling? (.int n) = some n := by
    change some (-(-n * Int.pow 2 0).fdiv (Int.pow 2 0)) = some n
    simp [Int.pow]
  have hnumeral : (Value.int n).numeral? = some (.int n) := rfl
  unfold ofValue
  rw [hnumeral]
  dsimp only
  rw [Numeral.lt_int, decide_eq_false (by omega), hceiling]
  rfl

theorem Limit.ofValue_congr {v w : Value} (h : v.numeral? = w.numeral?) : ofValue v = ofValue w := by
  unfold ofValue
  rw [h]

theorem Limit.ofValue_of_nonneg {v : Value} {m : Int} (h : v.numeral? = some (.int m))
    (hm : 0 ≤ m) : ofValue v = .atMost m.toNat :=
  (ofValue_congr (w := .int m) h).trans (ofValue_int hm)

namespace Trial

theorem limit_eq_unlimited {v : Value} {x : Numeral} (hvalue : v.numeral? = some x)
    (hneg : x.lt (.int 0) = true) : Limit.ofValue v = .unlimited := by
  unfold Limit.ofValue
  rw [hvalue]
  exact if_pos hneg

end Trial

theorem Limit.ofValue_of_neg {v : Value} {m : Int} (h : v.numeral? = some (.int m)) (hm : m < 0) :
    ofValue v = .unlimited := by
  apply Trial.limit_eq_unlimited h
  rw [Numeral.lt_int]
  exact decide_eq_true hm

namespace Trial

theorem report_eq_ok {α : Type} {plan : Plan α} {iteration : Nat} {reseeded : Bool} {j k : Journal}
    (h : report plan iteration reseeded j = .ok () k) :
    k.generator = j.generator ∧ k.criterion = j.criterion := by
  unfold report at h
  cases hdetails : plan.verbosity.details with
  | none =>
    rw [hdetails] at h
    exact nomatch h
  | some detailed =>
    rw [hdetails] at h
    cases detailed <;> cases h <;> exact ⟨rfl, rfl⟩

theorem exists_report {α : Type} {plan : Plan α} (hdetails : plan.verbosity.details.isSome)
    (iteration : Nat) (reseeded : Bool) (j : Journal) :
    ∃ k, report plan iteration reseeded j = .ok () k := by
  unfold report
  cases hlevel : plan.verbosity.details with
  | none =>
    rw [hlevel] at hdetails
    cases hdetails
  | some detailed => cases detailed <;> exact ⟨_, rfl⟩

variable {α ω : Type} [Scalar α] [Sampled ω] [Widening α ω]

/-- Where a run stands before a round. -/
structure Stage (α : Type) where
  iteration : Nat
  clusters : Partition α
  generator : Generator
  criterion : Criterion

/-- One round, its reports apart, and whether the criterion is met after it. -/
structure Round (plan : Plan α) (points : Points α) (s : Stage α) (met : Bool) (t : Stage α) :
    Prop where
  not_stopped : isOver plan s.iteration = .ok false
  next : t.iteration = s.iteration + 1
  moves : ∃ labels reseeded,
    move plan points s.clusters s.generator = .ok (t.clusters, labels, reseeded) t.generator ∧
    s.criterion.check ⟨some (.ofList labels), some (.int s.iteration), reseeded⟩ =
      .ok (met, t.criterion)

/-- The rounds from a stage to the end of the run, and whether the criterion is met there. -/
inductive Rounds (plan : Plan α) (points : Points α) : Stage α → Bool → Stage α → Prop
  | stopped {s : Stage α} : isOver plan s.iteration = .ok true → Rounds plan points s false s
  | met {s t : Stage α} : Round plan points s true t → Rounds plan points s true t
  | next {s t u : Stage α} {met : Bool} :
      Round plan points s false t → Rounds plan points t met u → Rounds plan points s met u

variable {plan : Plan α} {points : Points α}

/-- What every round keeps holds at the end. -/
theorem Rounds.invariant {holds : Stage α → Prop}
    (hround : ∀ s met t, holds s → Round plan points s met t → holds t)
    {s t : Stage α} {met : Bool} (h : Rounds plan points s met t) (hs : holds s) : holds t := by
  induction h with
  | stopped => exact hs
  | met hlast => exact hround _ _ _ hs hlast
  | next hfirst _ ih => exact ih (hround _ _ _ hs hfirst)

/-- A run that ends because its criterion is met has a last round, before which all holds that every
round keeps. -/
theorem Rounds.last {holds : Stage α → Prop}
    (hround : ∀ s met t, holds s → Round plan points s met t → holds t)
    {s t : Stage α} {met : Bool} (h : Rounds plan points s met t) (hmet : met = true)
    (hs : holds s) : ∃ u, holds u ∧ Round plan points u true t := by
  induction h with
  | stopped => contradiction
  | met hlast => exact ⟨_, hs, hlast⟩
  | next hfirst _ ih => exact ih hmet (hround _ _ _ hs hfirst)

/-- The stage of a journal before a round. -/
def Stage.of (iteration : Nat) (clusters : Partition α) (j : Journal) : Stage α :=
  ⟨iteration, clusters, j.generator, j.criterion⟩

/-- The journal keeps generator and criterion of the next stage beside the report. -/
theorem round_eq_ok {iteration : Nat} {clusters next : Partition α} {met : Bool} {j k : Journal}
    (hstop : isOver plan iteration = .ok false)
    (h : round plan points iteration clusters j = .ok (next, met) k) :
    Round plan points (.of iteration clusters j) met (.of (iteration + 1) next k) := by
  unfold round at h
  rcases step_bind_eq_ok.1 h with ⟨⟨moved, labels, reseeded⟩, drawn, hdraw, h⟩
  rcases step_bind_eq_ok.1 h with ⟨answer, checked, hobserve, h⟩
  rcases step_bind_eq_ok.1 h with ⟨_, reported, hreport, h⟩
  rcases step_pure_eq_ok.1 h with ⟨hpair, rfl⟩
  cases hpair
  rcases Journal.draw_eq_ok.1 hdraw with ⟨g, hmove, rfl⟩
  rcases Journal.check_eq_ok.1 hobserve with ⟨c, hcheck, rfl⟩
  rcases report_eq_ok hreport with ⟨hgenerator, hcriterion⟩
  refine ⟨hstop, rfl, labels, reseeded, ?_, ?_⟩
  · rw [Stage.of, Stage.of, hgenerator]
    exact hmove
  · rw [Stage.of, Stage.of, hcriterion]
    exact hcheck

/-- What is left of a round is to report it. -/
theorem Round.exists_reported {iteration : Nat} {clusters : Partition α} {j : Journal} {met : Bool}
    {t : Stage α} (h : Round plan points (.of iteration clusters j) met t) :
    ∃ reseeded, round plan points iteration clusters j =
      (do
        report plan iteration reseeded
        return (t.clusters, met) : Journal.Step (Partition α × Bool))
          ⟨t.generator, t.criterion, j.notices⟩ := by
  rcases h.moves with ⟨labels, reseeded, hmove, hcheck⟩
  have hdraw : Journal.draw (move plan points clusters) j =
      .ok (t.clusters, labels, reseeded) { j with generator := t.generator } :=
    Journal.draw_eq_ok.2 ⟨t.generator, hmove, rfl⟩
  have hobserve : Journal.check ⟨some (.ofList labels), some (.int iteration), reseeded⟩
      { j with generator := t.generator } = .ok met ⟨t.generator, t.criterion, j.notices⟩ :=
    Journal.check_eq_ok.2 ⟨t.criterion, hcheck, rfl⟩
  refine ⟨reseeded, ?_⟩
  unfold round
  exact (step_bind_of_ok hdraw).trans (step_bind_of_ok hobserve)

/-- Where reporting cannot fail, every round can be run. -/
theorem Round.exists_round {iteration : Nat} {clusters : Partition α} {j : Journal} {met : Bool}
    {t : Stage α} (hdetails : plan.verbosity.details.isSome)
    (h : Round plan points (.of iteration clusters j) met t) :
    ∃ k, round plan points iteration clusters j = .ok (t.clusters, met) k ∧
      t = .of (iteration + 1) t.clusters k := by
  rcases h.exists_reported with ⟨reseeded, hround⟩
  rcases exists_report hdetails iteration reseeded ⟨t.generator, t.criterion, j.notices⟩ with
    ⟨k, hreport⟩
  have hkept : k.generator = t.generator ∧ k.criterion = t.criterion := report_eq_ok hreport
  have hnext : t.iteration = iteration + 1 := h.next
  refine ⟨k, ?_, ?_⟩
  · rw [hround]
    exact step_bind_of_ok hreport
  · rw [Stage.of, hkept.1, hkept.2, ← hnext]

section Over

variable {iteration : Nat} {clusters : Partition α} {j : Journal}

theorem rounds_of_over (h : isOver plan iteration = .ok true) (horizon : Nat) :
    rounds plan points (horizon + 1) iteration clusters j = .ok ⟨clusters, iteration, false⟩ j := by
  have hstop : (liftM (isOver plan iteration) : Journal.Step Bool) j = .ok true j :=
    step_lift_eq_ok.2 ⟨h, rfl⟩
  rw [rounds, step_bind_of_ok hstop]
  rfl

theorem rounds_of_going (h : isOver plan iteration = .ok false) (horizon : Nat) :
    rounds plan points (horizon + 1) iteration clusters j =
      (do
        let (next, met) ← round plan points iteration clusters
        if met then
          if plan.verbosity.reports then Journal.say (.converged iteration)
          return ⟨next, iteration + 1, true⟩
        rounds plan points horizon (iteration + 1) next : Journal.Step (Outcome α)) j := by
  have hstop : (liftM (isOver plan iteration) : Journal.Step Bool) j = .ok false j :=
    step_lift_eq_ok.2 ⟨h, rfl⟩
  rw [rounds, step_bind_of_ok hstop]
  rfl

theorem rounds_of_error {e : Fault} {k : Journal} (hstop : isOver plan iteration = .ok false)
    (h : round plan points iteration clusters j = .error e k) (horizon : Nat) :
    rounds plan points (horizon + 1) iteration clusters j = .error e k := by
  rw [rounds_of_going hstop]
  exact step_bind_of_error h

end Over

section Run

variable {iteration : Nat} {clusters : Partition α} {j : Journal} {t : Stage α}
  (hdetails : plan.verbosity.details.isSome)
include hdetails

theorem rounds_of_met (h : Round plan points (.of iteration clusters j) true t) (horizon : Nat) :
    ∃ k, rounds plan points (horizon + 1) iteration clusters j =
      .ok ⟨t.clusters, iteration + 1, true⟩ k ∧ k.criterion = t.criterion := by
  rcases h.exists_round hdetails with ⟨k, hround, hnext⟩
  have hstop : isOver plan iteration = .ok false := h.not_stopped
  rw [rounds_of_going hstop, step_bind_of_ok hround, hnext]
  cases plan.verbosity.reports <;> exact ⟨_, rfl, rfl⟩

theorem rounds_of_unmet (h : Round plan points (.of iteration clusters j) false t) :
    ∃ next k, t = .of (iteration + 1) next k ∧ ∀ horizon,
      rounds plan points (horizon + 1) iteration clusters j =
        rounds plan points horizon (iteration + 1) next k := by
  rcases h.exists_round hdetails with ⟨k, hround, hnext⟩
  have hstop : isOver plan iteration = .ok false := h.not_stopped
  refine ⟨t.clusters, k, hnext, ?_⟩
  intro horizon
  rw [rounds_of_going hstop, step_bind_of_ok hround]
  rfl

end Run

theorem rounds_eq_ok {horizon iteration : Nat} {clusters : Partition α} {outcome : Outcome α}
    {j k : Journal} (h : rounds plan points horizon iteration clusters j = .ok outcome k) :
    Rounds plan points (.of iteration clusters j) outcome.converged
      (.of outcome.iterations outcome.clusters k) := by
  induction horizon generalizing iteration clusters j with
  | zero => exact nomatch h
  | succ horizon ih =>
    rw [rounds] at h
    rcases step_bind_eq_ok.1 h with ⟨stop, before, hlift, h⟩
    rcases step_lift_eq_ok.1 hlift with ⟨hstop, rfl⟩
    cases stop with
    | true =>
      rcases step_pure_eq_ok.1 h with ⟨rfl, rfl⟩
      exact .stopped hstop
    | false =>
      rcases step_bind_eq_ok.1 h with ⟨⟨next, met⟩, after, hstep, h⟩
      have hround := round_eq_ok hstop hstep
      cases met with
      | false => exact .next hround (ih h)
      | true =>
        -- The report of the end is the only thing left to do.
        have hend : outcome = ⟨next, iteration + 1, true⟩ ∧
            k.generator = after.generator ∧ k.criterion = after.criterion := by
          cases hreports : plan.verbosity.reports <;> simp only [hreports] at h <;> cases h <;>
            exact ⟨rfl, rfl, rfl⟩
        rcases hend with ⟨rfl, hgenerator, hcriterion⟩
        unfold Stage.of at hround ⊢
        rw [hgenerator, hcriterion]
        exact .met hround

theorem run_of_start {clusters : Partition α} {labels : List Int} {g : Generator} {j : Journal}
    (h : start plan points j.generator = .ok (clusters, labels) g) (horizon : Nat) :
    run horizon plan points j = rounds plan points (plan.limit.horizon horizon) 0 clusters
      ⟨g, { j.criterion.reset with previous := some (.ofList labels) }, j.notices⟩ := by
  have hdraw : Journal.draw (start plan points) j =
      .ok (clusters, labels) { j with generator := g } := Journal.draw_eq_ok.2 ⟨g, h, rfl⟩
  unfold run
  exact step_bind_of_ok hdraw

theorem run_of_start_error {e : Fault} {g : Generator} {j : Journal}
    (h : start plan points j.generator = .error e g) (horizon : Nat) :
    run horizon plan points j = .error e { j with generator := g } :=
  step_bind_of_error (Journal.draw_of_error h)

/-- A run begins with the seeded partition, whose labels the criterion remembers. -/
theorem run_eq_ok {horizon : Nat} {outcome : Outcome α} {j k : Journal}
    (h : run horizon plan points j = .ok outcome k) :
    ∃ clusters labels g, start plan points j.generator = .ok (clusters, labels) g ∧
      Rounds plan points
        ⟨0, clusters, g, { j.criterion.reset with previous := some (.ofList labels) }⟩
        outcome.converged (.of outcome.iterations outcome.clusters k) := by
  unfold run at h
  rcases step_bind_eq_ok.1 h with ⟨⟨clusters, labels⟩, drawn, hdraw, h⟩
  rcases Journal.draw_eq_ok.1 hdraw with ⟨g, hstart, rfl⟩
  rcases step_bind_eq_ok.1 h with ⟨_, reset, hreset, h⟩
  cases hreset
  rcases step_bind_eq_ok.1 h with ⟨met, checked, hobserve, h⟩
  rcases Journal.check_eq_ok.1 hobserve with ⟨c, hcheck, rfl⟩
  rw [Criterion.check_first rfl] at hcheck
  cases hcheck
  exact ⟨clusters, labels, g, hstart, rounds_eq_ok h⟩

end Trial

end Centroids

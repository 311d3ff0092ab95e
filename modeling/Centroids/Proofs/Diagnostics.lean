import Centroids.Proofs.Refusal
import Centroids.Proofs.Settings

/-! What a clusterer tells of its last run.  The record has an entry for each round that was completed,
whether the run returns or fails.  The count of iterations is set by runs that return only: after
one that fails it is still the count of the last that returned. -/
namespace Centroids

/-- A comparison with what is remembered adds an entry. -/
theorem Criterion.exists_entry {c next : Criterion} {now : Grid Int} {iteration : Value}
    {reseeded met : Bool} (hprevious : c.previous.isSome)
    (h : c.check ⟨some now, some iteration, reseeded⟩ = .ok (met, next)) :
    ∃ e : Entry, e.iteration = iteration ∧ next.history = c.history ++ [e] := by
  obtain ⟨before, hbefore⟩ := Option.isSome_iff_exists.1 hprevious
  cases hcompare : compare now before with
  | error e => simp [check, hbefore, hcompare, bind, Except.bind] at h
  | ok counts =>
    rw [check_next hbefore hcompare] at h
    cases h
    exact ⟨_, rfl, rfl⟩

namespace Trial

variable {α ω : Type} [Scalar α] [Sampled ω] [Widening α ω] {plan : Plan α} {points : Points α}

/-- The round from a stage on, its reports apart, if there may be one and it does not fail. -/
def Stage.next? (plan : Plan α) (points : Points α) (s : Stage α) : Option (Bool × Stage α) :=
  match isOver plan s.iteration, move plan points s.clusters s.generator with
  | .ok false, .ok (clusters, labels, reseeded) generator =>
    match s.criterion.check ⟨some (.ofList labels), some (.int s.iteration), reseeded⟩ with
    | .ok (met, criterion) => some (met, ⟨s.iteration + 1, clusters, generator, criterion⟩)
    | .error _ => none
  | _, _ => none

theorem Stage.next?_eq_some {s t : Stage α} {met : Bool} :
    s.next? plan points = some (met, t) ↔ Round plan points s met t := by
  constructor
  · intro h
    unfold next? at h
    split at h
    · split at h
      · cases h
        exact ⟨by assumption, rfl, _, _, by assumption, by assumption⟩
      · cases h
    · cases h
  · rintro ⟨hstop, hnext, labels, reseeded, hmove, hcheck⟩
    unfold next?
    rw [hstop, hmove]
    dsimp only
    rw [hcheck, ← hnext]

/-- How many rounds are completed from a stage on, at most as many as the horizon allows: up to one
that meets the criterion, cannot be reported or fails. -/
def completed (plan : Plan α) (points : Points α) : Nat → Stage α → Nat
  | 0, _ => 0
  | horizon + 1, s =>
    match s.next? plan points with
    | none => 0
    | some (met, t) =>
      if met || plan.verbosity.details.isNone then 1 else completed plan points horizon t + 1

theorem Round.exists_latest {s t : Stage α} {met : Bool} (hprevious : s.criterion.previous.isSome)
    (h : Round plan points s met t) : t.criterion.previous.isSome ∧
      ∃ e : Entry, e.iteration = .int s.iteration ∧
        t.criterion.history = s.criterion.history ++ [e] := by
  obtain ⟨labels, reseeded, -, hcheck⟩ := h.moves
  refine ⟨?_, Criterion.exists_entry hprevious hcheck⟩
  rw [(Criterion.check_eq_ok hcheck).1]
  rfl

theorem Round.length_history {s t : Stage α} {met : Bool} (hprevious : s.criterion.previous.isSome)
    (h : Round plan points s met t) :
    t.criterion.history.length = s.criterion.history.length + 1 := by
  obtain ⟨-, e, -, hhistory⟩ := h.exists_latest hprevious
  rw [hhistory, List.length_append]
  rfl

section Rounds

variable {iteration : Nat} {clusters : Partition α} {j : Journal}

/-- A round that is not completed leaves the criterion as it is. -/
theorem exists_round_error (hstop : isOver plan iteration = .ok false)
    (h : (Stage.of iteration clusters j).next? plan points = none) :
    ∃ e k, round plan points iteration clusters j = .error e k ∧ k.criterion = j.criterion := by
  unfold round
  cases hmove : move plan points clusters j.generator with
  | error e g =>
    exact ⟨e, _, step_bind_of_error (Journal.draw_of_error hmove), rfl⟩
  | ok moved g =>
    obtain ⟨next, labels, reseeded⟩ := moved
    have hdraw : Journal.draw (move plan points clusters) j =
        .ok (next, labels, reseeded) { j with generator := g } :=
      Journal.draw_eq_ok.2 ⟨g, hmove, rfl⟩
    cases hcheck : j.criterion.check ⟨some (.ofList labels), some (.int iteration), reseeded⟩ with
    | error e =>
      have hobserve : Journal.check ⟨some (.ofList labels), some (.int iteration), reseeded⟩
          { j with generator := g } = .error e { j with generator := g } := by
        unfold Journal.check
        dsimp only
        rw [hcheck]
      exact ⟨e, _, (step_bind_of_ok hdraw).trans (step_bind_of_error hobserve), rfl⟩
    | ok answer =>
      obtain ⟨met, criterion⟩ := answer
      have hround : Round plan points (.of iteration clusters j) met
          ⟨iteration + 1, next, g, criterion⟩ := ⟨hstop, rfl, labels, reseeded, hmove, hcheck⟩
      rw [Stage.next?_eq_some.2 hround] at h
      cases h

/-- A round that is completed but cannot be reported leaves its entry. -/
theorem Round.exists_unreported {met : Bool} {t : Stage α}
    (hdetails : plan.verbosity.details = none)
    (h : Round plan points (.of iteration clusters j) met t) :
    ∃ e k, round plan points iteration clusters j = .error e k ∧ k.criterion = t.criterion := by
  obtain ⟨reseeded, hround⟩ := h.exists_reported
  have hreport : report plan iteration reseeded ⟨t.generator, t.criterion, j.notices⟩ =
      .error .incomparable ⟨t.generator, t.criterion, j.notices⟩ := by
    unfold report
    rw [hdetails]
    rfl
  exact ⟨_, _, hround.trans (step_bind_of_error hreport), rfl⟩

/-- Where no further round is completed, the criterion is left as it is. -/
theorem rounds_of_next?_eq_none (h : (Stage.of iteration clusters j).next? plan points = none)
    (horizon : Nat) :
    (finalState (rounds plan points (horizon + 1) iteration clusters j)).criterion = j.criterion ∧
      ∀ outcome k, rounds plan points (horizon + 1) iteration clusters j = .ok outcome k →
        outcome.iterations = iteration := by
  cases hover : isOver plan iteration with
  | error e =>
    have hstop : (liftM (isOver plan iteration) : Journal.Step Bool) j = .error e j := by
      rw [hover]
      rfl
    rw [rounds, step_bind_of_error hstop]
    refine ⟨rfl, ?_⟩
    rintro outcome k ⟨⟩
  | ok stop =>
    cases stop with
    | true =>
      rw [rounds_of_over hover]
      refine ⟨rfl, ?_⟩
      rintro outcome k ⟨⟩
      rfl
    | false =>
      obtain ⟨e, k, hround, hk⟩ := exists_round_error hover h
      rw [rounds_of_error hover hround]
      refine ⟨hk, ?_⟩
      rintro outcome u ⟨⟩

/-- Rounds leave one entry for each that is completed, whether they return or fail, and those that
return count them. -/
theorem rounds_completed (plan : Plan α) (points : Points α) (horizon iteration : Nat)
    (clusters : Partition α) (j : Journal) (hprevious : j.criterion.previous.isSome) :
    (finalState (rounds plan points horizon iteration clusters j)).criterion.history.length =
        j.criterion.history.length + completed plan points horizon (.of iteration clusters j) ∧
      ∀ outcome k, rounds plan points horizon iteration clusters j = .ok outcome k →
        outcome.iterations = iteration + completed plan points horizon (.of iteration clusters j) := by
  -- The criterion remembers labels from the start on, so that no round passes without an entry.
  induction horizon generalizing iteration clusters j with
  | zero =>
    refine ⟨rfl, ?_⟩
    rintro outcome k ⟨⟩
  | succ horizon ih =>
    unfold completed
    cases hnext : (Stage.of iteration clusters j).next? plan points with
    | none =>
      obtain ⟨hcriterion, hcount⟩ := rounds_of_next?_eq_none hnext horizon
      rw [hcriterion]
      exact ⟨rfl, hcount⟩
    | some answer =>
      obtain ⟨met, t⟩ := answer
      have hround := Stage.next?_eq_some.1 hnext
      have hstop : isOver plan iteration = .ok false := hround.not_stopped
      have hlength : t.criterion.history.length = j.criterion.history.length + 1 :=
        hround.length_history hprevious
      cases hdetails : plan.verbosity.details with
      | none =>
        obtain ⟨e, k, herror, hk⟩ := hround.exists_unreported hdetails
        rw [rounds_of_error hstop herror]
        refine ⟨?_, ?_⟩
        · simpa [finalState, hk] using hlength
        · rintro outcome u ⟨⟩
      | some detailed =>
        have hsome : plan.verbosity.details.isSome := by
          rw [hdetails]
          rfl
        cases met with
        | true =>
          obtain ⟨k, hrounds, hk⟩ := rounds_of_met hsome hround horizon
          rw [hrounds]
          refine ⟨?_, ?_⟩
          · simpa [finalState, hk] using hlength
          · rintro outcome u ⟨⟩
            rfl
        | false =>
          obtain ⟨next, k, rfl, hrounds⟩ := rounds_of_unmet hsome hround
          obtain ⟨hhistory, hcount⟩ := ih (iteration + 1) next k (hround.exists_latest hprevious).1
          have hlengths : j.criterion.history.length +
              (completed plan points horizon (.of (iteration + 1) next k) + 1) =
              k.criterion.history.length +
                completed plan points horizon (.of (iteration + 1) next k) := by
            change k.criterion.history.length = _ at hlength
            omega
          rw [hrounds]
          refine ⟨hhistory.trans hlengths.symm, ?_⟩
          intro outcome u h
          have hiterations := hcount outcome u h
          change outcome.iterations = iteration +
            (completed plan points horizon (.of (iteration + 1) next k) + 1)
          omega

end Rounds

/-- How many rounds a run completes. -/
def runCompleted (horizon : Nat) (plan : Plan α) (points : Points α) (j : Journal) : Nat :=
  match start plan points j.generator with
  | .ok (clusters, labels) g => completed plan points (plan.limit.horizon horizon)
      ⟨0, clusters, g, { j.criterion.reset with previous := some (.ofList labels) }⟩
  | .error _ _ => 0

/-- A run leaves one entry for each round that it completes, and counts them if it returns. -/
theorem run_completed (plan : Plan α) (points : Points α) {j : Journal}
    (hnew : j.criterion.history = []) (horizon : Nat) :
    (finalState (run horizon plan points j)).criterion.history.length =
        runCompleted horizon plan points j ∧
      ∀ outcome k, run horizon plan points j = .ok outcome k →
        outcome.iterations = runCompleted horizon plan points j := by
  unfold runCompleted
  cases hstart : start plan points j.generator with
  | error e g =>
    rw [run_of_start_error hstart]
    refine ⟨?_, ?_⟩
    · change j.criterion.history.length = 0
      rw [hnew]
      rfl
    · rintro outcome k ⟨⟩
  | ok seeded g =>
    obtain ⟨clusters, labels⟩ := seeded
    rw [run_of_start hstart]
    obtain ⟨hhistory, hcount⟩ := rounds_completed plan points (plan.limit.horizon horizon) 0 clusters
      ⟨g, { j.criterion.reset with previous := some (.ofList labels) }, j.notices⟩ rfl
    refine ⟨hhistory.trans (Nat.zero_add _), ?_⟩
    intro outcome k h
    exact (hcount outcome k h).trans (Nat.zero_add _)

end Trial

namespace Clusterer

/-- How many rounds the run of a clusterer completes; none if its options are refused. -/
def completed (horizon : Nat) (data : Dataset) (s : Session Clusterer) : Nat :=
  match s.procedure.prepare data with
  | .error _ => 0
  | .ok p => Trial.runCompleted horizon p.plan p.points (p.journal s)

section Run

variable {horizon : Nat} {data : Dataset} {s t : Session Clusterer} {p : Prepared}
  {outcome : Trial.Outcome Float32} {e : Fault}

/-- A run starts with an empty record. -/
theorem history_of_prepare (h : s.procedure.prepare data = .ok p) :
    (p.journal s).criterion.history = [] := by
  obtain ⟨tol, count, -, -, hmade⟩ := Criterion.exists_of_make (prepare_eq_ok h).2.2.2
  change p.criterion.history = []
  rw [hmade]

/-- A run whose options are accepted leaves a record with an entry for each round. -/
theorem exists_record_of_run (h : s.procedure.prepare data = .ok p) (horizon : Nat) :
    ∃ criterion, (finalState (run horizon data s)).procedure.criterion = some criterion ∧
      criterion.history.length = completed horizon data s := by
  obtain ⟨hhistory, -⟩ := Trial.run_completed p.plan p.points (history_of_prepare h) horizon
  unfold completed
  rw [h, run_eq h]
  cases hrun : Trial.run horizon p.plan p.points (p.journal s) with
  | ok outcome k =>
    rw [hrun] at hhistory
    exact ⟨k.criterion, rfl, hhistory⟩
  | error e k =>
    rw [hrun] at hhistory
    exact ⟨k.criterion, rfl, hhistory⟩

theorem iterations_of_run (h : run horizon data s = .ok outcome t) :
    t.procedure.iterations = outcome.iterations ∧
      outcome.iterations = completed horizon data s := by
  obtain ⟨p, k, hprepare, hrun, rfl⟩ := run_eq_ok.1 h
  obtain ⟨-, hcount⟩ := Trial.run_completed p.plan p.points (history_of_prepare hprepare) horizon
  unfold completed
  rw [hprepare]
  exact ⟨rfl, hcount outcome k hrun⟩

/-- A run that fails leaves the count of iterations as it was. -/
theorem iterations_of_run_error (h : run horizon data s = .error e t) :
    t.procedure.iterations = s.procedure.iterations := by
  obtain ⟨-, rfl⟩ | ⟨p, k, -, -, rfl⟩ := run_eq_error.1 h
  · rfl
  · rfl

end Run

/-- A call to a clusterer. -/
inductive Command
  | run (data : Dataset)
  /-- A change of options, with the entropy for a random state that is given without a seed. -/
  | set (entropy : Int) (settings : List Setting)

/-- What a call leaves, whether it fails or not. -/
def Command.after (horizon : Nat) (s : Session Clusterer) : Command → Session Clusterer
  | .run data => finalState (Clusterer.run horizon data s)
  | .set entropy settings =>
    { s with procedure := finalState (Clusterer.set entropy settings s.procedure) }

/-- The outcomes of the runs that return, in order. -/
def returned (horizon : Nat) : List Command → Session Clusterer → List (Trial.Outcome Float32)
  | [], _ => []
  | .run data :: rest, s =>
    match run horizon data s with
    | .ok outcome t => outcome :: returned horizon rest t
    | .error _ t => returned horizon rest t
  | .set entropy settings :: rest, s =>
    returned horizon rest (Command.after horizon s (.set entropy settings))

/-- Only runs that return set the count of iterations. -/
theorem iterations_after (horizon : Nat) (commands : List Command) (s : Session Clusterer) :
    (commands.foldl (Command.after horizon) s).procedure.iterations =
      ((returned horizon commands s).getLast?.map (·.iterations)).getD s.procedure.iterations := by
  induction commands generalizing s with
  | nil => rfl
  | cons command rest ih =>
    rw [List.foldl_cons, ih]
    cases command with
    | set entropy settings =>
      have hkept : (Command.after horizon s (.set entropy settings)).procedure.iterations =
          s.procedure.iterations := by
        obtain ⟨g, hfinal⟩ := finalState_set entropy settings s.procedure
        change (finalState (set entropy settings s.procedure)).iterations = _
        rw [hfinal]
        exact (Setting.foldl_put_keeps _ s.procedure).2.2
      rw [hkept]
      rfl
    | run data =>
      rw [returned]
      cases hrun : run horizon data s with
      | error e t =>
        have hafter : Command.after horizon s (.run data) = t := congrArg finalState hrun
        rw [hafter, iterations_of_run_error hrun]
      | ok outcome t =>
        have hafter : Command.after horizon s (.run data) = t := congrArg finalState hrun
        rw [hafter, (iterations_of_run hrun).1]
        dsimp only
        cases returned horizon rest t with
        | nil => rfl
        | cons last outcomes =>
          rw [List.getLast?_cons_cons, List.getLast?_cons]
          rfl

/-- After a run that returns, the count of iterations is that of the rounds it completed, and the
record has as many entries.  After one that fails, the count is still that of the last run before
it that returned, while the record has an entry for each round that was completed, unless the
options were refused, which leaves the record before. -/
theorem iterations_of_last_return (horizon : Nat) (commands : List Command) (c : Clusterer)
    (notices : List Notice) (data : Dataset) :
    let s := commands.foldl (Command.after horizon) ⟨c, notices⟩
    (∀ outcome t, run horizon data s = .ok outcome t →
      t.procedure.iterations = completed horizon data s ∧
      outcome.iterations = completed horizon data s ∧
      ∃ criterion, t.procedure.criterion = some criterion ∧
        criterion.history.length = completed horizon data s) ∧
    ∀ e t, run horizon data s = .error e t →
      t.procedure.iterations = ((returned horizon commands ⟨c, notices⟩).getLast?.map
        (·.iterations)).getD c.iterations ∧
      (∀ p, s.procedure.prepare data = .ok p → ∃ criterion,
        t.procedure.criterion = some criterion ∧
          criterion.history.length = completed horizon data s) ∧
      (s.procedure.prepare data = .error e →
        completed horizon data s = 0 ∧ t.procedure.criterion = s.procedure.criterion) := by
  intro s
  constructor
  · intro outcome t hrun
    obtain ⟨hiterations, hcount⟩ := iterations_of_run hrun
    obtain ⟨p, k, hprepare, -, -⟩ := run_eq_ok.1 hrun
    obtain ⟨criterion, hcriterion, hlength⟩ := exists_record_of_run hprepare horizon
    rw [hrun] at hcriterion
    exact ⟨hiterations.trans hcount, hcount, criterion, hcriterion, hlength⟩
  · intro e t hrun
    refine ⟨?_, ?_, ?_⟩
    · rw [iterations_of_run_error hrun]
      exact iterations_after horizon commands ⟨c, notices⟩
    · intro p hprepare
      obtain ⟨criterion, hcriterion, hlength⟩ := exists_record_of_run hprepare horizon
      rw [hrun] at hcriterion
      exact ⟨criterion, hcriterion, hlength⟩
    · intro hrefused
      rw [run_of_prepare_error hrefused] at hrun
      cases hrun
      unfold completed
      rw [hrefused]
      exact ⟨rfl, rfl⟩

theorem iterations_of_last_return_pairing :
    (∃ outcome t, run 9 triple pairing = .ok outcome t ∧ t.procedure.iterations = 2) ∧
    ∃ e t, run 9 .texts (Command.after 9 pairing (.run triple)) = .error e t ∧
      t.procedure.iterations = 2 ∧ completed 9 .texts (Command.after 9 pairing (.run triple)) = 0 := by
  constructor
  · obtain ⟨outcome, t, hrun, -⟩ := run_pairing
    have hcompleted : completed 9 triple pairing = 2 := by decide +kernel
    obtain ⟨hiterations, -⟩ :=
      (iterations_of_last_return 9 [] pairing.procedure [] triple).1 outcome t hrun
    exact ⟨outcome, t, hrun, hiterations.trans hcompleted⟩
  · have hreturned : ((returned 9 [.run triple] pairing).getLast?.map (·.iterations)).getD 0 = 2 := by
      decide +kernel
    have hrefused : ((Command.after 9 pairing (.run triple)).procedure.prepare .texts).isOk =
        false := by decide +kernel
    cases hprepare : (Command.after 9 pairing (.run triple)).procedure.prepare .texts with
    | ok p =>
      rw [hprepare] at hrefused
      cases hrefused
    | error e =>
      have hrun := run_of_prepare_error hprepare 9
      obtain ⟨hiterations, -, hnone⟩ :=
        (iterations_of_last_return 9 [.run triple] pairing.procedure [] .texts).2 _ _ hrun
      exact ⟨e, _, hrun, hiterations.trans hreturned, (hnone hprepare).1⟩

/-- As `tolerant`, without its tolerance. -/
def strict : Session Clusterer :=
  { tolerant with procedure := { tolerant.procedure with
    parameters := { tolerant.procedure.parameters with tol := .double 0 } } }

/-- The second round meets an empty cluster: the record has an entry for the first one, and the count
of iterations is that before the run. -/
theorem iterations_stale_scattered :
    ∃ e t criterion, run 9 scattered strict = .error e t ∧ completed 9 scattered strict = 1 ∧
      t.procedure.criterion = some criterion ∧ criterion.history.length = 1 ∧
      t.procedure.iterations = 0 := by
  have hcompleted : completed 9 scattered strict = 1 := by decide +kernel
  have hfails : (match run 9 scattered strict with
      | .ok _ _ => none
      | .error _ t => t.procedure.criterion.map fun c => c.history.length) = some 1 := by
    decide +kernel
  cases hrun : run 9 scattered strict with
  | ok outcome t =>
    rw [hrun] at hfails
    cases hfails
  | error e t =>
    rw [hrun] at hfails
    obtain ⟨criterion, hcriterion, hlength⟩ := Option.map_eq_some_iff.1 hfails
    exact ⟨e, t, criterion, rfl, hcompleted, hcriterion, hlength, iterations_of_run_error hrun⟩

end Clusterer

end Centroids

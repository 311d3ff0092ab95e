import Centroids.Proofs.BestTrial
import Centroids.Proofs.Silence

/-! Trials as calls of a machine.  Apart from what it reports, a procedure is a machine that is called
with data and goes from state to state.  Selecting the best of several trials calls it as often as
there are trials, one call after another with the same data, up to the first that fails: because
the call does, or because its partition cannot be scored. -/
namespace Centroids

/-- A procedure without its reports. -/
abbrev Machine (σ : Type) := Dataset → EStateM Fault σ (Partition Float32)

/-- The session of a machine in a state, whatever was reported in it. -/
def Session.At {σ : Type} (session : Session σ) (state : σ) : Prop := session.procedure = state

/-- A procedure that does what a machine does, and reports it. -/
def Procedure.Runs {σ : Type} (procedure : Procedure σ) (machine : Machine σ) : Prop :=
  ∀ data, Follows Session.At (procedure data) (machine data)

namespace Machine

variable {σ : Type}

/-- Calls one after another with the same data. -/
def calls (machine : Machine σ) (data : Dataset) (count : Nat) :
    EStateM Fault σ (List (Partition Float32)) :=
  (List.replicate count data).mapM machine

theorem calls_succ (machine : Machine σ) (data : Dataset) (count : Nat) :
    machine.calls data (count + 1) = do
      let partition ← machine data
      let rest ← machine.calls data count
      return partition :: rest := by
  unfold calls
  rw [List.replicate_succ, List.mapM_cons]

end Machine

namespace Clusterer

/-- A clusterer as a machine, whose reports are thrown away. -/
def machine : Machine Clusterer := fun data c =>
  match cluster data ⟨c, []⟩ with
  | .error e t => .error e t.procedure
  | .ok partition t => .ok partition t.procedure

theorem cluster_runs : Procedure.Runs cluster machine := by
  rintro data session _ rfl
  unfold machine cluster
  cases hprepare : session.procedure.prepare data with
  | error e =>
    have hfails : ∀ t : Session Clusterer, t.procedure = session.procedure →
        ((·.clusters) <$> run defaultHorizon data) t = .error e t := by
      intro t ht
      have hrun := run_of_prepare_error (s := t) (ht ▸ hprepare) defaultHorizon
      rw [map_eq_pure_bind, step_bind_of_error hrun]
    rw [hfails session rfl, hfails ⟨session.procedure, []⟩ rfl]
    exact .error rfl
  | ok p =>
    have hbare : (Session.mk session.procedure []).procedure.prepare data = .ok p := hprepare
    obtain ⟨j, k, hjk, ⟨outcome, hs, ht⟩ | ⟨e, hs, ht⟩⟩ := run_agrees hprepare hbare rfl defaultHorizon
    · rw [step_map_of_ok hs, step_map_of_ok ht]
      exact .ok (by simp [Session.At, Prepared.finish, keep, hjk.generator_eq, hjk.criterion_eq])
    · rw [map_eq_pure_bind, step_bind_of_error hs, step_bind_of_error ht]
      exact .error (by simp [Session.At, keep, hjk.generator_eq, hjk.criterion_eq])

end Clusterer

namespace Selection

variable {σ : Type}

/-- Calls that succeed and give these partitions, of which each has its score. -/
structure Succeeds (s : Selection) (machine : Machine σ) (data : Dataset) (state : σ)
    (outcomes : List (Partition Float32 × Float)) (final : σ) : Prop where
  calls : machine.calls data outcomes.length state = .ok (outcomes.map (·.1)) final
  scores : ∀ o ∈ outcomes, Partition.score s.metric o.1 = .ok o.2

/-- After calls that succeed comes one that fails, or whose partition cannot be scored. -/
def Fails (s : Selection) (machine : Machine σ) (data : Dataset) (state : σ)
    (outcomes : List (Partition Float32 × Float)) (e : Fault) (final : σ) : Prop :=
  ∃ before, s.Succeeds machine data state outcomes before ∧
    (machine data before = .error e final ∨
      ∃ partition, machine data before = .ok partition final ∧
        Partition.score s.metric partition = .error e)

/-- A call of the machine, and the score of its partition. -/
def scored (s : Selection) (machine : Machine σ) (data : Dataset) :
    EStateM Fault σ (Partition Float32 × Float) := do
  let partition ← machine data
  let score ← liftM (Partition.score s.metric partition)
  return (partition, score)

/-- Calls one after another, each of them scored before the next. -/
def scoredCalls (s : Selection) (machine : Machine σ) (data : Dataset) (count : Nat) :
    EStateM Fault σ (List (Partition Float32 × Float)) :=
  (List.replicate count data).mapM (s.scored machine)

section Machine

variable {s : Selection} {machine : Machine σ} {data : Dataset} {state final : σ} {e : Fault}

theorem scored_eq_ok {o : Partition Float32 × Float} :
    s.scored machine data state = .ok o final ↔
      machine data state = .ok o.1 final ∧ Partition.score s.metric o.1 = .ok o.2 := by
  unfold scored
  simp only [step_bind_eq_ok, step_lift_eq_ok, step_pure_eq_ok]
  constructor
  · rintro ⟨partition, u, hcall, score, v, ⟨hscore, rfl⟩, rfl, rfl⟩
    exact ⟨hcall, hscore⟩
  · rintro ⟨hcall, hscore⟩
    exact ⟨o.1, final, hcall, o.2, final, ⟨hscore, rfl⟩, rfl, rfl⟩

theorem scored_eq_error : s.scored machine data state = .error e final ↔
    machine data state = .error e final ∨
      ∃ partition, machine data state = .ok partition final ∧
        Partition.score s.metric partition = .error e := by
  unfold scored
  cases hcall : machine data state with
  | error e' u =>
    rw [step_bind_of_error hcall]
    simp
  | ok partition u =>
    rw [step_bind_of_ok hcall]
    cases hscore : Partition.score s.metric partition with
    | error e' =>
      change EStateM.Result.error e' u = .error e final ↔ _
      simp only [EStateM.Result.error.injEq, EStateM.Result.ok.injEq, reduceCtorEq, false_or]
      constructor
      · rintro ⟨rfl, rfl⟩
        exact ⟨partition, ⟨rfl, rfl⟩, hscore⟩
      · rintro ⟨_, ⟨rfl, rfl⟩, hfails⟩
        rw [hscore] at hfails
        cases hfails
        exact ⟨rfl, rfl⟩
    | ok score =>
      change EStateM.Result.ok (partition, score) u = .error e final ↔ _
      simp only [EStateM.Result.ok.injEq, reduceCtorEq, false_or, false_iff]
      rintro ⟨_, ⟨rfl, -⟩, hfails⟩
      rw [hscore] at hfails
      cases hfails

theorem scoredCalls_succ (s : Selection) (machine : Machine σ) (data : Dataset) (count : Nat) :
    s.scoredCalls machine data (count + 1) = do
      let o ← s.scored machine data
      let rest ← s.scoredCalls machine data count
      return o :: rest := by
  unfold scoredCalls
  rw [List.replicate_succ, List.mapM_cons]

theorem Succeeds.nil : s.Succeeds machine data state [] state := ⟨rfl, by simp⟩

theorem Succeeds.cons {o : Partition Float32 × Float}
    {outcomes : List (Partition Float32 × Float)} {called : σ}
    (ho : s.scored machine data state = .ok o called)
    (h : s.Succeeds machine data called outcomes final) :
    s.Succeeds machine data state (o :: outcomes) final := by
  obtain ⟨hcall, hscore⟩ := scored_eq_ok.1 ho
  refine ⟨?_, List.forall_mem_cons.2 ⟨hscore, h.scores⟩⟩
  rw [List.length_cons, Machine.calls_succ, step_bind_of_ok hcall, step_bind_of_ok h.calls]
  rfl

theorem Succeeds.uncons {o : Partition Float32 × Float}
    {outcomes : List (Partition Float32 × Float)}
    (h : s.Succeeds machine data state (o :: outcomes) final) :
    ∃ called, s.scored machine data state = .ok o called ∧
      s.Succeeds machine data called outcomes final := by
  obtain ⟨hcalls, hscores⟩ := h
  rw [List.length_cons, Machine.calls_succ] at hcalls
  obtain ⟨partition, called, hcall, hcalls⟩ := step_bind_eq_ok.1 hcalls
  obtain ⟨rest, u, hrest, hcalls⟩ := step_bind_eq_ok.1 hcalls
  obtain ⟨hcons, rfl⟩ := step_pure_eq_ok.1 hcalls
  obtain ⟨rfl, rfl⟩ := List.cons.inj hcons
  obtain ⟨hscore, hscores⟩ := List.forall_mem_cons.1 hscores
  exact ⟨called, scored_eq_ok.2 ⟨hcall, hscore⟩, hrest, hscores⟩

/-- Scored calls succeed where the calls do and all their partitions have scores. -/
theorem scoredCalls_of_succeeds {outcomes : List (Partition Float32 × Float)}
    (h : s.Succeeds machine data state outcomes final) :
    s.scoredCalls machine data outcomes.length state = .ok outcomes final := by
  induction outcomes generalizing state with
  | nil =>
    cases h.calls
    rfl
  | cons o outcomes ih =>
    obtain ⟨called, ho, hrest⟩ := h.uncons
    rw [List.length_cons, scoredCalls_succ, step_bind_of_ok ho, step_bind_of_ok (ih hrest)]
    rfl

theorem scoredCalls_of_fails {outcomes : List (Partition Float32 × Float)}
    (h : s.Fails machine data state outcomes e final) {count : Nat}
    (hcount : outcomes.length < count) :
    s.scoredCalls machine data count state = .error e final := by
  obtain ⟨before, hsucceeds, hfails⟩ := h
  induction outcomes generalizing state count with
  | nil =>
    obtain ⟨count, rfl⟩ := Nat.exists_eq_add_of_lt hcount
    cases hsucceeds.calls
    rw [scoredCalls_succ, step_bind_of_error (scored_eq_error.2 hfails)]
  | cons o outcomes ih =>
    cases count with
    | zero => cases hcount
    | succ count =>
      obtain ⟨called, ho, hrest⟩ := hsucceeds.uncons
      have hcount' := Nat.lt_of_succ_lt_succ hcount
      rw [scoredCalls_succ, step_bind_of_ok ho, step_bind_of_error (ih hcount' hrest)]

/-- Either all calls succeed and are scored, or there is a first that is not. -/
theorem succeeds_or_fails (s : Selection) (machine : Machine σ) (data : Dataset) (count : Nat)
    (state : σ) :
    (∃ outcomes final, outcomes.length = count ∧ s.Succeeds machine data state outcomes final) ∨
      ∃ outcomes e final, outcomes.length < count ∧
        s.Fails machine data state outcomes e final := by
  induction count generalizing state with
  | zero => exact .inl ⟨[], state, rfl, .nil⟩
  | succ count ih =>
    cases ho : s.scored machine data state with
    | error e final =>
      exact .inr ⟨[], e, final, Nat.succ_pos count, state, .nil, scored_eq_error.1 ho⟩
    | ok o called =>
      rcases ih called with ⟨outcomes, final, rfl, h⟩ | ⟨outcomes, e, final, hlt, before, h, hfails⟩
      · exact .inl ⟨o :: outcomes, final, rfl, h.cons ho⟩
      · exact .inr ⟨o :: outcomes, e, final, Nat.succ_lt_succ hlt, before, h.cons ho, hfails⟩

end Machine

section Procedure

variable {s : Selection} {procedure : Procedure σ} {machine : Machine σ} {data : Dataset}
  (hruns : procedure.Runs machine) (hverbose : s.verbose.numeral?.isSome)
include hruns hverbose

/-- A trial is a scored call under its number. -/
theorem trial_follows (data : Dataset) (number : Nat) : Follows Session.At (s.trial procedure data number)
    ((fun o => ⟨number, some o.1, o.2⟩) <$> s.scored machine data) := by
  have hdetails := Verbosity.isSome_details hverbose
  unfold trial scored
  rw [map_bind]
  refine (hruns data).bind fun partition => ?_
  rw [map_bind]
  refine (Follows.lift (Partition.score s.metric partition)).bind fun score => ?_
  intro session state hat
  cases hlevel : (Verbosity.ofValue s.verbose).details with
  | none =>
    rw [hlevel] at hdetails
    cases hdetails
  | some detailed => cases detailed <;> exact .ok hat

theorem bestFrom_follows (data : Dataset) (count number : Nat) (best : Scored) :
    Follows Session.At (s.bestFrom procedure data count number best)
      ((fun outcomes => (numbered number outcomes).foldl Scored.keepBetter best) <$>
        s.scoredCalls machine data count) := by
  induction count generalizing number best with
  | zero => exact .pure best
  | succ count ih =>
    have hfirst : (fun outcomes => (numbered number outcomes).foldl Scored.keepBetter best) <$>
        s.scoredCalls machine data (count + 1) =
      ((fun o => ⟨number, some o.1, o.2⟩) <$> s.scored machine data) >>= fun candidate =>
        (fun outcomes => (numbered (number + 1) outcomes).foldl Scored.keepBetter
          (best.keepBetter candidate)) <$> s.scoredCalls machine data count := by
      rw [scoredCalls_succ, bind_map_left]
      simp only [map_bind, map_pure]
      rfl
    rw [hfirst]
    exact (trial_follows hruns hverbose data number).bind fun candidate => ih (number + 1) _

theorem best_follows (data : Dataset) : Follows Session.At (s.best procedure data)
    ((fun outcomes => (numbered 1 outcomes).foldl Scored.keepBetter .none) <$>
      s.scoredCalls machine data s.trials.toNat) := by
  have hfrom := bestFrom_follows hruns hverbose data s.trials.toNat 1 .none
  rw [← bind_pure ((fun outcomes => _) <$> s.scoredCalls machine data s.trials.toNat)]
  unfold best
  refine hfrom.bind fun best => ?_
  intro session state hat
  cases s.verbose.isTruthy <;> exact .ok hat

/-- The results of trials that succeed are taken one by one. -/
theorem take_of_succeeds {outcomes : List (Partition Float32 × Float)} {session : Session σ}
    {final : σ} (h : s.Succeeds machine data session.procedure outcomes final) {number : Nat}
    (hnumber : (number + outcomes.length : Int) ≤ s.trials + 1) (more : Nat) :
    ∃ t : Session σ, t.procedure = final ∧
      s.take procedure data (outcomes.length + more) number session =
        let (rest, ending, u) := s.take procedure data more (number + outcomes.length) t
        (numbered number outcomes ++ rest, ending, u) := by
  induction outcomes generalizing number session with
  | nil =>
    cases h.calls
    refine ⟨session, rfl, ?_⟩
    rw [List.length_nil, Nat.zero_add]
    rfl
  | cons o outcomes ih =>
    obtain ⟨called, ho, hrest⟩ := h.uncons
    have hagree := trial_follows hruns hverbose data number session _ rfl
    rw [step_map_of_ok ho] at hagree
    obtain ⟨u, htrial, rfl⟩ := hagree.of_ok
    rw [List.length_cons] at hnumber
    have hnumber' : ((number + 1 : Nat) + outcomes.length : Int) ≤ s.trials + 1 := by omega
    obtain ⟨t, ht, htake⟩ := ih hrest hnumber'
    have hlt : ¬ s.trials < number := by omega
    refine ⟨t, ht, ?_⟩
    rw [List.length_cons, Nat.add_right_comm, take, if_neg hlt, htrial]
    dsimp only
    rw [htake, Nat.add_assoc, Nat.add_comm 1]
    rfl

/-- Taking as many results as calls succeed gives the results of these calls. -/
theorem take_eq_numbered {outcomes : List (Partition Float32 × Float)} {session : Session σ}
    {final : σ} (h : s.Succeeds machine data session.procedure outcomes final)
    (hcount : (outcomes.length : Int) ≤ s.trials) : ∃ t : Session σ, t.procedure = final ∧
      s.take procedure data outcomes.length 1 session = (numbered 1 outcomes, .paused, t) := by
  have hnumber : ((1 : Nat) + outcomes.length : Int) ≤ s.trials + 1 := by omega
  obtain ⟨t, ht, htake⟩ := take_of_succeeds hruns hverbose h hnumber 0
  refine ⟨t, ht, ?_⟩
  rw [Nat.add_zero, take] at htake
  rw [htake]
  simp

theorem best_of_succeeds {outcomes : List (Partition Float32 × Float)} {session : Session σ}
    {final : σ} (h : s.Succeeds machine data session.procedure outcomes final)
    (hcount : (outcomes.length : Int) = s.trials) : ∃ t : Session σ, t.procedure = final ∧
      s.best procedure data session =
        .ok ((numbered 1 outcomes).foldl Scored.keepBetter .none) t := by
  have hbest := best_follows hruns hverbose data session _ rfl
  rw [show s.trials.toNat = outcomes.length by omega,
    step_map_of_ok (scoredCalls_of_succeeds h)] at hbest
  obtain ⟨t, hok, ht⟩ := hbest.of_ok
  exact ⟨t, ht, hok⟩

theorem best_of_fails {outcomes : List (Partition Float32 × Float)} {session : Session σ}
    {e : Fault} {final : σ} (h : s.Fails machine data session.procedure outcomes e final)
    (hcount : (outcomes.length : Int) < s.trials) : ∃ t : Session σ, t.procedure = final ∧
      s.best procedure data session = .error e t := by
  have hbest := best_follows hruns hverbose data session _ rfl
  have hcalls := scoredCalls_of_fails h (show outcomes.length < s.trials.toNat by omega)
  rw [map_eq_pure_bind, step_bind_of_error hcalls] at hbest
  obtain ⟨t, herror, ht⟩ := hbest.of_error
  exact ⟨t, ht, herror⟩

end Procedure

/-- Either all trials are calls that succeed, or there is a first that fails. -/
theorem trials_cases (s : Selection) (machine : Machine σ) (data : Dataset) (htrials : 1 ≤ s.trials)
    (state : σ) :
    (∃ outcomes final, (outcomes.length : Int) = s.trials ∧
      s.Succeeds machine data state outcomes final) ∨
    ∃ outcomes e final, (outcomes.length : Int) < s.trials ∧
      s.Fails machine data state outcomes e final := by
  obtain ⟨outcomes, final, hcount, h⟩ | ⟨outcomes, e, final, hlt, h⟩ :=
    s.succeeds_or_fails machine data s.trials.toNat state
  · exact .inl ⟨outcomes, final, by omega, h⟩
  · exact .inr ⟨outcomes, e, final, by omega, h⟩

end Selection

end Centroids

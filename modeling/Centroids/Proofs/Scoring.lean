import Centroids.Proofs.Dialogue
import Centroids.Proofs.Unscored

/-! The metric that scores and the metric that assigns.  A selection that is given no distance scores
with the metric that its clusterer has when the selection is made, and goes on to do so.  The clusterer
assigns points with the metric that its options name at the time: once they name another one,
partitions are scored by a metric that did not make them. -/
namespace Centroids

namespace Clusterer

/-- The metric after an option is stored. -/
def Setting.metricAfter (m : Metric Float32) : Setting → Metric Float32
  | parameter (.distance d) =>
    match d.resolve with
    | .ok n => n
    | .error _ => m
  | _ => m

theorem Setting.distance_put (c : Clusterer) (s : Setting) :
    (put c s).parameters.distance = s.metricAfter c.parameters.distance := by
  cases s with
  | parameter p =>
    cases p with
    | distance d =>
      change _ = match d.resolve with
        | .ok n => n
        | .error _ => c.parameters.distance
      cases hd : d.resolve with
      | ok m =>
        have hq : (Parameter.distance d).mapM Distance.resolve = .ok (.distance m) := by
          rw [Parameter.mapM, hd]
          rfl
        rw [put_of_store (store_parameter hq)]
        rfl
      | error e =>
        have hq : (Parameter.distance d).mapM Distance.resolve = .error e := by
          rw [Parameter.mapM, hd]
          rfl
        simp only [put, store, hq]
        rfl
    | _ => rfl
  | _ => rfl

theorem Setting.distance_foldl_put (settings : List Setting) (c : Clusterer) :
    (settings.foldl put c).parameters.distance =
      settings.foldl metricAfter c.parameters.distance := by
  induction settings generalizing c with
  | nil => rfl
  | cons s settings ih => rw [List.foldl_cons, List.foldl_cons, ih, distance_put]

/-- The metric after a call: only a change of options replaces it, also one that fails halfway. -/
def Command.metricAfter (m : Metric Float32) : Command → Metric Float32
  | run _ => m
  | set _ settings => (Setting.stored settings).foldl Setting.metricAfter m

/-- Runs leave the options as they are. -/
theorem parameters_run (horizon : Nat) (data : Dataset) (s : Session Clusterer) :
    (finalState (run horizon data s)).procedure.parameters = s.procedure.parameters := by
  cases hprepare : s.procedure.prepare data with
  | error e =>
    rw [run_of_prepare_error hprepare]
    rfl
  | ok p =>
    rw [run_eq hprepare]
    cases Trial.run horizon p.plan p.points (p.journal s) with
    | ok outcome k => rfl
    | error e k => rfl

theorem Command.distance_after (horizon : Nat) (s : Session Clusterer) (command : Command) :
    (command.after horizon s).procedure.parameters.distance =
      command.metricAfter s.procedure.parameters.distance := by
  cases command with
  | run data => exact congrArg Parameters.distance (parameters_run horizon data s)
  | set entropy settings =>
    obtain ⟨g, hfinal⟩ := finalState_set entropy settings s.procedure
    change (finalState (Clusterer.set entropy settings s.procedure)).parameters.distance = _
    rw [hfinal]
    exact Setting.distance_foldl_put _ s.procedure

end Clusterer

namespace Selection

def Call.metricAfter (m : Metric Float32) : Call → Metric Float32
  | command c => c.metricAfter m
  | _ => m

section Keep

variable {horizon : Nat} {s : Selection} {data : Dataset} {session : Session Clusterer}

/-- Trials leave the options of the clusterer as they are, and each is run with these. -/
theorem parameters_take (s : Selection) (horizon : Nat) (data : Dataset) (count number : Nat)
    (session : Session Clusterer) :
    (s.take (Clusterer.within horizon) data count number session).2.2.procedure.parameters =
        session.procedure.parameters ∧
      ∀ r ∈ (s.take (Clusterer.within horizon) data count number session).1,
        ∃ (i : Nat) (t u : Session Clusterer),
          t.procedure.parameters = session.procedure.parameters ∧
          s.trial (Clusterer.within horizon) data i t = .ok r u := by
  refine take_keeps (fun c : Clusterer => c.parameters = session.procedure.parameters) ?_ s count
    number rfl
  intro t ht
  unfold Clusterer.within
  rw [finalState_map, Clusterer.parameters_run, ht]

theorem parameters_best (s : Selection) (horizon : Nat) (data : Dataset)
    (session : Session Clusterer) :
    (finalState (s.best (Clusterer.within horizon) data session)).procedure.parameters =
      session.procedure.parameters := by
  have hkept := (s.parameters_take horizon data s.trials.toNat 1 session).1
  rw [best_eq_take]
  generalize s.take (Clusterer.within horizon) data s.trials.toNat 1 session = result at hkept ⊢
  obtain ⟨taken, ending, t⟩ := result
  unfold conclude
  cases ending with
  | failed e => exact hkept
  | _ => cases s.verbose.isTruthy <;> exact hkept

theorem distance_answer (horizon : Nat) (s : Selection) (call : Call) (session : Session Clusterer) :
    (call.answer horizon s session).2.procedure.parameters.distance =
      call.metricAfter session.procedure.parameters.distance := by
  cases call with
  | command command =>
    cases command with
    | run data => exact Clusterer.Command.distance_after horizon session (.run data)
    | set entropy settings =>
      exact Clusterer.Command.distance_after horizon session (.set entropy settings)
  | best data => exact congrArg Parameters.distance (s.parameters_best horizon data session)
  | take data count number =>
    exact congrArg Parameters.distance (s.parameters_take horizon data count number session).1

theorem distance_talk (horizon : Nat) (s : Selection) (calls : List Call)
    (session : Session Clusterer) :
    (talk horizon s calls session).2.procedure.parameters.distance =
      calls.foldl Call.metricAfter session.procedure.parameters.distance := by
  induction calls generalizing session with
  | nil => rfl
  | cons call rest ih =>
    rw [List.foldl_cons, ← distance_answer horizon s call session, ← ih]
    rfl

/-- A trial that succeeds is a run of the clusterer, whose partition is scored. -/
theorem exists_run_of_trial {number : Nat} {r : Scored} {u : Session Clusterer}
    (h : s.trial (Clusterer.within horizon) data number session = .ok r u) :
    ∃ outcome t, Clusterer.run horizon data session = .ok outcome t ∧
      r.partition = some outcome.clusters ∧
      Partition.score s.metric outcome.clusters = .ok r.score := by
  unfold trial at h
  obtain ⟨partition, t, hcall, h⟩ := step_bind_eq_ok.1 h
  obtain ⟨score, t', hlift, h⟩ := step_bind_eq_ok.1 h
  obtain ⟨hscore, rfl⟩ := step_lift_eq_ok.1 hlift
  have hr : r = ⟨number, some partition, score⟩ := by
    cases hdetails : (Verbosity.ofValue s.verbose).details with
    | none =>
      rw [hdetails] at h
      cases h
    | some detailed =>
      rw [hdetails] at h
      cases detailed <;> cases h <;> rfl
  subst hr
  unfold Clusterer.within at hcall
  rw [map_eq_pure_bind] at hcall
  obtain ⟨outcome, u, hrun, hcall⟩ := step_bind_eq_ok.1 hcall
  obtain ⟨rfl, rfl⟩ := step_pure_eq_ok.1 hcall
  exact ⟨outcome, u, hrun, rfl, hscore⟩

end Keep

theorem foldl_keepBetter_mem (taken : List Scored) (best : Scored) :
    taken.foldl Scored.keepBetter best = best ∨ taken.foldl Scored.keepBetter best ∈ taken := by
  induction taken generalizing best with
  | nil => exact .inl rfl
  | cons candidate taken ih =>
    rw [List.foldl_cons]
    rcases ih (best.keepBetter candidate) with hkept | hmem
    · rw [hkept]
      rcases best.keepBetter_eq_or candidate with h | h
      · exact .inr (by rw [h]; exact List.mem_cons_self ..)
      · exact .inl h
    · exact .inr (List.mem_cons_of_mem _ hmem)

/-- The best of several trials is one of them, or what there was before. -/
theorem best_mem_take {σ : Type} {s : Selection} {procedure : Procedure σ} {data : Dataset}
    {session t : Session σ} {best : Scored} (h : s.best procedure data session = .ok best t) :
    best = .none ∨ best ∈ (s.take procedure data s.trials.toNat 1 session).1 := by
  rw [best_eq_take] at h
  generalize s.take procedure data s.trials.toNat 1 session = result at h ⊢
  obtain ⟨taken, ending, u⟩ := result
  cases ending with
  | failed e => cases h
  | _ =>
    cases h
    exact foldl_keepBetter_mem taken .none

section Make

variable {trials verbose : Value} {c : Clusterer} {s : Selection}

theorem metric_of_make (h : ofClusterer trials (.value .null) verbose c = .ok s) :
    s.metric = .metric c.parameters.distance := by
  obtain ⟨count, -, h⟩ := bind_eq_ok.1 h
  cases h
  rfl

/-- A selection without a distance of its own scores all trials with the metric that its clusterer had
when it was made, and each trial assigns with the metric that the calls before it have left.  So the
two agree exactly if the last change of the metric, if there was any, went back to the first. -/
theorem metric_agrees_iff (hmake : ofClusterer trials (.value .null) verbose c = .ok s)
    (horizon : Nat) (calls : List Call) (notices : List Notice) :
    let t := (talk horizon s calls ⟨c, notices⟩).2
    let own := calls.foldl Call.metricAfter c.parameters.distance
    (s.metric = .metric t.procedure.parameters.distance ↔ own = c.parameters.distance) ∧
    (∀ data count number, ∀ r ∈ (s.take (Clusterer.within horizon) data count number t).1,
      ∃ x outcome y p stage, Clusterer.run horizon data x = .ok outcome y ∧
        x.procedure.parameters = t.procedure.parameters ∧
        Clusterer.Course data x outcome y p stage ∧
        (∀ i ≤ outcome.iterations, (stage i).Covers own p.points p.plan.clusters.toNat) ∧
        r.partition = some outcome.clusters ∧
        Partition.score (.metric c.parameters.distance) outcome.clusters = .ok r.score) ∧
    ∀ data best u, s.best (Clusterer.within horizon) data t = .ok best u →
      best = .none ∨ best ∈ (s.take (Clusterer.within horizon) data s.trials.toNat 1 t).1 := by
  intro t own
  have hown : t.procedure.parameters.distance = own := distance_talk horizon s calls ⟨c, notices⟩
  refine ⟨?_, ?_, fun data best u hbest => best_mem_take hbest⟩
  · rw [metric_of_make hmake, hown, Distance.metric.injEq]
    exact eq_comm
  · intro data count number r hr
    obtain ⟨i, x, u, hx, htrial⟩ := (s.parameters_take horizon data count number t).2 r hr
    obtain ⟨outcome, y, hrun, hpartition, hscore⟩ := exists_run_of_trial htrial
    obtain ⟨p, stage, hcourse⟩ := Clusterer.exists_course hrun
    rw [metric_of_make hmake] at hscore
    have hmetric : p.plan.metric = own := by
      rw [(Clusterer.prepare_eq_ok hcourse.prepared).2.2.1, hx, hown]
    refine ⟨x, outcome, y, p, stage, hrun, hx, hcourse, ?_, hpartition, hscore⟩
    intro i hi
    rw [← hmetric]
    exact hcourse.stages.covers hcourse.pos hi

end Make

/-- Another metric by its name. -/
def manhattan : Clusterer.Setting := .parameter (.distance (.value (.text "manhattan")))

/-- Four points at the same distance from their mean, if it is Euclidean. -/
def circle : Dataset := .value (.list [.list [.int (-3), .int (-4)], .list [.int 3, .int 4],
  .list [.int 5, .int 0], .list [.int (-5), .int 0]])

theorem ofClusterer_solitary :
    ofClusterer (.int 1) (.value .null) (.int 0) solitary.procedure = .ok once := rfl

/-- The metrics agree after a selection, and no longer after the clusterer has been given another. -/
theorem metric_agrees_iff_solitary :
    once.metric = .metric
        (talk 9 once [.best circle] ⟨solitary.procedure, []⟩).2.procedure.parameters.distance ∧
      once.metric ≠ .metric (talk 9 once [.command (.set 0 [manhattan])]
        ⟨solitary.procedure, []⟩).2.procedure.parameters.distance := by
  obtain ⟨hkept, -⟩ := metric_agrees_iff ofClusterer_solitary 9 [.best circle] []
  obtain ⟨hreplaced, -⟩ :=
    metric_agrees_iff ofClusterer_solitary 9 [.command (.set 0 [manhattan])] []
  refine ⟨hkept.2 rfl, ?_⟩
  rw [Ne, hreplaced]
  intro h
  cases h

/-- The only trial assigns with one metric and is scored with another, by which the partition has no
variance at all. -/
theorem score_disagrees_circle :
    ofClusterer (.int 1) (.value .null) (.int 0) solitary.procedure = .ok once ∧
    ∃ c, Clusterer.set 0 [manhattan] solitary.procedure = .ok () c ∧
      once.metric ≠ .metric c.parameters.distance ∧
      ∃ best t partition score, once.best Clusterer.cluster circle ⟨c, []⟩ = .ok best t ∧
        best.partition = some partition ∧
        Partition.score (.metric c.parameters.distance) partition = .ok score ∧
        Scalar.lt best.score score = true := by
  refine ⟨ofClusterer_solitary, finalState (Clusterer.set 0 [manhattan] solitary.procedure), rfl,
    ?_, ?_⟩
  · intro h
    cases h
  · have hlower : (match once.best Clusterer.cluster circle
          ⟨finalState (Clusterer.set 0 [manhattan] solitary.procedure), []⟩ with
        | .ok best _ => best.partition.bind fun partition =>
            (Partition.score (.metric (.formula .manhattan)) partition).toOption.map
              fun score => Scalar.lt best.score score
        | .error _ _ => none) = some true := by decide +kernel
    cases hbest : once.best Clusterer.cluster circle
        ⟨finalState (Clusterer.set 0 [manhattan] solitary.procedure), []⟩ with
    | error e t =>
      rw [hbest] at hlower
      cases hlower
    | ok best t =>
      rw [hbest] at hlower
      obtain ⟨partition, hpartition, hscored⟩ := Option.bind_eq_some_iff.1 hlower
      obtain ⟨score, hscore, hlt⟩ := Option.map_eq_some_iff.1 hscored
      have hvalue : Partition.score (.metric (.formula .manhattan)) partition = .ok score := by
        cases hresult : Partition.score (.metric (.formula .manhattan)) partition with
        | error e =>
          rw [hresult] at hscore
          cases hscore
        | ok x =>
          rw [hresult] at hscore
          cases hscore
          rfl
      exact ⟨best, t, partition, score, rfl, hpartition, hvalue, hlt⟩

end Selection

end Centroids

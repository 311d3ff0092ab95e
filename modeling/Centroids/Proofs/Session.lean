import Centroids.Clusterer

/-! What a run leaves behind.  Its options are judged first; then its trial is run with the generator of
the clusterer, and whether it returns or fails, the generator and the criterion of the trial are
kept.  Only a run that returns counts its iterations. -/
namespace Centroids

namespace Clusterer

/-- The journal with which the trial of a run begins. -/
def Prepared.journal (p : Prepared) (s : Session Clusterer) : Journal :=
  ⟨s.procedure.generator, p.criterion,
    if p.plan.verbosity.reports then s.notices ++ [.initializing s.procedure.clusters]
    else s.notices⟩

/-- The clusterer keeps the generator and the criterion of a trial. -/
def keep (s : Session Clusterer) (k : Journal) : Session Clusterer :=
  ⟨{ s.procedure with generator := k.generator, criterion := some k.criterion }, k.notices⟩

/-- A run that returns counts its iterations and reports its end. -/
def Prepared.finish (p : Prepared) (s : Session Clusterer) (outcome : Trial.Outcome Float32)
    (k : Journal) : Session Clusterer :=
  ⟨{ (keep s k).procedure with iterations := outcome.iterations },
    if p.plan.verbosity.reports then
      if outcome.converged then k.notices ++ [.finished]
      else k.notices ++ [.unconverged s.procedure.parameters.maxIter] ++ [.finished]
    else k.notices⟩

theorem inSession_eq {β : Type} (criterion : Criterion) (step : Journal.Step β)
    (s : Session Clusterer) : inSession criterion step s =
      match step ⟨s.procedure.generator, criterion, s.notices⟩ with
      | .ok x k => .ok x (keep s k)
      | .error e k => .error e (keep s k) := rfl

variable {data : Dataset} {s : Session Clusterer} {p : Prepared}

/-- A run ends as the trial that it prepared. -/
theorem run_eq (h : s.procedure.prepare data = .ok p) (horizon : Nat) : run horizon data s =
    match Trial.run horizon p.plan p.points (p.journal s) with
    | .ok outcome k => .ok outcome (p.finish s outcome k)
    | .error e k => .error e (keep s k) := by
  have hget : (get : EStateM Fault (Session Clusterer) _) s = .ok s s := rfl
  have hprepare : (liftM (s.procedure.prepare data) : EStateM Fault (Session Clusterer) _) s =
      .ok p s := step_lift_eq_ok.2 ⟨h, rfl⟩
  have htrial : (do
      if p.plan.verbosity.reports then Journal.say (.initializing s.procedure.clusters)
      Trial.run horizon p.plan p.points : Journal.Step (Trial.Outcome Float32))
        ⟨s.procedure.generator, p.criterion, s.notices⟩ =
      Trial.run horizon p.plan p.points (p.journal s) := by
    unfold Prepared.journal
    cases p.plan.verbosity.reports <;> rfl
  have hsession := inSession_eq p.criterion (do
    if p.plan.verbosity.reports then Journal.say (.initializing s.procedure.clusters)
    Trial.run horizon p.plan p.points) s
  rw [htrial] at hsession
  unfold run
  refine (step_bind_of_ok hget).trans ((step_bind_of_ok hprepare).trans ?_)
  cases hrun : Trial.run horizon p.plan p.points (p.journal s) with
  | error e k =>
    rw [hrun] at hsession
    exact step_bind_of_error hsession
  | ok outcome k =>
    rw [hrun] at hsession
    refine (step_bind_of_ok hsession).trans ?_
    dsimp only [Prepared.finish]
    cases p.plan.verbosity.reports <;> cases outcome.converged <;> rfl

theorem run_of_prepare_error {e : Fault} (h : s.procedure.prepare data = .error e) (horizon : Nat) :
    run horizon data s = .error e s := by
  have hget : (get : EStateM Fault (Session Clusterer) _) s = .ok s s := rfl
  unfold run
  refine (step_bind_of_ok hget).trans (step_bind_of_error ?_)
  rw [h]
  rfl

theorem run_eq_ok {horizon : Nat} {outcome : Trial.Outcome Float32} {t : Session Clusterer} :
    run horizon data s = .ok outcome t ↔ ∃ p k, s.procedure.prepare data = .ok p ∧
      Trial.run horizon p.plan p.points (p.journal s) = .ok outcome k ∧
      t = p.finish s outcome k := by
  cases hprepare : s.procedure.prepare data with
  | error e => simp [run_of_prepare_error hprepare]
  | ok p =>
    rw [run_eq hprepare]
    cases hrun : Trial.run horizon p.plan p.points (p.journal s) with
    | error e k => simp [hrun]
    | ok outcome k =>
      simp only [EStateM.Result.ok.injEq, Except.ok.injEq, exists_and_left, exists_eq_left', hrun]
      constructor
      · rintro ⟨rfl, rfl⟩
        exact ⟨k, ⟨rfl, rfl⟩, rfl⟩
      · rintro ⟨k, ⟨rfl, rfl⟩, rfl⟩
        exact ⟨rfl, rfl⟩

/-- A run fails when its options do, which leaves everything as it was, or when its trial does. -/
theorem run_eq_error {horizon : Nat} {e : Fault} {t : Session Clusterer} :
    run horizon data s = .error e t ↔ s.procedure.prepare data = .error e ∧ t = s ∨
      ∃ p k, s.procedure.prepare data = .ok p ∧
        Trial.run horizon p.plan p.points (p.journal s) = .error e k ∧ t = keep s k := by
  cases hprepare : s.procedure.prepare data with
  | error e' => simp [run_of_prepare_error hprepare, eq_comm]
  | ok p =>
    rw [run_eq hprepare]
    cases hrun : Trial.run horizon p.plan p.points (p.journal s) with
    | ok outcome k => simp [hrun]
    | error e' k =>
      simp only [EStateM.Result.error.injEq, Except.ok.injEq, exists_and_left, exists_eq_left',
        hrun, reduceCtorEq, false_and, false_or]
      constructor
      · rintro ⟨rfl, rfl⟩
        exact ⟨k, ⟨rfl, rfl⟩, rfl⟩
      · rintro ⟨k, ⟨rfl, rfl⟩, rfl⟩
        exact ⟨rfl, rfl⟩

end Clusterer

end Centroids

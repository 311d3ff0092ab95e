import Centroids.Proofs.BestTrial

/-! Whether several trials leave a partition.  One is kept exactly when some score is a number: the
best of no trial has an infinite score, which a NaN does not replace.  Scores of finite data can all
be NaNs, when distances are too great for their format. -/
namespace Centroids

namespace Selection

section Kept

variable {outcomes : List (Partition Float32 × Float)} {kept : Scored}

theorem Keeps.isSome_iff (h : Keeps outcomes kept) :
    kept.partition.isSome ↔ ∃ o ∈ outcomes, Scalar.isNaN o.2 = false := by
  rcases h with ⟨hall, rfl⟩ | ⟨place, partition, score, hat, hleast, rfl⟩
  · constructor
    · exact fun h => nomatch h
    · rintro ⟨o, ho, hnumber⟩
      rw [hall o ho] at hnumber
      cases hnumber
  · exact ⟨fun _ => ⟨(partition, score), List.mem_of_getElem? hat, hleast.not_nan⟩, fun _ => rfl⟩

/-- What is kept is one of the outcomes under its number, or what there was before any trial. -/
theorem Keeps.eq_none_or (h : Keeps outcomes kept) :
    kept = .none ∨ ∃ place : Nat, kept.trial = place + 1 ∧ ∃ partition,
      kept.partition = some partition ∧ outcomes[place]? = some (partition, kept.score) := by
  rcases h with ⟨-, hnone⟩ | ⟨place, partition, score, hat, -, rfl⟩
  · exact .inl hnone
  · exact .inr ⟨place, rfl, partition, rfl, hat⟩

end Kept

variable {σ : Type} {s : Selection} {procedure : Procedure σ} {data : Dataset}
  {session final : Session σ} {outcomes : List (Partition Float32 × Float)}

theorem best_of_completes (hverbose : s.verbose.numeral?.isSome)
    (hcompletes : Completes s procedure data 1 session outcomes final)
    (hcount : (outcomes.length : Int) = s.trials) :
    ∃ best t, s.best procedure data session = .ok best t ∧
      s.cluster procedure data session = .ok best.partition t ∧ Keeps outcomes best := by
  have hfold := bestFrom_eq hverbose hcompletes .none
  rw [show outcomes.length = s.trials.toNat by omega] at hfold
  rcases best_of_bestFrom hfold with ⟨t, hbest, -⟩
  exact ⟨_, t, hbest, step_map_of_ok hbest, foldl_keepBetter outcomes⟩

/-- If no trial fails, the best of them has a partition exactly when some score is a number.  It is then
that of the trial that is named, one of those that were run; otherwise nothing is returned. -/
theorem best_isSome_iff (hverbose : s.verbose.numeral?.isSome)
    (hcompletes : Completes s procedure data 1 session outcomes final)
    (hcount : (outcomes.length : Int) = s.trials) :
    ∃ best t, s.best procedure data session = .ok best t ∧
      s.cluster procedure data session = .ok best.partition t ∧
      (best.partition.isSome ↔ ∃ o ∈ outcomes, Scalar.isNaN o.2 = false) ∧
      (best = .none ∨ ∃ place : Nat, best.trial = place + 1 ∧ best.trial ≤ s.trials ∧ ∃ partition,
        best.partition = some partition ∧ outcomes[place]? = some (partition, best.score)) := by
  rcases best_of_completes hverbose hcompletes hcount with ⟨best, t, hbest, hcluster, hkept⟩
  refine ⟨best, t, hbest, hcluster, hkept.isSome_iff, ?_⟩
  rcases hkept.eq_none_or with hnone | ⟨place, htrial, partition, hpartition, hat⟩
  · exact .inl hnone
  · have hlt := (List.getElem?_eq_some_iff.1 hat).1
    exact .inr ⟨place, htrial, by omega, partition, hpartition, hat⟩

theorem best_isSome_iff_scripted : ∃ kept t,
    Selection.best ⟨5, magnified, none, .int 0⟩ scripted .texts ⟨0, []⟩ = .ok kept t ∧
      kept.partition.isSome := by
  rcases best_isSome_iff rfl scripted_completes rfl with ⟨kept, t, hbest, -, hsome, -⟩
  exact ⟨kept, t, hbest, hsome.2 ⟨([pairOf 0], 0), by simp [scriptedOutcomes], by decide +kernel⟩⟩

/-- One cluster is asked for, and all other options are left as they are. -/
def solitary : Session Clusterer where
  procedure :=
    { clusters := .int 1
      parameters := { Parameters.default with distance := .formula (.euclidean false) }
      metricVersion := 0
      generator := ⟨Vector.replicate 624 0, 0⟩
      criterion := none
      iterations := 0 }
  notices := []

/-- Finite numbers whose squares are not. -/
def remote : Dataset := .doubles (.ofList [3e38, -3e38])

/-- One trial, scored with the metric of the clusterer. -/
def once : Selection := ⟨1, .metric (.formula (.euclidean false)), some 0, .int 0⟩

/-- Both points are infinitely far from their mean, and the variance of infinities is a NaN. -/
theorem exists_score_remote : ∃ partition called score,
    Clusterer.cluster remote solitary = .ok partition called ∧
      Partition.score once.metric partition = .ok score ∧ Scalar.isNaN score = true := by
  have hnan : (match Clusterer.cluster remote solitary with
      | .ok partition _ => (Partition.score once.metric partition).toOption.map Scalar.isNaN
      | .error _ _ => none) = some true := by decide +kernel
  cases hcall : Clusterer.cluster remote solitary with
  | error e called =>
    rw [hcall] at hnan
    cases hnan
  | ok partition called =>
    simp only [hcall] at hnan
    cases hscore : Partition.score once.metric partition with
    | error e =>
      rw [hscore] at hnan
      cases hnan
    | ok score =>
      rw [hscore] at hnan
      exact ⟨partition, called, score, rfl, hscore, Option.some.inj hnan⟩

/-- The only trial succeeds and has a score, but nothing is returned. -/
theorem best_none_remote : ∃ points partition called score t,
    solitary.procedure.validate remote = .ok points ∧
    Clusterer.cluster remote solitary = .ok partition called ∧
    Partition.score once.metric partition = .ok score ∧
    once.best Clusterer.cluster remote solitary = .ok .none t ∧
    once.cluster Clusterer.cluster remote solitary = .ok none t := by
  have hvalid : (solitary.procedure.validate remote).isOk = true := by decide +kernel
  cases hpoints : solitary.procedure.validate remote with
  | error e =>
    rw [hpoints] at hvalid
    cases hvalid
  | ok points =>
    rcases exists_score_remote with ⟨partition, called, score, hcall, hscore, hnan⟩
    have hcompletes : Completes once Clusterer.cluster remote 1 solitary [(partition, score)] _ :=
      .cons hcall hscore (.nil _ _)
    rcases best_of_completes rfl hcompletes rfl with ⟨best, t, hbest, hcluster, hkept⟩
    have hnone : best.partition.isSome = false := by
      rw [Bool.eq_false_iff, Ne, hkept.isSome_iff]
      simp [hnan]
    have hnothing : best = .none := by
      rcases hkept.eq_none_or with hnothing | ⟨place, -, p, hsome, -⟩
      · exact hnothing
      · rw [hsome] at hnone
        cases hnone
    rw [hnothing] at hbest hcluster
    exact ⟨points, partition, called, score, t, rfl, hcall, hscore, hbest, hcluster⟩

end Selection

end Centroids

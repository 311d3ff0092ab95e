import Centroids.Proofs.Coverage

/-! The course of a run.  A run that returns goes from stage to stage: the first holds the seeded
partition, each further one is a round later, and only the last round may meet the criterion.  The
stages are numbered by the rounds before them. -/
namespace Centroids

namespace Trial

variable {α ω : Type} [Scalar α] [Sampled ω] [Widening α ω]

/-- The stages from the seeding to the end of a run with so many rounds. -/
structure Course (plan : Plan α) (points : Points α) (g : Generator) (c : Criterion) (count : Nat)
    (met : Bool) (stage : Nat → Stage α) : Prop where
  seeded : ∃ clusters labels g', start plan points g = .ok (clusters, labels) g' ∧
    stage 0 = ⟨0, clusters, g', { c.reset with previous := some (.ofList labels) }⟩
  round : ∀ i < count, Round plan points (stage i) (met && i + 1 == count) (stage (i + 1))
  pos_of_met : met = true → 0 < count
  over_of_unmet : met = false → isOver plan count = .ok true

variable {plan : Plan α} {points : Points α}

/-- Rounds in a row, as a sequence of stages. -/
theorem Rounds.exists_stages {s t : Stage α} {met : Bool} (h : Rounds plan points s met t) :
    ∃ count, ∃ stage : Nat → Stage α, stage 0 = s ∧ stage count = t ∧
      t.iteration = s.iteration + count ∧
      (∀ i < count, Round plan points (stage i) (met && i + 1 == count) (stage (i + 1))) ∧
      (met = true → 0 < count) ∧ (met = false → isOver plan t.iteration = .ok true) := by
  induction h with
  | @stopped s hover => exact ⟨0, fun _ => s, rfl, rfl, rfl, by simp, by simp, fun _ => hover⟩
  | @met s t hlast =>
    refine ⟨1, fun i => if i = 0 then s else t, rfl, rfl, hlast.next, ?_, by simp, by simp⟩
    intro i hi
    obtain rfl : i = 0 := by omega
    exact hlast
  | @next s t u met hfirst _ ih =>
    obtain ⟨count, stage, rfl, rfl, hcount, hround, hpos, hover⟩ := ih
    refine ⟨count + 1, fun i => i.casesOn s stage, rfl, rfl, ?_, ?_, by simp, hover⟩
    · rw [hcount, hfirst.next]
      omega
    · intro i hi
      cases i with
      | zero =>
        have hfalse : (met && 0 + 1 == count + 1) = false := by
          cases met with
          | false => rfl
          | true =>
            have := hpos rfl
            simp
            omega
        rw [hfalse]
        exact hfirst
      | succ i => simpa using hround i (by omega)

theorem exists_course {horizon : Nat} {outcome : Outcome α} {j k : Journal}
    (h : run horizon plan points j = .ok outcome k) :
    ∃ stage, Course plan points j.generator j.criterion outcome.iterations outcome.converged stage ∧
      stage outcome.iterations = .of outcome.iterations outcome.clusters k := by
  obtain ⟨clusters, labels, g, hstart, hrounds⟩ := run_eq_ok h
  obtain ⟨count, stage, hfirst, hlast, hcount, hround, hpos, hover⟩ := hrounds.exists_stages
  obtain rfl : outcome.iterations = count := hcount.trans (Nat.zero_add count)
  exact ⟨stage, ⟨⟨clusters, labels, g, hstart, hfirst⟩, hround, hpos, hover⟩, hlast⟩

namespace Course

variable {g : Generator} {c : Criterion} {count : Nat} {met : Bool} {stage : Nat → Stage α}
  (h : Course plan points g c count met stage)
include h

theorem iteration_eq {i : Nat} (hi : i ≤ count) : (stage i).iteration = i := by
  induction i with
  | zero =>
    obtain ⟨clusters, labels, g', -, hfirst⟩ := h.seeded
    rw [hfirst]
  | succ i ih => rw [(h.round i hi).next, ih (by omega)]

/-- What holds of the first stage and is kept by every round holds of all stages. -/
theorem invariant {holds : Stage α → Prop} (hfirst : holds (stage 0))
    (hround : ∀ s met t, holds s → Round plan points s met t → holds t) {i : Nat}
    (hi : i ≤ count) : holds (stage i) := by
  induction i with
  | zero => exact hfirst
  | succ i ih => exact hround _ _ _ (ih (by omega)) (h.round i hi)

theorem covers (hpos : 0 < plan.clusters) {i : Nat} (hi : i ≤ count) :
    (stage i).Covers plan.metric points plan.clusters.toNat := by
  apply h.invariant _ (fun _ _ _ hs hround => hround.covers hs) hi
  obtain ⟨clusters, labels, g', hstart, hfirst⟩ := h.seeded
  rw [hfirst]
  exact covers_of_start hpos hstart

/-- No round is begun beyond a limit. -/
theorem le_limit {limit : Nat} (hlimit : plan.limit = .atMost limit) : count ≤ limit := by
  cases count with
  | zero => exact Nat.zero_le limit
  | succ count =>
    have hgoing := (h.round count (Nat.lt_succ_self count)).not_stopped
    unfold isOver at hgoing
    rw [hlimit, h.iteration_eq (Nat.le_succ count)] at hgoing
    have := Except.ok.inj hgoing
    simp only [decide_eq_false_iff_not] at this
    omega

/-- A run that ends before its limit ends because its criterion is met. -/
theorem met_of_going (hgoing : isOver plan count = .ok false) : met = true := by
  cases met with
  | true => rfl
  | false =>
    rw [h.over_of_unmet rfl] at hgoing
    cases hgoing

end Course

end Trial

namespace Clusterer

/-- What a run went through and what it left behind. -/
structure Course (data : Dataset) (s : Session Clusterer) (outcome : Trial.Outcome Float32)
    (t : Session Clusterer) (p : Prepared) (stage : Nat → Trial.Stage Float32) : Prop where
  prepared : s.procedure.prepare data = .ok p
  stages : Trial.Course p.plan p.points s.procedure.generator p.criterion outcome.iterations
    outcome.converged stage
  clusters_eq : outcome.clusters = (stage outcome.iterations).clusters
  generator_eq : t.procedure.generator = (stage outcome.iterations).generator
  criterion_eq : t.procedure.criterion = some (stage outcome.iterations).criterion
  iterations_eq : t.procedure.iterations = outcome.iterations

variable {horizon : Nat} {data : Dataset} {s t : Session Clusterer}
  {outcome : Trial.Outcome Float32} {p : Prepared} {stage : Nat → Trial.Stage Float32}

theorem exists_course (h : run horizon data s = .ok outcome t) :
    ∃ p stage, Course data s outcome t p stage := by
  obtain ⟨p, k, hprepare, hrun, rfl⟩ := run_eq_ok.1 h
  obtain ⟨stage, hstages, hlast⟩ := Trial.exists_course hrun
  refine ⟨p, stage, hprepare, hstages, ?_, ?_, ?_, rfl⟩ <;> rw [hlast] <;> rfl

theorem Course.pos (h : Course data s outcome t p stage) : 0 < p.plan.clusters :=
  (count_of_prepare h.prepared).1

end Clusterer

end Centroids

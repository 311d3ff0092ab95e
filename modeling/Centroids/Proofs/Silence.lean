import Centroids.Proofs.Agreement
import Centroids.Proofs.Session

/-! What is reported does not matter.  Reports are only added to those before and never read, so runs
whose journals differ in them, and plans that report more or less, lead to the same end. -/
namespace Centroids

/-- Journals that differ at most in their reports. -/
structure Journal.Alike (j k : Journal) : Prop where
  generator_eq : j.generator = k.generator
  criterion_eq : j.criterion = k.criterion

namespace Journal

theorem draw_follows {β : Type} (choice : Random β) : Follows Alike (draw choice) (draw choice) := by
  intro j k hjk
  unfold draw
  rw [hjk.generator_eq]
  cases choice k.generator with
  | ok x g => exact .ok ⟨rfl, hjk.criterion_eq⟩
  | error e g => exact .error ⟨rfl, hjk.criterion_eq⟩

theorem check_follows (o : Observation) : Follows Alike (check o) (check o) := by
  intro j k hjk
  unfold check
  rw [hjk.criterion_eq]
  cases k.criterion.check o with
  | ok answer => exact .ok ⟨hjk.generator_eq, rfl⟩
  | error e => exact .error hjk

end Journal

namespace Trial

variable {α ω : Type} {plan : Plan α} {points : Points α} {v : Verbosity}

/-- The same plan with other reports. -/
def Plan.voiced (plan : Plan α) (v : Verbosity) : Plan α := { plan with verbosity := v }

theorem report_follows (h : plan.verbosity.details.isSome = v.details.isSome) (iteration : Nat)
    (reseeded : Bool) : Follows Journal.Alike (report plan iteration reseeded)
      (report (plan.voiced v) iteration reseeded) := by
  intro j k hjk
  have hvoiced : (plan.voiced v).verbosity = v := rfl
  unfold report
  rw [hvoiced]
  cases hp : plan.verbosity.details with
  | none =>
    cases hv : v.details with
    | none => exact .error hjk
    | some w => rw [hp, hv] at h; cases h
  | some u =>
    cases hv : v.details with
    | none => rw [hp, hv] at h; cases h
    | some w => cases u <;> cases w <;> exact .ok ⟨hjk.generator_eq, hjk.criterion_eq⟩

variable [Scalar α] [Sampled ω] [Widening α ω]

theorem round_follows (h : plan.verbosity.details.isSome = v.details.isSome) (iteration : Nat)
    (clusters : Partition α) : Follows Journal.Alike (round plan points iteration clusters)
      (round (plan.voiced v) points iteration clusters) := by
  unfold round
  refine (Journal.draw_follows _).bind fun (moved, labels, reseeded) => ?_
  refine (Journal.check_follows _).bind fun met => ?_
  exact (report_follows h iteration reseeded).bind fun _ => .pure _

theorem rounds_follows (h : plan.verbosity.details.isSome = v.details.isSome) (horizon iteration : Nat)
    (clusters : Partition α) : Follows Journal.Alike (rounds plan points horizon iteration clusters)
      (rounds (plan.voiced v) points horizon iteration clusters) := by
  induction horizon generalizing iteration clusters with
  | zero => exact .raise _
  | succ horizon ih =>
    unfold rounds
    refine (Follows.lift (isOver plan iteration)).bind fun stop => ?_
    cases stop with
    | true => exact .pure _
    | false =>
      refine (round_follows h iteration clusters).bind fun (next, met) => ?_
      cases met with
      | true =>
        intro j k hjk
        cases plan.verbosity.reports <;> cases (plan.voiced v).verbosity.reports <;>
          exact .ok ⟨hjk.generator_eq, hjk.criterion_eq⟩
      | false => exact ih (iteration + 1) next

theorem run_follows (h : plan.verbosity.details.isSome = v.details.isSome) (points : Points α)
    (horizon : Nat) :
    Follows Journal.Alike (run horizon plan points) (run horizon (plan.voiced v) points) := by
  unfold run
  refine (Journal.draw_follows _).bind fun (clusters, labels) => ?_
  refine Follows.bind (fun j k hjk => ?_) fun _ => ?_
  · exact .ok ⟨hjk.generator_eq, congrArg Criterion.reset hjk.criterion_eq⟩
  · exact (Journal.check_follows _).bind fun _ => rounds_follows h _ 0 clusters

end Trial

namespace Clusterer

variable {data : Dataset} {s t : Session Clusterer}

/-- Runs that prepare the same with the same generator end in the same way. -/
theorem run_agrees {p : Prepared} (hs : s.procedure.prepare data = .ok p)
    (ht : t.procedure.prepare data = .ok p)
    (hgenerator : s.procedure.generator = t.procedure.generator) (horizon : Nat) :
    ∃ j k, Journal.Alike j k ∧
      ((∃ outcome, run horizon data s = .ok outcome (p.finish s outcome j) ∧
        run horizon data t = .ok outcome (p.finish t outcome k)) ∨
      ∃ e, run horizon data s = .error e (keep s j) ∧ run horizon data t = .error e (keep t k)) := by
  have hjournals : Journal.Alike (p.journal s) (p.journal t) := ⟨hgenerator, rfl⟩
  have hplan : p.plan.verbosity.details.isSome = p.plan.verbosity.details.isSome := rfl
  have hagree := Trial.run_follows hplan p.points horizon _ _ hjournals
  rw [run_eq hs, run_eq ht]
  cases htrial : Trial.run horizon p.plan p.points (p.journal t) with
  | ok outcome k =>
    obtain ⟨j, hj, hjk⟩ := (htrial ▸ hagree).of_ok
    exact ⟨j, k, hjk, .inl ⟨outcome, by rw [hj], rfl⟩⟩
  | error e k =>
    obtain ⟨j, hj, hjk⟩ := (htrial ▸ hagree).of_error
    exact ⟨j, k, hjk, .inr ⟨e, by rw [hj], rfl⟩⟩

end Clusterer

end Centroids

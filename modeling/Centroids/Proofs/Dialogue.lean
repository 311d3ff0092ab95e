import Centroids.Proofs.BestTrial
import Centroids.Proofs.Diagnostics

/-! Calls to a clusterer and to a selection around it, in any order.  The clusterer stays within reach:
it can be run, and its options can be changed, between the runs of the selection and between the
trials of one.  A selection of the best is its trials taken one by one. -/
namespace Centroids

/-- Sessions whose procedures are related, whatever was reported in them. -/
def Session.Related {σ τ : Type} (related : σ → τ → Prop) (s : Session σ) (t : Session τ) : Prop :=
  related s.procedure t.procedure

/-- The runs of a clusterer, given up after as many rounds as the horizon if they have no limit. -/
def Clusterer.within (horizon : Nat) : Procedure Clusterer := fun data =>
  (·.clusters) <$> run horizon data

namespace Selection

variable {σ τ : Type}

/-- The session after a selection, whose outcome may be reported. -/
def conclude (s : Selection) (best : Scored) (session : Session σ) : Session σ :=
  if s.verbose.isTruthy then
    { session with notices := session.notices ++ [.best s.trials best.trial best.score] }
  else session

section Trials

variable {procedure : Procedure σ} {data : Dataset} {count number : Nat} {session : Session σ}

section Take

variable {s : Selection}

theorem take_of_over (h : s.trials < number) :
    s.take procedure data (count + 1) number session = ([], .exhausted, session) := by
  rw [take, if_pos h]

variable (h : ¬ s.trials < number)
include h

theorem take_of_error {e : Fault} {t : Session σ}
    (htrial : s.trial procedure data number session = .error e t) :
    s.take procedure data (count + 1) number session = ([], .failed e, t) := by
  rw [take, if_neg h, htrial]

theorem take_of_ok {scored : Scored} {t : Session σ}
    (htrial : s.trial procedure data number session = .ok scored t) :
    s.take procedure data (count + 1) number session =
      let (rest, ending, u) := s.take procedure data count (number + 1) t
      (scored :: rest, ending, u) := by
  rw [take, if_neg h, htrial]

end Take

theorem bestFrom_eq_take (s : Selection) (procedure : Procedure σ) (data : Dataset)
    (count number : Nat) (hnumber : ∀ i < count, ((number + i : Nat) : Int) ≤ s.trials) (best : Scored)
    (session : Session σ) : s.bestFrom procedure data count number best session =
      match s.take procedure data count number session with
      | (_, .failed e, t) => .error e t
      | (taken, _, t) => .ok (taken.foldl Scored.keepBetter best) t := by
  induction count generalizing number best session with
  | zero => rfl
  | succ count ih =>
    have hgoing : ¬ s.trials < number := by
      have hfirst := hnumber 0 (Nat.succ_pos count)
      omega
    have hrest : ∀ i < count, ((number + 1 + i : Nat) : Int) ≤ s.trials := by
      intro i hi
      have hnext := hnumber (i + 1) (Nat.succ_lt_succ hi)
      omega
    rw [bestFrom]
    cases htrial : s.trial procedure data number session with
    | error e t =>
      rw [take_of_error hgoing htrial]
      exact step_bind_of_error htrial
    | ok candidate t =>
      rw [take_of_ok hgoing htrial, step_bind_of_ok htrial, ih (number + 1) hrest]
      obtain ⟨taken, ending, u⟩ := s.take procedure data count (number + 1) t
      cases ending <;> rfl

/-- The best of several trials is what keeping the better leaves of all of them, and it fails where
they do. -/
theorem best_eq_take (s : Selection) (procedure : Procedure σ) (data : Dataset)
    (session : Session σ) : s.best procedure data session =
      match s.take procedure data s.trials.toNat 1 session with
      | (_, .failed e, t) => .error e t
      | (taken, _, t) => .ok (taken.foldl Scored.keepBetter .none)
          (s.conclude (taken.foldl Scored.keepBetter .none) t) := by
  have hfrom := s.bestFrom_eq_take procedure data s.trials.toNat 1 (fun i hi => by omega) .none session
  unfold best
  generalize s.take procedure data s.trials.toNat 1 session = result at hfrom ⊢
  obtain ⟨taken, ending, t⟩ := result
  cases ending with
  | failed e => exact step_bind_of_error hfrom
  | paused =>
    rw [step_bind_of_ok hfrom]
    unfold conclude
    cases s.verbose.isTruthy <;> rfl
  | exhausted =>
    rw [step_bind_of_ok hfrom]
    unfold conclude
    cases s.verbose.isTruthy <;> rfl

/-- What the procedure keeps is kept by a trial. -/
theorem trial_keeps (holds : σ → Prop) (hkeeps : ∀ session : Session σ, holds session.procedure →
      holds (finalState (procedure data session)).procedure)
    (s : Selection) (number : Nat) (h : holds session.procedure) :
    holds (finalState (s.trial procedure data number session)).procedure := by
  have hcalled := hkeeps session h
  unfold trial
  cases hcall : procedure data session with
  | error e t =>
    rw [hcall] at hcalled
    rw [step_bind_of_error hcall]
    exact hcalled
  | ok partition t =>
    rw [hcall] at hcalled
    rw [step_bind_of_ok hcall]
    cases Partition.score s.metric partition with
    | error e => exact hcalled
    | ok score =>
      cases (Verbosity.ofValue s.verbose).details with
      | none => exact hcalled
      | some detailed => cases detailed <;> exact hcalled

/-- Trials that are taken one by one keep what the procedure keeps, and each result is that of a trial
from where it holds. -/
theorem take_keeps (holds : σ → Prop) (hkeeps : ∀ session : Session σ, holds session.procedure →
      holds (finalState (procedure data session)).procedure)
    (s : Selection) (count number : Nat) (h : holds session.procedure) :
    holds (s.take procedure data count number session).2.2.procedure ∧
      ∀ r ∈ (s.take procedure data count number session).1, ∃ (i : Nat) (t u : Session σ),
        holds t.procedure ∧ s.trial procedure data i t = .ok r u := by
  induction count generalizing number session with
  | zero => exact ⟨h, by simp [take]⟩
  | succ count ih =>
    by_cases hover : s.trials < number
    · rw [take_of_over hover]
      exact ⟨h, by simp⟩
    · have hfirst := trial_keeps holds hkeeps s number h
      cases htrial : s.trial procedure data number session with
      | error e t =>
        rw [htrial] at hfirst
        rw [take_of_error hover htrial]
        exact ⟨hfirst, by simp⟩
      | ok scored t =>
        rw [htrial] at hfirst
        obtain ⟨hfinal, hresults⟩ := ih (number + 1) hfirst
        rw [take_of_ok hover htrial]
        refine ⟨hfinal, ?_⟩
        intro r hr
        rcases List.mem_cons.1 hr with rfl | hr
        · exact ⟨number, session, t, h, htrial⟩
        · exact hresults r hr

end Trials

inductive Call
  | command (command : Clusterer.Command)
  /-- The best of all trials, of which a selection gives the partition when it clusters. -/
  | best (data : Dataset)
  /-- At most so many trials one by one, from the one with a given number on. -/
  | take (data : Dataset) (count number : Nat)

/-- What a call answers; the best comes after the trials that were run for it. -/
inductive Answer
  | ran (result : Except Fault (Trial.Outcome Float32))
  | set (result : Except Fault Unit)
  | best (trials : List Scored) (result : Except Fault Scored)
  | taken (trials : List Scored) (ending : Ending)

def Call.answer (horizon : Nat) (s : Selection) : Call → Session Clusterer →
    Answer × Session Clusterer
  | command (.run data), session =>
    let result := Clusterer.run horizon data session
    (.ran (finalValue result), finalState result)
  | command (.set entropy settings), session =>
    let result := Clusterer.set entropy settings session.procedure
    (.set (finalValue result), { session with procedure := finalState result })
  | best data, session =>
    let trials := (s.take (Clusterer.within horizon) data s.trials.toNat 1 session).1
    let result := s.best (Clusterer.within horizon) data session
    (.best trials (finalValue result), finalState result)
  | take data count number, session =>
    let (trials, ending, t) := s.take (Clusterer.within horizon) data count number session
    (.taken trials ending, t)

/-- Calls one after another: their answers, and the session after them. -/
def talk (horizon : Nat) (s : Selection) : List Call → Session Clusterer →
    List Answer × Session Clusterer
  | [], session => ([], session)
  | call :: rest, session =>
    let (answer, t) := call.answer horizon s session
    let (answers, u) := talk horizon s rest t
    (answer :: answers, u)

end Selection

end Centroids

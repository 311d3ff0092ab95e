import Centroids.Proofs.Calls

/-! Selections with different numbers of trials.  The trials of the shorter one are the first of the
longer one, and keeping the better result goes on from what the shorter one keeps: the score never
gets worse, and a winner among the first trials wins in both. -/
namespace Centroids

namespace Scored

/-- What is kept of several candidates is one of them or what there was before. -/
theorem foldl_keepBetter_eq_or (best : Scored) (candidates : List Scored) :
    candidates.foldl keepBetter best = best ∨ candidates.foldl keepBetter best ∈ candidates := by
  induction candidates generalizing best with
  | nil => exact .inl rfl
  | cons candidate candidates ih =>
    rw [List.foldl_cons]
    rcases ih (best.keepBetter candidate) with hkept | hmem
    · rw [hkept]
      rcases keepBetter_eq_or best candidate with hcandidate | hbest
      · rw [hcandidate]
        exact .inr List.mem_cons_self
      · exact .inl hbest
    · exact .inr (List.mem_cons_of_mem _ hmem)

theorem keepBetter_le {best : Scored} (hnan : Scalar.isNaN best.score = false) (candidate : Scored) :
    Scalar.le (best.keepBetter candidate).score best.score = true := by
  unfold keepBetter
  split
  · assumption
  · exact Scalar.le_refl hnan

/-- Keeping the better one never makes a score worse that is a number. -/
theorem foldl_keepBetter_le {best : Scored} (hnan : Scalar.isNaN best.score = false)
    (candidates : List Scored) :
    Scalar.le (candidates.foldl keepBetter best).score best.score = true := by
  induction candidates generalizing best with
  | nil => exact Scalar.le_refl hnan
  | cons candidate candidates ih =>
    have hle := keepBetter_le hnan candidate
    exact Scalar.le_trans (ih ((Scalar.le_iff _ _).1 hle).1) hle

end Scored

namespace Selection

theorem numbered_append (number : Nat) (xs ys : List (Partition Float32 × Float)) :
    numbered number (xs ++ ys) = numbered number xs ++ numbered (number + xs.length) ys := by
  simp [numbered, List.zipIdx_append]

theorem lt_trial_of_mem_numbered {number : Nat} {outcomes : List (Partition Float32 × Float)}
    {scored : Scored} (h : scored ∈ numbered number outcomes) : (number : Int) ≤ scored.trial := by
  obtain ⟨⟨o, place⟩, hmem, rfl⟩ := List.mem_map.1 h
  have := (List.mem_zipIdx hmem).1
  dsimp only
  omega

variable {σ : Type} {s s' : Selection} {machine : Machine σ} {data : Dataset} {state final : σ}

/-- Calls that succeed begin with calls that do. -/
theorem Succeeds.of_append {xs ys : List (Partition Float32 × Float)}
    (h : s.Succeeds machine data state (xs ++ ys) final) :
    ∃ before, s.Succeeds machine data state xs before := by
  induction xs generalizing state with
  | nil => exact ⟨state, .nil⟩
  | cons o xs ih =>
    obtain ⟨called, ho, hrest⟩ := h.uncons
    obtain ⟨before, hxs⟩ := ih hrest
    exact ⟨before, hxs.cons ho⟩

/-- More trials never hurt.  If the selection with more trials returns, the one with fewer does so from
the same state; their common trials are the same, the score of the longer selection is at most that
of the shorter, and if a common trial wins the longer selection it wins both. -/
theorem best_le_of_trials_le {procedure : Procedure σ} (hruns : procedure.Runs machine)
    (hverbose : s.verbose.numeral?.isSome) (hverbose' : s'.verbose.numeral?.isSome)
    (hmetric : s.metric = s'.metric) (hpos : 1 ≤ s.trials) (hle : s.trials ≤ s'.trials)
    {session session' t' : Session σ} {best' : Scored}
    (hstate : session.procedure = session'.procedure)
    (hlong : s'.best procedure data session' = .ok best' t') :
    ∃ best t, s.best procedure data session = .ok best t ∧
      (s.take procedure data s.trials.toNat 1 session).1.length = s.trials.toNat ∧
      (s.take procedure data s.trials.toNat 1 session).1 =
        (s'.take procedure data s.trials.toNat 1 session').1 ∧
      Scalar.le best'.score best.score = true ∧
      (best'.trial ≤ s.trials → best = best') := by
  obtain ⟨outcomes, final, hcount, hall⟩ | ⟨outcomes, e, final, hcount, hfails⟩ :=
    s'.trials_cases machine data (hpos.trans hle) session'.procedure
  case inr =>
    obtain ⟨u, -, herror⟩ := best_of_fails hruns hverbose' hfails hcount
    rw [hlong] at herror
    cases herror
  obtain ⟨xs, ys, rfl, hxs⟩ : ∃ xs ys, outcomes = xs ++ ys ∧ xs.length = s.trials.toNat :=
    ⟨_, _, (List.take_append_drop s.trials.toNat outcomes).symm, by simp; omega⟩
  obtain ⟨before, hfirst'⟩ := hall.of_append
  have hfirst : s.Succeeds machine data session.procedure xs before :=
    ⟨hstate ▸ hfirst'.calls, hmetric ▸ hfirst'.scores⟩
  obtain ⟨t, -, hbest⟩ := best_of_succeeds hruns hverbose hfirst (by omega)
  obtain ⟨u, -, htake⟩ := take_eq_numbered hruns hverbose hfirst (by omega)
  obtain ⟨u', -, htake'⟩ := take_eq_numbered hruns hverbose' hfirst' (by omega)
  obtain ⟨v, -, hbest'⟩ := best_of_succeeds hruns hverbose' hall hcount
  rw [hlong, numbered_append, List.foldl_append] at hbest'
  cases hbest'
  have hnan : Scalar.isNaN ((numbered 1 xs).foldl Scored.keepBetter .none).score = false :=
    ((Scalar.le_iff _ _).1 (Scored.foldl_keepBetter_le (by decide +kernel) _)).1
  refine ⟨_, t, hbest, ?_, ?_, Scored.foldl_keepBetter_le hnan _, ?_⟩
  · rw [← hxs, htake]
    simp [numbered]
  · rw [← hxs, htake, htake']
  · intro hwinner
    obtain hkept | hmem := Scored.foldl_keepBetter_eq_or
      ((numbered 1 xs).foldl Scored.keepBetter .none) (numbered (1 + xs.length) ys)
    · exact hkept.symm
    · have := lt_trial_of_mem_numbered hmem
      omega

/-- The script as a machine, whose state is the number of calls so far. -/
def script : Machine Nat := fun _ count =>
  .ok ((scriptedOutcomes.map (·.1)).getD count []) (count + 1)

theorem scripted_runs : scripted.Runs script := by
  rintro data session _ rfl
  exact .ok rfl

/-- The fourth of five trials wins, and so it does when there is no fifth. -/
theorem best_le_of_trials_le_scripted : ∃ best t t',
    Selection.best ⟨4, magnified, none, .int 0⟩ scripted .texts ⟨0, []⟩ = .ok best t ∧
      Selection.best ⟨5, magnified, none, .int 2⟩ scripted .texts ⟨0, []⟩ = .ok best t' := by
  have hverbose : (Selection.mk 4 magnified none (.int 0)).verbose.numeral?.isSome := rfl
  have hverbose' : (Selection.mk 5 magnified none (.int 2)).verbose.numeral?.isSome := rfl
  have hstate : (Session.mk 0 []).procedure = (Session.mk 0 []).procedure := rfl
  have hall : Selection.Succeeds ⟨5, magnified, none, .int 2⟩ script .texts
      (Session.mk 0 []).procedure scriptedOutcomes 5 := ⟨rfl, by decide +kernel⟩
  obtain ⟨t', -, hlong⟩ := best_of_succeeds scripted_runs hverbose' hall rfl
  obtain ⟨best, t, hbest, -, -, -, hsame⟩ := best_le_of_trials_le scripted_runs hverbose hverbose' rfl
    (by decide) (by decide) hstate hlong
  rw [hsame (by decide +kernel)] at hbest
  exact ⟨_, t, t', hbest, hlong⟩

end Selection

end Centroids

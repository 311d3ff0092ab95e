import Centroids.Proofs.Ranking
import Centroids.Selection

/-! The best of several trials.  When no trial fails, the one that is kept is the last of those with
the least score; scores that are NaNs are passed over, wherever they stand. -/
namespace Centroids

private theorem getElem?_append_of_eq_some {α : Type} {xs : List α} {i : Nat} {x : α}
    (h : xs[i]? = some x) (ys : List α) : (xs ++ ys)[i]? = some x := by
  rw [List.getElem?_append_left (List.getElem?_eq_some_iff.1 h).1, h]

/-- The last place at which the least of the scores that are numbers stands. -/
structure LatestLeast {ω : Type} [Scalar ω] (scores : List ω) (place : Nat) (least : ω) : Prop where
  at_place : scores[place]? = some least
  not_nan : Scalar.isNaN least = false
  le_all : ∀ x ∈ scores, Scalar.isNaN x = false → Scalar.le least x = true
  lt_later : ∀ j x, place < j → scores[j]? = some x → Scalar.isNaN x = false →
    Scalar.lt least x = true

namespace LatestLeast

variable {ω : Type} [Scalar ω] [Ranked ω] {scores : List ω} {place : Nat} {least x : ω}

/-- A NaN or a greater score leaves the place as it is. -/
theorem concat_of_lt (h : LatestLeast scores place least)
    (hx : Scalar.isNaN x = false → Scalar.lt least x = true) :
    LatestLeast (scores ++ [x]) place least where
  at_place := getElem?_append_of_eq_some h.at_place _
  not_nan := h.not_nan
  le_all := by
    intro y hy hnan
    rcases List.mem_append.1 hy with hy | hy
    · exact h.le_all y hy hnan
    · rw [List.mem_singleton.1 hy] at hnan ⊢
      exact Scalar.le_of_lt (hx hnan)
  lt_later := by
    intro j y hj hy hnan
    rw [List.getElem?_append] at hy
    split at hy
    · exact h.lt_later j y hj hy hnan
    · rw [List.mem_singleton.1 (List.mem_of_getElem? hy)] at hnan ⊢
      exact hx hnan

/-- A score that is at most all others takes the place, also when it ties with the one before. -/
theorem concat_of_le (hnan : Scalar.isNaN x = false)
    (hx : ∀ y ∈ scores, Scalar.isNaN y = false → Scalar.le x y = true) :
    LatestLeast (scores ++ [x]) scores.length x where
  at_place := by simp
  not_nan := hnan
  le_all := by
    intro y hy hy'
    rcases List.mem_append.1 hy with hy | hy
    · exact hx y hy hy'
    · rw [List.mem_singleton.1 hy]
      exact Scalar.le_refl hnan
  lt_later := by
    intro j y hj hy
    have hlt : j < (scores ++ [x]).length := (List.getElem?_eq_some_iff.1 hy).1
    simp only [List.length_append, List.length_singleton] at hlt
    omega

end LatestLeast

/-- Every score that is a number is at most the score of no trial. -/
theorem le_infinity {x : Float} (h : Scalar.isNaN x = false) :
    Scalar.le x Double.infinity = true := by
  rw [Scalar.le_iff]
  refine ⟨h, by decide +kernel, ?_⟩
  change standing x.toModel.unpack ≤ standing (.infinity .positive)
  rcases x.toModel.unpack with (_ | _) | _ | (_ | _) | ⟨_ | _, m, e, hm⟩ <;>
    simp [standing, Prod.Lex.le_iff, Float.Model.UnpackedFloat.Sign.apply]

namespace Selection

variable {σ : Type}

/-- The session after a trial, whose outcome may be reported. -/
def announce (s : Selection) (number : Nat) (partition : Partition Float32) (score : Float)
    (session : Session σ) : Session σ :=
  if (Verbosity.ofValue s.verbose).details = some true then
    { session with
      notices := session.notices ++ [.trial number s.trials score partition.sizes] }
  else session

/-- Trials one after another, from one with a given number on, of which none fails: the procedure
returns a partition each time, and the partition has a score. -/
inductive Completes (s : Selection) (procedure : Procedure σ) (data : Dataset) :
    Nat → Session σ → List (Partition Float32 × Float) → Session σ → Prop
  | nil (number : Nat) (session : Session σ) : Completes s procedure data number session [] session
  | cons {number : Nat} {session called final : Session σ} {partition : Partition Float32}
      {score : Float} {rest : List (Partition Float32 × Float)} :
      procedure data session = .ok partition called →
      Partition.score s.metric partition = .ok score →
      Completes s procedure data (number + 1) (s.announce number partition score called) rest final →
      Completes s procedure data number session ((partition, score) :: rest) final

/-- The outcomes of trials with their numbers. -/
def numbered (number : Nat) (outcomes : List (Partition Float32 × Float)) : List Scored :=
  (outcomes.zipIdx number).map fun ((partition, score), number) => ⟨number, some partition, score⟩

section Completed

variable {s : Selection} {procedure : Procedure σ} {data : Dataset}

theorem trial_eq (hverbose : s.verbose.numeral?.isSome) {number : Nat}
    {session called : Session σ} {partition : Partition Float32} {score : Float}
    (hcall : procedure data session = .ok partition called)
    (hscore : Partition.score s.metric partition = .ok score) :
    s.trial procedure data number session =
      .ok ⟨number, some partition, score⟩ (s.announce number partition score called) := by
  rcases Option.isSome_iff_exists.1 hverbose with ⟨level, hlevel⟩
  unfold trial announce Verbosity.ofValue
  rw [step_bind_of_ok hcall, hscore, hlevel]
  cases hlevel : Numeral.le (.int 2) level <;>
    simp only [Option.map_some, hlevel, if_true] <;> rfl

/-- Running the trials and keeping the better one each time is a fold over their outcomes. -/
theorem bestFrom_eq (hverbose : s.verbose.numeral?.isSome) {number : Nat}
    {session final : Session σ} {outcomes : List (Partition Float32 × Float)}
    (h : Completes s procedure data number session outcomes final) (best : Scored) :
    s.bestFrom procedure data outcomes.length number best session =
      .ok ((numbered number outcomes).foldl Scored.keepBetter best) final := by
  induction h generalizing best with
  | nil => rfl
  | cons hcall hscore _ ih =>
    rw [List.length_cons, bestFrom, step_bind_of_ok (trial_eq hverbose hcall hscore), ih]
    rfl

end Completed

theorem numbered_concat (number : Nat) (outcomes : List (Partition Float32 × Float))
    (partition : Partition Float32) (score : Float) :
    numbered number (outcomes ++ [(partition, score)]) =
      numbered number outcomes ++ [⟨number + outcomes.length, some partition, score⟩] := by
  simp [numbered, List.zipIdx_append]

/-- What is kept after trials with these outcomes: nothing while all scores are NaNs, and then the last
trial with the least score. -/
def Keeps (outcomes : List (Partition Float32 × Float)) (kept : Scored) : Prop :=
  ((∀ o ∈ outcomes, Scalar.isNaN o.2 = true) ∧ kept = .none) ∨
    ∃ place partition score, outcomes[place]? = some (partition, score) ∧
      LatestLeast (outcomes.map (·.2)) place score ∧ kept = ⟨place + 1, some partition, score⟩

namespace Keeps

variable {outcomes : List (Partition Float32 × Float)} {kept : Scored}
  {partition : Partition Float32} {score : Float}

/-- A NaN is not kept, whatever was. -/
theorem concat_of_nan (h : Keeps outcomes kept) (hnan : Scalar.isNaN score = true) (number : Int) :
    Keeps (outcomes ++ [(partition, score)])
      (kept.keepBetter ⟨number, some partition, score⟩) := by
  have hle : Scalar.le score kept.score ≠ true := by
    rw [Ne, Scalar.le_iff, hnan]
    simp
  unfold Scored.keepBetter
  rw [if_neg hle]
  rcases h with ⟨hall, hnone⟩ | ⟨place, p, x, hat, hleast, hkept⟩
  · refine .inl ⟨?_, hnone⟩
    intro o ho
    rcases List.mem_append.1 ho with ho | ho
    · exact hall o ho
    · rw [List.mem_singleton.1 ho, hnan]
  · refine .inr ⟨place, p, x, getElem?_append_of_eq_some hat _, ?_, hkept⟩
    rw [List.map_append]
    exact hleast.concat_of_lt fun h => by rw [hnan] at h; contradiction

/-- A score that is at most all before is kept. -/
theorem concat_of_le (hnan : Scalar.isNaN score = false) (hkept : Scalar.le score kept.score = true)
    (hle : ∀ o ∈ outcomes, Scalar.isNaN o.2 = false → Scalar.le score o.2 = true) :
    Keeps (outcomes ++ [(partition, score)])
      (kept.keepBetter ⟨1 + outcomes.length, some partition, score⟩) := by
  unfold Scored.keepBetter
  rw [if_pos hkept, Int.add_comm]
  refine .inr ⟨outcomes.length, partition, score, by simp, ?_, rfl⟩
  rw [List.map_append, ← List.length_map (·.2)]
  apply LatestLeast.concat_of_le hnan
  intro y hy hy'
  rcases List.mem_map.1 hy with ⟨o, ho, rfl⟩
  exact hle o ho hy'

theorem concat (h : Keeps outcomes kept) :
    Keeps (outcomes ++ [(partition, score)])
      (kept.keepBetter ⟨1 + outcomes.length, some partition, score⟩) := by
  cases hnan : Scalar.isNaN score with
  | true => exact h.concat_of_nan hnan _
  | false =>
    rcases h with ⟨hall, rfl⟩ | ⟨place, p, x, hat, hleast, rfl⟩
    · have hinfinity : Scalar.le score Scored.none.score = true := le_infinity hnan
      apply concat_of_le hnan hinfinity
      intro o ho hnumber
      rw [hall o ho] at hnumber
      contradiction
    · by_cases hle : Scalar.le score x = true
      · have hbest : Scalar.le score (Scored.mk (place + 1) (some p) x).score = true := hle
        apply concat_of_le hnan hbest
        intro o ho hnumber
        exact Scalar.le_trans hle (hleast.le_all o.2 (List.mem_map_of_mem ho) hnumber)
      · unfold Scored.keepBetter
        rw [if_neg hle]
        refine .inr ⟨place, p, x, getElem?_append_of_eq_some hat _, ?_, rfl⟩
        rw [List.map_append]
        exact hleast.concat_of_lt fun _ => Scalar.lt_of_not_le hnan hleast.not_nan hle

end Keeps

theorem foldl_keepBetter (outcomes : List (Partition Float32 × Float)) :
    Keeps outcomes ((numbered 1 outcomes).foldl Scored.keepBetter .none) := by
  induction outcomes using List.reverseRecOn with
  | nil => exact .inl ⟨by simp, rfl⟩
  | append_singleton outcomes o ih =>
    rw [numbered_concat, List.foldl_append]
    exact ih.concat

/-- The summary at the end changes nothing but the notices. -/
theorem best_of_bestFrom {s : Selection} {procedure : Procedure σ} {data : Dataset}
    {session final : Session σ} {best : Scored}
    (h : s.bestFrom procedure data s.trials.toNat 1 .none session = .ok best final) :
    ∃ t, s.best procedure data session = .ok best t ∧ t.procedure = final.procedure := by
  unfold Selection.best
  rw [step_bind_of_ok h]
  cases s.verbose.isTruthy with
  | false => exact ⟨final, rfl, rfl⟩
  | true => exact ⟨_, rfl, rfl⟩

/-- Best of several trials: if no trial fails and some score is a number, the trial that is returned is
the last one with the least score, with its own partition and score. -/
theorem best_eq_latest_least {s : Selection} {procedure : Procedure σ} {data : Dataset}
    {session final : Session σ} {outcomes : List (Partition Float32 × Float)}
    (hverbose : s.verbose.numeral?.isSome)
    (hcompletes : Completes s procedure data 1 session outcomes final)
    (hcount : (outcomes.length : Int) = s.trials)
    (hnumber : ∃ o ∈ outcomes, Scalar.isNaN o.2 = false) :
    ∃ place partition score, outcomes[place]? = some (partition, score) ∧
      LatestLeast (outcomes.map (·.2)) place score ∧
      ∃ t, t.procedure = final.procedure ∧
        s.best procedure data session = .ok ⟨place + 1, some partition, score⟩ t ∧
        s.cluster procedure data session = .ok (some partition) t := by
  have hfold := bestFrom_eq hverbose hcompletes .none
  rw [show outcomes.length = s.trials.toNat by omega] at hfold
  rcases foldl_keepBetter outcomes with ⟨hall, -⟩ | ⟨place, partition, score, hat, hleast, hkept⟩
  · rcases hnumber with ⟨o, ho, hnan⟩
    rw [hall o ho] at hnan
    contradiction
  · rw [hkept] at hfold
    rcases best_of_bestFrom hfold with ⟨t, hbest, ht⟩
    exact ⟨place, partition, score, hat, hleast, t, ht, hbest, step_map_of_ok hbest⟩

/-- A cluster of two points, of which the second is given. -/
def pairOf (x : Float32) : Cluster Float32 :=
  ⟨[0], ⟨1, [[0], [x]], by simp⟩, some [0, 1], by simp, by intro is h; cases h; rfl⟩

/-- Coordinates magnified so far that the variance of the pair of 0 and 1 is infinite. -/
def magnified : Distance Float32 Float :=
  .function fun points _ =>
    .ok ⟨.native, .ofList (points.toList.map fun x => Double.ofSingle x * 1e200)⟩

/-- A NaN, an infinity, a tie and an infinity again. -/
def scriptedOutcomes : List (Partition Float32 × Float) :=
  [([pairOf (Double.toSingle Double.nan)], Double.nan), ([pairOf 1], Double.infinity),
    ([pairOf 0], 0), ([pairOf 0], 0), ([pairOf 1], Double.infinity)]

/-- Returns the partitions of the script one after another. -/
def scripted : Procedure Nat := fun _ session =>
  .ok ((scriptedOutcomes.map (·.1)).getD session.procedure [])
    { session with procedure := session.procedure + 1 }

theorem scripted_completes : Completes ⟨5, magnified, none, .int 0⟩ scripted .texts 1 ⟨0, []⟩
    scriptedOutcomes ⟨5, []⟩ :=
  .cons rfl (by decide +kernel) <| .cons rfl (by decide +kernel) <|
  .cons rfl (by decide +kernel) <| .cons rfl (by decide +kernel) <|
  .cons rfl (by decide +kernel) <| .nil _ _

theorem best_eq_latest_least_scripted :
    ∃ place partition score, scriptedOutcomes[place]? = some (partition, score) ∧
      LatestLeast (scriptedOutcomes.map (·.2)) place score ∧
      ∃ t : Session Nat, t.procedure = 5 ∧
        best ⟨5, magnified, none, .int 0⟩ scripted .texts ⟨0, []⟩ =
          .ok ⟨place + 1, some partition, score⟩ t ∧
        cluster ⟨5, magnified, none, .int 0⟩ scripted .texts ⟨0, []⟩ = .ok (some partition) t :=
  best_eq_latest_least rfl scripted_completes rfl
    ⟨([pairOf 0], 0), by simp [scriptedOutcomes], by decide +kernel⟩

end Selection

end Centroids

import Centroids.Proofs.Dialogue
import Centroids.Proofs.Silence

/-! How much is reported changes nothing else.  A clusterer and a selection that report more or less
answer every call alike and are left alike, also when a call fails.  What a round reports is there to
be read: the last entry of the record is its own. -/
namespace Centroids

theorem Verbosity.isSome_details_ofValue (v : Value) :
    (ofValue v).details.isSome = v.numeral?.isSome := by
  unfold ofValue
  rw [Option.isSome_map]

namespace Trial

variable {α ω : Type} [Scalar α] [Sampled ω] [Widening α ω] {plan : Plan α} {points : Points α}

/-- A round that reports its changes finds them in the entry that it has just added. -/
theorem Round.exists_report {iteration : Nat} {clusters : Partition α} {j : Journal} {met : Bool}
    {t : Stage α} {detailed : Bool} (hdetails : plan.verbosity.details = some detailed)
    (hprevious : j.criterion.previous.isSome)
    (h : Round plan points (.of iteration clusters j) met t) :
    ∃ e reseeded, t.criterion.history.getLast? = some e ∧ e.iteration = .int iteration ∧
      round plan points iteration clusters j = .ok (t.clusters, met) ⟨t.generator, t.criterion,
        if detailed then j.notices ++ [.iteration iteration e.changed reseeded] else j.notices⟩ := by
  obtain ⟨-, e, hiteration, hhistory⟩ := h.exists_latest hprevious
  obtain ⟨reseeded, hround⟩ := h.exists_reported
  have hlast : t.criterion.history.getLast? = some e := by
    rw [hhistory, List.getLast?_concat]
  refine ⟨e, reseeded, hlast, hiteration, hround.trans ?_⟩
  unfold report
  rw [hdetails]
  cases detailed with
  | false => rfl
  | true =>
    have hchanged : (t.criterion.history.getLast?.map (·.changed)).getD 0 = e.changed := by
      rw [hlast]
      rfl
    rw [← hchanged]
    rfl

theorem Reaches.isSome_previous {g : Generator} {c : Criterion} {t : Stage α}
    (h : Reaches plan points g c t) : t.criterion.previous.isSome := by
  obtain ⟨clusters, labels, g', -, hreached⟩ := h
  induction hreached with
  | refl => rfl
  | tail _ hround ih => exact (hround.exists_latest ih).1

end Trial

namespace Clusterer

/-- The same clusterer with other reports. -/
def voiced (c : Clusterer) (v : Value) : Clusterer :=
  { c with parameters := c.parameters.set (.verbose v) }

/-- Clusterers that differ at most in how much they report, of which both can report or none. -/
def Echoes (c d : Clusterer) : Prop :=
  ∃ v, d = c.voiced v ∧ c.parameters.verbose.numeral?.isSome = v.numeral?.isSome

def Prepared.voiced (p : Prepared) (v : Verbosity) : Prepared := { p with plan := p.plan.voiced v }

/-- What a run starts from depends on the level of reports in nothing but its reports. -/
theorem prepare_voiced (c : Clusterer) (v : Value) (data : Dataset) :
    (c.voiced v).prepare data = (c.prepare data).map (·.voiced (.ofValue v)) := by
  have hvalidate : (c.voiced v).validate data = c.validate data := rfl
  have hcomponents : (c.voiced v).components = c.components := rfl
  unfold prepare
  rw [hvalidate, hcomponents]
  cases c.validate data with
  | error e => rfl
  | ok points =>
    change (clusterCount points.size c.clusters >>= _) =
      Except.map _ (clusterCount points.size c.clusters >>= _)
    cases clusterCount points.size c.clusters with
    | error e => rfl
    | ok clusters =>
      cases c.components with
      | error e => rfl
      | ok components => rfl

theorem run_echoes (horizon : Nat) (data : Dataset) :
    Follows (Session.Related Echoes) (run horizon data) (run horizon data) := by
  rintro s t ⟨v, ht, hlevel⟩
  have hvoiced := prepare_voiced s.procedure v data
  rw [← ht] at hvoiced
  cases hs : s.procedure.prepare data with
  | error e =>
    rw [hs] at hvoiced
    rw [run_of_prepare_error hs, run_of_prepare_error hvoiced]
    exact .error ⟨v, ht, hlevel⟩
  | ok p =>
    rw [hs] at hvoiced
    have hdetails : p.plan.verbosity.details.isSome = (Verbosity.ofValue v).details.isSome := by
      rw [(plan_of_prepare hs).2.2.2, Verbosity.isSome_details_ofValue,
        Verbosity.isSome_details_ofValue, hlevel]
    -- The trials begin with journals that differ in their notices only.
    have hjournals : Journal.Alike (p.journal s) ((p.voiced (.ofValue v)).journal t) :=
      ⟨(congrArg Clusterer.generator ht).symm, rfl⟩
    have hagree := Trial.run_follows hdetails p.points horizon _ _ hjournals
    cases htrial : Trial.run horizon (p.plan.voiced (.ofValue v)) p.points
        ((p.voiced (.ofValue v)).journal t) with
    | ok outcome k =>
      obtain ⟨j, hj, hgenerator, hcriterion⟩ := (htrial ▸ hagree).of_ok
      rw [run_eq_ok.2 ⟨p, j, hs, hj, rfl⟩, run_eq_ok.2 ⟨_, k, hvoiced, htrial, rfl⟩]
      refine .ok ⟨v, ?_, hlevel⟩
      simp [Prepared.finish, keep, ht, voiced, hgenerator, hcriterion]
    | error e k =>
      obtain ⟨j, hj, hgenerator, hcriterion⟩ := (htrial ▸ hagree).of_error
      rw [run_eq_error.2 (.inr ⟨p, j, hs, hj, rfl⟩),
        run_eq_error.2 (.inr ⟨_, k, hvoiced, htrial, rfl⟩)]
      refine .error ⟨v, ?_, hlevel⟩
      simp [keep, ht, voiced, hgenerator, hcriterion]

theorem store_echoes (s : Setting) :
    Follows Echoes (Setting.apply Setting.store s) (Setting.apply Setting.store s) := by
  rintro c _ ⟨v, rfl, hlevel⟩
  unfold Setting.apply
  cases s with
  | clusters u => exact .ok ⟨v, rfl, hlevel⟩
  | metric => exact .error ⟨v, rfl, hlevel⟩
  | other => exact .ok ⟨v, rfl, hlevel⟩
  | parameter p =>
    cases hq : p.mapM Distance.resolve with
    | error e =>
      simp only [Setting.store, hq]
      exact .error ⟨v, rfl, hlevel⟩
    | ok q =>
      rw [Setting.store_parameter hq, Setting.store_parameter hq]
      cases q with
      -- From here on both report at the level that is stored.
      | verbose u => exact .ok ⟨u, rfl, rfl⟩
      | _ => exact .ok ⟨v, rfl, hlevel⟩

theorem restart_echoes (entropy : Int) (s : Setting) :
    Follows Echoes (Setting.apply (Setting.restart entropy) s)
      (Setting.apply (Setting.restart entropy) s) := by
  rintro c _ ⟨v, rfl, hlevel⟩
  unfold Setting.apply
  by_cases hname : s.name? = some .randomState
  · obtain ⟨r, rfl⟩ := Setting.eq_of_name hname
    cases hr : r.resolve entropy with
    | ok g =>
      simp only [Setting.restart, hr, Except.map]
      exact .ok ⟨v, rfl, hlevel⟩
    | error e =>
      simp only [Setting.restart, hr, Except.map]
      exact .error ⟨v, rfl, hlevel⟩
  · rw [Setting.restart_eq_self hname, Setting.restart_eq_self hname]
    exact .ok ⟨v, rfl, hlevel⟩

theorem set_echoes (entropy : Int) (settings : List Setting) :
    Follows Echoes (set entropy settings) (set entropy settings) := by
  unfold set
  have hcheck : ∀ s : Setting, Follows Echoes (liftM s.precheck : EStateM Fault Clusterer Unit)
      (liftM s.precheck) := fun s => .lift s.precheck
  refine (Follows.forM hcheck settings).bind fun _ => ?_
  exact (Follows.forM store_echoes settings).bind fun _ => .forM (restart_echoes entropy) settings

end Clusterer

namespace Selection

section Trials

variable {σ τ : Type} {related : σ → τ → Prop} {p : Procedure σ} {q : Procedure τ} {s : Selection}
  {v : Value} (h : ∀ data, Follows (Session.Related related) (p data) (q data))
  (hlevel : s.verbose.numeral?.isSome = v.numeral?.isSome)
include h hlevel

theorem trial_echoes (data : Dataset) (number : Nat) : Follows (Session.Related related)
    (s.trial p data number) ((s.voiced v).trial q data number) := by
  unfold trial
  refine (h data).bind fun partition => ?_
  refine (Follows.lift (Partition.score s.metric partition)).bind fun score => ?_
  have hdetails : (Verbosity.ofValue s.verbose).details.isSome =
      (Verbosity.ofValue (s.voiced v).verbose).details.isSome := by
    rw [Verbosity.isSome_details_ofValue, Verbosity.isSome_details_ofValue, hlevel]
    rfl
  intro x y hxy
  cases hs : (Verbosity.ofValue s.verbose).details with
  | none =>
    cases hv : (Verbosity.ofValue (s.voiced v).verbose).details with
    | none => exact .error hxy
    | some w => rw [hs, hv] at hdetails; cases hdetails
  | some u =>
    cases hv : (Verbosity.ofValue (s.voiced v).verbose).details with
    | none => rw [hs, hv] at hdetails; cases hdetails
    | some w => cases u <;> cases w <;> exact .ok hxy

/-- Trials that are taken one by one have the same results and the same ending. -/
theorem take_echoes (data : Dataset) (count number : Nat) {x : Session σ} {y : Session τ}
    (hxy : Session.Related related x y) :
    (s.take p data count number x).1 = ((s.voiced v).take q data count number y).1 ∧
      (s.take p data count number x).2.1 = ((s.voiced v).take q data count number y).2.1 ∧
      Session.Related related (s.take p data count number x).2.2
        ((s.voiced v).take q data count number y).2.2 := by
  induction count generalizing number x y with
  | zero => exact ⟨rfl, rfl, hxy⟩
  | succ count ih =>
    by_cases hover : s.trials < number
    · have hover' : (s.voiced v).trials < number := hover
      rw [take_of_over hover, take_of_over hover']
      exact ⟨rfl, rfl, hxy⟩
    · have hover' : ¬ (s.voiced v).trials < number := hover
      have hagree := trial_echoes h hlevel data number x y hxy
      cases hy : (s.voiced v).trial q data number y with
      | error e y' =>
        obtain ⟨x', hx, hxy'⟩ := (hy ▸ hagree).of_error
        rw [take_of_error hover hx, take_of_error hover' hy]
        exact ⟨rfl, rfl, hxy'⟩
      | ok scored y' =>
        obtain ⟨x', hx, hxy'⟩ := (hy ▸ hagree).of_ok
        obtain ⟨hresults, hending, hfinal⟩ := ih (number + 1) hxy'
        rw [take_of_ok hover hx, take_of_ok hover' hy]
        exact ⟨congrArg _ hresults, hending, hfinal⟩

theorem best_echoes (data : Dataset) :
    Follows (Session.Related related) (s.best p data) ((s.voiced v).best q data) := by
  intro x y hxy
  obtain ⟨hresults, hending, hfinal⟩ := take_echoes h hlevel data s.trials.toNat 1 hxy
  have htrials : (s.voiced v).trials = s.trials := rfl
  rw [best_eq_take, best_eq_take, htrials]
  generalize s.take p data s.trials.toNat 1 x = results at *
  generalize (s.voiced v).take q data s.trials.toNat 1 y = results' at *
  obtain ⟨taken, ending, t⟩ := results
  obtain ⟨taken', ending', t'⟩ := results'
  obtain rfl : taken = taken' := hresults
  obtain rfl : ending = ending' := hending
  unfold conclude
  cases ending with
  | failed e => exact .error hfinal
  | _ => cases s.verbose.isTruthy <;> cases (s.voiced v).verbose.isTruthy <;> exact .ok hfinal

end Trials

section Talk

open Clusterer (Echoes)

variable {s : Selection} {v : Value} (hlevel : s.verbose.numeral?.isSome = v.numeral?.isSome)
include hlevel

theorem answer_echoes (horizon : Nat) (call : Call) {x y : Session Clusterer}
    (hxy : Session.Related Echoes x y) :
    (call.answer horizon s x).1 = (call.answer horizon (s.voiced v) y).1 ∧
      Session.Related Echoes (call.answer horizon s x).2
        (call.answer horizon (s.voiced v) y).2 := by
  have hwithin : ∀ data, Follows (Session.Related Echoes) (Clusterer.within horizon data)
      (Clusterer.within horizon data) := fun data => (Clusterer.run_echoes horizon data).map _
  cases call with
  | command command =>
    cases command with
    | run data =>
      have hagree := Clusterer.run_echoes horizon data x y hxy
      exact ⟨congrArg Answer.ran hagree.finalValue_eq, hagree.finalState_related⟩
    | set entropy settings =>
      have hagree := Clusterer.set_echoes entropy settings _ _ hxy
      exact ⟨congrArg Answer.set hagree.finalValue_eq, hagree.finalState_related⟩
  | best data =>
    have hagree := best_echoes hwithin hlevel data x y hxy
    have htrials := (take_echoes hwithin hlevel data s.trials.toNat 1 hxy).1
    exact ⟨congrArg₂ Answer.best htrials hagree.finalValue_eq, hagree.finalState_related⟩
  | take data count number =>
    obtain ⟨hresults, hending, hfinal⟩ := take_echoes hwithin hlevel data count number hxy
    exact ⟨congrArg₂ Answer.taken hresults hending, hfinal⟩

theorem talk_echoes (horizon : Nat) (calls : List Call) {x y : Session Clusterer}
    (hxy : Session.Related Echoes x y) :
    (talk horizon s calls x).1 = (talk horizon (s.voiced v) calls y).1 ∧
      Session.Related Echoes (talk horizon s calls x).2 (talk horizon (s.voiced v) calls y).2 := by
  induction calls generalizing x y with
  | nil => exact ⟨rfl, hxy⟩
  | cons call rest ih =>
    obtain ⟨hanswer, hcalled⟩ := answer_echoes hlevel horizon call hxy
    obtain ⟨hanswers, hfinal⟩ := ih hcalled
    exact ⟨congrArg₂ List.cons hanswer hanswers, hfinal⟩

end Talk

/-- Reports have no influence.  A selection and its clusterer answer all calls alike, whatever the two
report: the same partitions, trials and scores, and the same errors after the same trials.  They
leave the same clusterer but for its level of reports, with the same count, record and generator.
In every round that a run comes to, the last entry of the record is that of the round, so that its
changes can be reported. -/
theorem talk_voiced (horizon : Nat) (s : Selection) (c : Clusterer) (calls : List Call)
    (notices notices' : List Notice) (v v' w w' : Int) :
    (let x := talk horizon (s.voiced (.int w)) calls ⟨c.voiced (.int v), notices⟩
      let y := talk horizon (s.voiced (.int w')) calls ⟨c.voiced (.int v'), notices'⟩
      x.1 = y.1 ∧ ∃ u, y.2.procedure = x.2.procedure.voiced u) ∧
    ∀ data p last met next earlier, (c.voiced (.int v)).prepare data = .ok p →
      Trial.Reaches p.plan p.points c.generator p.criterion last →
      Trial.Round p.plan p.points last met next → ∃ e reseeded,
        next.criterion.history.getLast? = some e ∧ e.iteration = .int last.iteration ∧
        Trial.round p.plan p.points last.iteration last.clusters
            ⟨last.generator, last.criterion, earlier⟩ =
          .ok (next.clusters, met) ⟨next.generator, next.criterion,
            if 2 ≤ v then earlier ++ [.iteration last.iteration e.changed reseeded]
            else earlier⟩ := by
  constructor
  · have hechoes : Session.Related Clusterer.Echoes ⟨c.voiced (.int v), notices⟩
        ⟨c.voiced (.int v'), notices'⟩ := ⟨.int v', rfl, rfl⟩
    have hlevel : (s.voiced (.int w)).verbose.numeral?.isSome = (Value.int w').numeral?.isSome := rfl
    obtain ⟨hanswers, u, hfinal, -⟩ := talk_echoes hlevel horizon calls hechoes
    exact ⟨hanswers, u, hfinal⟩
  · intro data p last met next earlier hprepare hreaches hround
    have hdetails : p.plan.verbosity.details = some (decide (2 ≤ v)) := by
      rw [(Clusterer.plan_of_prepare hprepare).2.2.2]
      exact congrArg some (Numeral.le_int 2 v)
    have hreport := Trial.Round.exists_report (j := ⟨last.generator, last.criterion, earlier⟩)
      hdetails hreaches.isSome_previous hround
    simpa using hreport

open Clusterer (pairing run_pairing triple)

/-- Two trials, scored with the metric of `pairing`. -/
def twice : Selection := ⟨2, .metric (.formula (.euclidean true)), some 0, .int 0⟩

/-- The silent talk and the one that reports every round and trial. -/
theorem talk_voiced_pairing :
    (let x := talk 9 (twice.voiced (.int 0)) [.best triple] ⟨pairing.procedure.voiced (.int 0), []⟩
      let y := talk 9 (twice.voiced (.int 2)) [.best triple] ⟨pairing.procedure.voiced (.int 2), []⟩
      x.1 = y.1 ∧ x.2.notices.length = 0 ∧ y.2.notices.length = 13) ∧
    ∃ p first met next e, (pairing.procedure.voiced (.int 2)).prepare triple = .ok p ∧
      Trial.Round p.plan p.points first met next ∧ first.iteration = 0 ∧
      next.criterion.history.getLast? = some e ∧ e.iteration = .int 0 := by
  constructor
  · obtain ⟨⟨hanswers, -⟩, -⟩ :=
      talk_voiced 9 twice pairing.procedure [.best triple] [] [] 0 2 0 2
    exact ⟨hanswers, by decide +kernel, by decide +kernel⟩
  · obtain ⟨outcome, t, hrun, hmet, -⟩ := run_pairing
    have hechoes : Session.Related Clusterer.Echoes ⟨pairing.procedure.voiced (.int 2), []⟩ pairing :=
      ⟨.int 0, rfl, rfl⟩
    obtain ⟨u, hloud, -⟩ := (hrun ▸ Clusterer.run_echoes 9 triple _ _ hechoes).of_ok
    obtain ⟨p, stage, hcourse⟩ := Clusterer.exists_course hloud
    obtain ⟨clusters, labels, g, hstart, hfirst⟩ := hcourse.stages.seeded
    have hreaches : Trial.Reaches p.plan p.points pairing.procedure.generator p.criterion (stage 0) :=
      ⟨clusters, labels, g, hstart, by rw [hfirst]⟩
    have hround := hcourse.stages.round 0 (hcourse.stages.pos_of_met hmet)
    obtain ⟨e, -, hlast, hiteration, -⟩ := (talk_voiced 9 twice pairing.procedure [] [] [] 2 0 2 0).2
      triple p _ _ _ [] hcourse.prepared hreaches hround
    have hzero : (stage 0).iteration = 0 := by rw [hfirst]
    rw [hzero] at hiteration
    exact ⟨p, _, _, _, e, hcourse.prepared, hround, hzero, hlast, hiteration⟩

end Selection

end Centroids

import Centroids.Proofs.Holding
import Centroids.Proofs.Verbosity

/-! The ways to a clusterer.  Options by keyword give what the same steps give in any order, and a
selection of trials made with them is around the very clusterer that they give alone, which only
reports less. -/
namespace Centroids

namespace Clusterer

variable {entropy : Int} {clusters : Value} {p : Parameters (Distance Float32 Float)} {c : Clusterer}

/-- How much a clusterer reports is not judged when it is made. -/
theorem make_voiced (entropy : Int) (clusters v : Value) (p : Parameters (Distance Float32 Float)) :
    make entropy clusters (p.set (.verbose v)) = (make entropy clusters p).map (·.voiced v) := by
  cases hdevice : isKnownDevice p.device with
  | false =>
    simp only [make, Parameters.set, hdevice]
    rfl
  | true =>
    simp only [make, Parameters.set, hdevice]
    cases p.randomState.resolve entropy with
    | error e => rfl
    | ok g =>
      cases p.distance.resolve with
      | error e => rfl
      | ok m =>
        cases p.strategy.resolve with
        | error e => rfl
        | ok handler =>
          cases Seeding.ofValue p.init with
          | error e => rfl
          | ok seeding => rfl

theorem voiced_of_make (h : make entropy clusters p = .ok c) : c.voiced p.verbose = c := by
  have hvoiced : make entropy clusters p = (make entropy clusters p).map (·.voiced p.verbose) :=
    make_voiced entropy clusters p.verbose p
  rw [h] at hvoiced
  exact (Except.ok.inj hvoiced).symm

end Clusterer

namespace Selection

/-- Partitions are scored by a given distance, or by a clusterer's own metric where none is given. -/
structure ScoresBy (s : Selection) (c : Clusterer) (d : Distance Float32 Float) : Prop where
  own : d = .value .null →
    s.metric = .metric c.parameters.distance ∧ s.inherited = some c.metricVersion
  given : d ≠ .value .null → d.named = .ok s.metric ∧ s.inherited = none

theorem ofClusterer_eq_ok {trials verbose : Value} {d : Distance Float32 Float} {c : Clusterer}
    {s : Selection} : ofClusterer trials d verbose c = .ok s ↔
      trialCount trials = .ok s.trials ∧ s.verbose = verbose ∧ s.ScoresBy c d := by
  obtain ⟨count, metric, inherited, level⟩ := s
  unfold ofClusterer make
  rw [bind_eq_ok]
  split
  · constructor
    · rintro ⟨n, hn, hmake⟩
      cases hmake
      exact ⟨hn, rfl, fun _ => ⟨rfl, rfl⟩, fun hgiven => absurd rfl hgiven⟩
    · rintro ⟨hn, rfl, hscores⟩
      obtain ⟨rfl, rfl⟩ := hscores.own rfl
      exact ⟨count, hn, rfl⟩
  · next hgiven =>
    constructor
    · rintro ⟨n, hn, hmake⟩
      obtain ⟨m, hm, hmake⟩ := bind_eq_ok.1 hmake
      cases hmake
      exact ⟨hn, rfl, fun hnull => (hgiven hnull).elim, fun _ => ⟨hm, rfl⟩⟩
    · rintro ⟨hn, rfl, hscores⟩
      obtain ⟨hm, rfl⟩ := hscores.given hgiven
      exact ⟨count, hn, bind_eq_ok.2 ⟨metric, hm, rfl⟩⟩

end Selection

namespace Recipe

section Build

variable {entropy : Int} {clusters : Value} {r : Recipe} {b : Built}

theorem build_single (h : r.trials = none) : r.build entropy clusters = .ok b ↔
    ∃ v c, quieter r.parameters.verbose = .ok v ∧
      Clusterer.make entropy clusters r.parameters = .ok c ∧ b = .single c := by
  unfold build
  simp only [bind_eq_ok, Clusterer.make_voiced, map_eq_ok, h]
  constructor
  · rintro ⟨v, hv, -, ⟨c, hc, rfl⟩, hb⟩
    refine ⟨v, c, hv, hc, ?_⟩
    cases hb
    exact congrArg Built.single (Clusterer.voiced_of_make hc)
  · rintro ⟨v, c, hv, hc, rfl⟩
    refine ⟨v, hv, _, ⟨c, hc, rfl⟩, ?_⟩
    exact congrArg (Except.ok ∘ Built.single) (Clusterer.voiced_of_make hc)

theorem build_repeated {n : Int} (h : r.trials = some n) : r.build entropy clusters = .ok b ↔
    ∃ v c s, quieter r.parameters.verbose = .ok v ∧
      Clusterer.make entropy clusters r.parameters = .ok c ∧
      Selection.ofClusterer (.int n) r.scoring r.parameters.verbose (c.voiced v) = .ok s ∧
      b = .repeated s (c.voiced v) := by
  unfold build
  simp only [bind_eq_ok, Clusterer.make_voiced, map_eq_ok, h]
  constructor
  · rintro ⟨v, hv, -, ⟨c, hc, rfl⟩, s, hs, hb⟩
    cases hb
    exact ⟨v, c, s, hv, hc, hs, rfl⟩
  · rintro ⟨v, c, s, hv, hc, hs, rfl⟩
    exact ⟨v, hv, _, ⟨c, hc, rfl⟩, s, hs, rfl⟩

end Build

/-- Steps are taken one after another, and what they describe is built.  A step that fails ends it. -/
def describe (steps : List Step) (entropy : Int) (clusters : Value) : EStateM Fault Recipe Built := do
  steps.forM Step.store
  let r ← get
  r.build entropy clusters

/-- Options by keyword, each of which takes one value.  No keyword stands twice, and none is that of
the trials. -/
structure Keywords where
  steps : List Step
  nodup : (steps.map Step.name).Nodup
  untried : .trials ∉ steps.map Step.name

namespace Keywords

def named (kw : Keywords) : List Named := kw.steps.map .step

/-- The distance for scores, if there is one among the options. -/
def scoring (kw : Keywords) : Distance Float32 Float :=
  match lastOf .scoring kw.steps with
  | some (.scoring d) => d
  | _ => .value .null

end Keywords

section Describe

variable {steps order : List Step} {r t : Recipe} {entropy : Int} {clusters : Value} {kw : Keywords}

theorem finalValue_describe (steps : List Step) (entropy : Int) (clusters : Value) (r : Recipe) :
    finalValue (describe steps entropy clusters r) =
      steps.foldlM add r >>= (·.build entropy clusters) := by
  induction steps generalizing r with
  | nil =>
    change finalValue ((liftM (r.build entropy clusters) : EStateM Fault Recipe Built) r) =
      r.build entropy clusters
    cases r.build entropy clusters <;> rfl
  | cons s steps ih =>
    have hhead : (s :: steps).forM Step.store = s.store >>= fun _ => steps.forM Step.store := rfl
    have hrest : describe (s :: steps) entropy clusters =
        s.store >>= fun _ => describe steps entropy clusters := by
      unfold describe
      rw [hhead, bind_assoc]
    rw [hrest, List.foldlM_cons, add]
    cases hs : s.store r with
    | ok u t =>
      rw [step_bind_of_ok hs]
      exact ih t
    | error e t =>
      rw [step_bind_of_error hs]
      rfl

/-- Without a count of trials, all that can be refused is a device. -/
theorem Step.check_of_name {s : Step} (h : s.name ≠ .trials) :
    s.check = .ok () ∨ s.check = .error .unknownDevice := by
  cases s with
  | parameter p =>
    cases p with
    | device v =>
      cases v with
      | text name =>
        simp only [check]
        split
        · exact .inl rfl
        · exact .inr rfl
      | _ => exact .inl rfl
    | _ => exact .inl rfl
  | trials v => exact absurd rfl h
  | scoring d => exact .inl rfl

theorem foldlM_add_error (h : .trials ∉ steps.map Step.name)
    (hrefused : ¬ ∀ s ∈ steps, s.check = .ok ()) (r : Recipe) :
    steps.foldlM add r = .error .unknownDevice := by
  induction steps generalizing r with
  | nil => exact absurd (by simp) hrefused
  | cons s steps ih =>
    rw [List.map_cons, List.mem_cons, not_or] at h
    rw [List.foldlM_cons, add_eq]
    rcases s.check_of_name (Ne.symm h.1) with hs | hs
    · rw [hs]
      exact ih h.2 (fun hsteps => hrefused (List.forall_mem_cons.2 ⟨hs, hsteps⟩)) (r.put s)
    · rw [hs]
      rfl

theorem foldlM_add_perm (kw : Keywords) (hperm : order.Perm kw.steps) (r : Recipe) :
    kw.steps.foldlM add r = order.foldlM add r := by
  by_cases hchecks : ∀ s ∈ kw.steps, s.check = .ok ()
  · have horder : ∀ s ∈ order, s.check = .ok () := fun s hs => hchecks s (hperm.mem_iff.1 hs)
    rw [foldlM_add_eq_ok.2 ⟨hchecks, rfl⟩, foldlM_add_eq_ok.2 ⟨horder, rfl⟩,
      foldl_put_perm hperm.symm kw.nodup hchecks]
  · -- The order decides which step is refused, but the fault is that of a device in either case.
    have horder : ¬ ∀ s ∈ order, s.check = .ok () :=
      fun h => hchecks fun s hs => h s (hperm.mem_iff.2 hs)
    have huntried : .trials ∉ order.map Step.name :=
      fun h => kw.untried ((hperm.map _).mem_iff.1 h)
    rw [foldlM_add_error kw.untried hchecks, foldlM_add_error huntried horder]

theorem foldlM_addNamed (steps : List Step) (r : Recipe) :
    (steps.map Named.step).foldlM addNamed r = steps.foldlM add r := by
  rw [List.foldlM_map]
  rfl

theorem create_named (kw : Keywords) (entropy : Int) (clusters : Value) :
    create entropy clusters kw.named =
      kw.steps.foldlM add empty >>= (·.build entropy clusters) := by
  have huntried : kw.named.any isTrials = false := by
    rw [List.any_eq_false]
    intro option hoption htrials
    obtain ⟨s, hs, rfl⟩ := List.mem_map.1 hoption
    cases s with
    | trials v => exact kw.untried (List.mem_map.2 ⟨_, hs, rfl⟩)
    | _ => cases htrials
  unfold create
  rw [huntried]
  simp only [Keywords.named, foldlM_addNamed]
  rfl

theorem createRepeated_named (kw : Keywords) (entropy : Int) (clusters trials : Value) :
    createRepeated entropy clusters trials kw.named =
      (.trials trials :: kw.steps).foldlM add empty >>= (·.build entropy clusters) := by
  unfold createRepeated
  rw [List.foldlM_cons, bind_assoc]
  simp only [Keywords.named, foldlM_addNamed]

/-- Keywords ask for no trials, and for scores by the distance among them, if there is one. -/
theorem trials_scoring_of_named (h : kw.steps.foldlM add empty = .ok r) :
    r.trials = none ∧ r.scoring = kw.scoring := by
  obtain ⟨hchecks, rfl⟩ := foldlM_add_eq_ok.1 h
  have hholds := holds_foldl_put hchecks empty
  generalize kw.steps.foldl put empty = r at hholds
  constructor
  · have htrials := hholds .trials
    rw [lastOf_eq_none kw.untried] at htrials
    cases hcount : r.trials with
    | none => rfl
    | some n => simp [holds, hcount, empty] at htrials
  · have hscoring := hholds .scoring
    unfold Keywords.scoring
    cases hlast : lastOf .scoring kw.steps with
    | none =>
      rw [hlast] at hscoring
      exact Step.scoring.inj hscoring
    | some s =>
      rw [hlast] at hscoring
      change Step.scoring r.scoring = s at hscoring
      rw [← hscoring]

/-- A count of trials that is given first is added to what the keywords give without it. -/
theorem foldlM_add_trials {v : Value} : (.trials v :: kw.steps).foldlM add empty = .ok t ↔
    ∃ n r, trialCount v = .ok n ∧ kw.steps.foldlM add empty = .ok r ∧
      t = { r with trials := some n } := by
  have hnames : ((.trials v :: kw.steps).map Step.name).Nodup := by
    rw [List.map_cons, List.nodup_cons]
    exact ⟨kw.untried, kw.nodup⟩
  rw [foldlM_add_eq_ok]
  constructor
  · rintro ⟨hchecks, rfl⟩
    obtain ⟨htrials, hsteps⟩ := List.forall_mem_cons.1 hchecks
    obtain ⟨n, hn, -⟩ := map_eq_ok.1 htrials
    refine ⟨n, _, hn, foldlM_add_eq_ok.2 ⟨hsteps, rfl⟩, ?_⟩
    rw [foldl_put_cons hnames hchecks, (trialCount_eq_ok.1 hn).1]
    rfl
  · rintro ⟨n, r, hn, hr, rfl⟩
    obtain ⟨hsteps, rfl⟩ := foldlM_add_eq_ok.1 hr
    have htrials : (Step.trials v).check = .ok () := map_eq_ok.2 ⟨n, hn, rfl⟩
    have hchecks : ∀ s ∈ Step.trials v :: kw.steps, s.check = .ok () :=
      List.forall_mem_cons.2 ⟨htrials, hsteps⟩
    refine ⟨hchecks, ?_⟩
    rw [foldl_put_cons hnames hchecks, (trialCount_eq_ok.1 hn).1]
    rfl

theorem create_eq_ok : create entropy clusters kw.named = .ok b ↔
    ∃ v c r, kw.steps.foldlM add empty = .ok r ∧ quieter r.parameters.verbose = .ok v ∧
      Clusterer.make entropy clusters r.parameters = .ok c ∧ b = .single c := by
  rw [create_named, bind_eq_ok]
  constructor
  · rintro ⟨r, hr, hb⟩
    obtain ⟨v, c, hv, hc, rfl⟩ := (build_single (trials_scoring_of_named hr).1).1 hb
    exact ⟨v, c, r, hr, hv, hc, rfl⟩
  · rintro ⟨v, c, r, hr, hv, hc, hb⟩
    exact ⟨r, hr, (build_single (trials_scoring_of_named hr).1).2 ⟨v, c, hv, hc, hb⟩⟩

/-- A selection of trials is made where the count of trials, a single clusterer and the distance for
scores can be had, and it is around that clusterer. -/
theorem createRepeated_eq_ok {trials : Value} :
    createRepeated entropy clusters trials kw.named = .ok b ↔
    ∃ c v s, create entropy clusters kw.named = .ok (.single c) ∧
      quieter c.parameters.verbose = .ok v ∧ trialCount trials = .ok s.trials ∧
      s.verbose = c.parameters.verbose ∧ s.ScoresBy (c.voiced v) kw.scoring ∧
      b = .repeated s (c.voiced v) := by
  have hverbose {c : Clusterer} {p : Parameters (Distance Float32 Float)}
      (hc : Clusterer.make entropy clusters p = .ok c) : c.parameters.verbose = p.verbose :=
    congrArg (·.parameters.verbose) (Clusterer.voiced_of_make hc).symm
  rw [createRepeated_named, bind_eq_ok]
  constructor
  · rintro ⟨_, ht, hb⟩
    obtain ⟨n, r, hn, hr, rfl⟩ := foldlM_add_trials.1 ht
    obtain ⟨v, c, s, hv, hc, hs, rfl⟩ := (build_repeated rfl).1 hb
    obtain ⟨hcount, hlevel, hscores⟩ := Selection.ofClusterer_eq_ok.1 hs
    rw [(trials_scoring_of_named hr).2] at hscores
    refine ⟨c, v, s, create_eq_ok.2 ⟨v, c, r, hr, hv, hc, rfl⟩, ?_, ?_, ?_, hscores, rfl⟩
    · rw [hverbose hc]
      exact hv
    · rw [(trialCount_eq_ok.1 hn).1]
      exact hcount
    · rw [hverbose hc]
      exact hlevel
  · rintro ⟨c, v, s, hcreate, hv, hn, hlevel, hscores, rfl⟩
    obtain ⟨v', c', r, hr, -, hc, hsame⟩ := create_eq_ok.1 hcreate
    cases hsame
    rw [hverbose hc] at hv hlevel
    rw [← (trials_scoring_of_named hr).2] at hscores
    refine ⟨_, foldlM_add_trials.2 ⟨s.trials, r, hn, hr, rfl⟩, (build_repeated rfl).2 ?_⟩
    rw [(trialCount_eq_ok.1 hn).1] at hn
    exact ⟨v, c, s, hv, hc, Selection.ofClusterer_eq_ok.2 ⟨hn, hlevel, hscores⟩, rfl⟩

end Describe

/-- A call that fails changes nothing, and under each name a recipe holds the last step that succeeded
or the default, so what is built depends on these steps alone.  Options by keyword give what the same
steps give in any order.  With them a selection of trials is made just where its count, a single
clusterer and the distance for its scores can be had; it is around that clusterer, which only reports
one level less. -/
theorem ways_agree :
    (∀ (c : Call) (r t : Recipe) (e : Fault), c.perform r = .error e t → t = r) ∧
    (∀ (acts : List Act) (n : Name),
      (empty.after acts).holds n = (lastOf n (empty.successes acts)).getD (empty.holds n)) ∧
    (∀ acts acts' : List Act,
      (∀ n, lastOf n (empty.successes acts) = lastOf n (empty.successes acts')) →
      ∀ entropy clusters, (empty.after acts).build entropy clusters =
        (empty.after acts').build entropy clusters) ∧
    ∀ (kw : Keywords) (entropy : Int) (clusters : Value),
      (∀ order : List Step, order.Perm kw.steps →
        create entropy clusters kw.named = finalValue (describe order entropy clusters empty)) ∧
      (∀ b, create entropy clusters kw.named = .ok b →
        ∃ c v, b = .single c ∧ quieter c.parameters.verbose = .ok v ∧
          ∀ m : Int, c.parameters.verbose = .int m → v = .int (max (m - 1) 0)) ∧
      ∀ trials b, createRepeated entropy clusters trials kw.named = .ok b ↔
        ∃ c v s, create entropy clusters kw.named = .ok (.single c) ∧
          quieter c.parameters.verbose = .ok v ∧ trialCount trials = .ok s.trials ∧
          s.verbose = c.parameters.verbose ∧ s.ScoresBy (c.voiced v) kw.scoring ∧
          b = .repeated s (c.voiced v) := by
  refine ⟨fun c r t e => Call.eq_of_perform_error, fun acts n => holds_after acts empty n, ?_, ?_⟩
  · intro acts acts' hlast entropy clusters
    have hsame : (empty.after acts).holds = (empty.after acts').holds := by
      funext n
      rw [holds_after, holds_after, hlast n]
    rw [holds_injective hsame]
  · intro kw entropy clusters
    refine ⟨fun order hperm => ?_, fun b hb => ?_, fun trials b => createRepeated_eq_ok⟩
    · rw [finalValue_describe, create_named, foldlM_add_perm kw hperm]
    · obtain ⟨v, c, r, -, hv, hc, rfl⟩ := create_eq_ok.1 hb
      rw [← Clusterer.voiced_of_make hc]
      refine ⟨_, v, rfl, hv, fun m hm => ?_⟩
      change r.parameters.verbose = .int m at hm
      rw [hm] at hv
      exact (Except.ok.inj hv).symm

/-- Some options are asked for twice, two calls fail, and a clusterer is built in between. -/
def wavering : List Act :=
  [.call (.step (.parameter (.distance (.value (.text "manhattan"))))), .build 5 (.int 3),
    .call .random,
    .call (.step (.trials (.int 4))), .call (.step (.trials (.int 0))), .call .misfit, .call .spread,
    .call (.step (.parameter (.distance (.value (.text "canberra")))))]

def straight : List Act :=
  [.call (.step (.parameter (.distance (.value (.text "canberra"))))), .call .spread,
    .call (.step (.trials (.int 4)))]

/-- Reports of two levels, scores by another metric, and a seeding. -/
def loud : Keywords where
  steps := [.parameter (.verbose (.int 2)), .scoring (.value (.text "chebyshev")),
    .parameter (.init (.text "random"))]
  nodup := by decide
  untried := by decide

theorem ways_agree_loud :
    (∃ e t, Call.perform (.step (.trials (.int 0))) empty = .error e t ∧ t = empty) ∧
    (∀ n, lastOf n (empty.successes wavering) = lastOf n (empty.successes straight)) ∧
    (empty.after wavering).build 7 (.int 2) = (empty.after straight).build 7 (.int 2) ∧
    loud.steps.reverse.Perm loud.steps ∧
    create 7 (.int 2) loud.named = finalValue (describe loud.steps.reverse 7 (.int 2) empty) ∧
    ∃ c s, create 7 (.int 2) loud.named = .ok (.single c) ∧
      createRepeated 7 (.int 2) (.int 3) loud.named = .ok (.repeated s (c.voiced (.int 1))) ∧
      s.trials = 3 ∧ s.metric = .metric (.formula .chebyshev) := by
  obtain ⟨hcall, -, hbuild, hkeywords⟩ := ways_agree
  obtain ⟨horder, -, hrepeated⟩ := hkeywords loud 7 (.int 2)
  have hlast : ∀ n, lastOf n (empty.successes wavering) = lastOf n (empty.successes straight) := by
    intro n
    cases n <;> rfl
  have hfails : Call.perform (.step (.trials (.int 0))) empty =
      .error (.trialCountNotPositive 0) empty := rfl
  have hperm := loud.steps.reverse_perm
  refine ⟨⟨_, _, hfails, hcall _ _ _ _ hfails⟩, hlast, hbuild _ _ hlast 7 _, hperm, horder _ hperm,
    ?_⟩
  refine ⟨_, ⟨3, .metric (.formula .chebyshev), none, .int 2⟩, rfl, ?_, rfl, rfl⟩
  exact (hrepeated _ _).2 ⟨_, _, _, rfl, rfl, rfl, rfl, ⟨nofun, fun _ => ⟨rfl, rfl⟩⟩, rfl⟩

end Recipe

end Centroids

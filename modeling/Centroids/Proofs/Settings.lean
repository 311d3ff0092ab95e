import Centroids.Proofs.Agreement
import Centroids.Proofs.Coverage

/-! What a change of options leaves.  Distances are resolved first, then options are stored one after
another, and the random state is used last.  So a change that fails is undone only if a distance is
refused: options before a name that is read only stay stored, and all of them do, the refused one
included, when the random state is no such state. -/
namespace Centroids

namespace Clusterer

namespace Setting

def isReadOnly : Setting → Bool
  | metric => true
  | _ => false

/-- Stores an option that can be stored. -/
def put (c : Clusterer) (s : Setting) : Clusterer :=
  match store c s with
  | .ok d => d
  | .error _ => c

inductive Name
  | clusters | distance | strategy | init | tol | maxIter | verbose | randomState | device | metric
deriving DecidableEq

/-- The name of an option on which anything depends. -/
def name? : Setting → Option Name
  | clusters _ => some .clusters
  | parameter (.distance _) => some .distance
  | parameter (.strategy _) => some .strategy
  | parameter (.init _) => some .init
  | parameter (.tol _) => some .tol
  | parameter (.maxIter _) => some .maxIter
  | parameter (.verbose _) => some .verbose
  | parameter (.randomState _) => some .randomState
  | parameter (.device _) => some .device
  | metric => some .metric
  | other => none

/-- In a dictionary no name stands twice. -/
def IsDictionary (settings : List Setting) : Prop := (settings.filterMap name?).Nodup

/-- The options that a change stores, whether it fails or not. -/
def stored (settings : List Setting) : List Setting :=
  match settings.forM precheck with
  | .ok () => settings.takeWhile (!·.isReadOnly)
  | .error _ => []

section One

variable {c d : Clusterer} {s : Setting} {e : Fault} {entropy : Int}

theorem put_of_store (h : store c s = .ok d) : put c s = d := by
  unfold put
  rw [h]

theorem store_parameter {p : Parameter (Distance Float32 Float)} {q : Parameter (Metric Float32)}
    (h : p.mapM Distance.resolve = .ok q) : store c (parameter p) =
      .ok { c with
        parameters := c.parameters.set q
        metricVersion := if p.isDistance then c.metricVersion + 1 else c.metricVersion } := by
  simp only [store, h]
  rfl

theorem store_of_precheck (h : s.precheck = .ok ()) (hs : s.isReadOnly = false) :
    store c s = .ok (put c s) := by
  cases s with
  | clusters v => rfl
  | metric => cases hs
  | other => rfl
  | parameter p =>
    obtain ⟨q, hq, -⟩ := map_eq_ok.1 h
    rw [put_of_store (store_parameter hq), store_parameter hq]

/-- Only a distance can be refused before anything is stored. -/
theorem precheck_eq_error :
    s.precheck = .error e ↔ ∃ d, s = parameter (.distance d) ∧ d.resolve = .error e := by
  constructor
  · intro h
    cases s with
    | parameter p =>
      cases p with
      | distance d =>
        cases hd : d.resolve with
        | ok m =>
          rw [precheck, Parameter.mapM, hd] at h
          cases h
        | error e' =>
          rw [precheck, Parameter.mapM, hd] at h
          cases h
          exact ⟨d, rfl, hd⟩
      | _ => cases h
    | _ => cases h
  · rintro ⟨d, rfl, hd⟩
    rw [precheck, Parameter.mapM, hd]
    rfl

/-- Only a random state can be refused after all is stored. -/
theorem restart_eq_error :
    restart entropy c s = .error e ↔
      ∃ r, s = parameter (.randomState r) ∧ r.resolve entropy = .error e := by
  constructor
  · intro h
    cases s with
    | parameter p =>
      cases p with
      | randomState r =>
        cases hr : r.resolve entropy with
        | ok g =>
          rw [restart, hr] at h
          cases h
        | error e' =>
          rw [restart, hr] at h
          cases h
          exact ⟨r, rfl, hr⟩
      | _ => cases h
    | _ => cases h
  · rintro ⟨r, rfl, hr⟩
    rw [restart, hr]
    rfl

theorem eq_of_name (h : s.name? = some .randomState) : ∃ r, s = parameter (.randomState r) := by
  cases s with
  | parameter p =>
    cases p with
    | randomState r => exact ⟨r, rfl⟩
    | _ => cases h
  | _ => cases h

theorem restart_eq_self (h : s.name? ≠ some .randomState) : restart entropy c s = .ok c := by
  cases s with
  | parameter p =>
    cases p with
    | randomState r => exact absurd rfl h
    | _ => rfl
  | _ => rfl

/-- Storing an option starts no generator anew and changes nothing of the record of runs. -/
theorem put_keeps (c : Clusterer) (s : Setting) : (put c s).generator = c.generator ∧
    (put c s).criterion = c.criterion ∧ (put c s).iterations = c.iterations := by
  unfold put
  cases s with
  | parameter p =>
    cases hq : p.mapM Distance.resolve with
    | ok q =>
      rw [store_parameter hq]
      exact ⟨rfl, rfl, rfl⟩
    | error e =>
      simp only [store, hq]
      exact ⟨rfl, rfl, rfl⟩
  | _ => exact ⟨rfl, rfl, rfl⟩

theorem foldl_put_keeps (settings : List Setting) (c : Clusterer) :
    (settings.foldl put c).generator = c.generator ∧
      (settings.foldl put c).criterion = c.criterion ∧
      (settings.foldl put c).iterations = c.iterations := by
  induction settings generalizing c with
  | nil => exact ⟨rfl, rfl, rfl⟩
  | cons s settings ih =>
    obtain ⟨hgenerator, hcriterion, hiterations⟩ := ih (put c s)
    obtain ⟨hgenerator', hcriterion', hiterations'⟩ := put_keeps c s
    exact ⟨hgenerator.trans hgenerator', hcriterion.trans hcriterion',
      hiterations.trans hiterations'⟩

end One

section All

variable {settings : List Setting} {c t : Clusterer} {s : Setting} {e : Fault} {entropy : Int}

theorem IsDictionary.tail (h : IsDictionary (s :: settings)) : IsDictionary settings := by
  unfold IsDictionary at h ⊢
  rw [List.filterMap_cons] at h
  split at h
  · exact h
  · exact (List.nodup_cons.1 h).2

theorem IsDictionary.name?_ne {name : Name} (h : IsDictionary (s :: settings))
    (hs : s.name? = some name) : ∀ r ∈ settings, r.name? ≠ some name := by
  intro r hr hname
  unfold IsDictionary at h
  rw [List.filterMap_cons, hs] at h
  exact (List.nodup_cons.1 h).1 (List.mem_filterMap.2 ⟨r, hr, hname⟩)

theorem forM_precheck_cons_of_ok (h : s.precheck = .ok ()) :
    (s :: settings).forM precheck = settings.forM precheck := by
  change (s.precheck >>= fun _ => settings.forM precheck) = _
  rw [h]
  rfl

theorem forM_precheck_cons_of_error (h : s.precheck = .error e) :
    (s :: settings).forM precheck = .error e := by
  change (s.precheck >>= fun _ => settings.forM precheck) = _
  rw [h]
  rfl

theorem forM_precheck_eq_error (h : IsDictionary settings) : settings.forM precheck = .error e ↔
    ∃ d, parameter (.distance d) ∈ settings ∧ d.resolve = .error e := by
  induction settings with
  | nil =>
    constructor
    · exact fun h => nomatch h
    · exact fun ⟨d, hd, _⟩ => nomatch hd
  | cons s settings ih =>
    cases hs : s.precheck with
    | ok u =>
      rw [forM_precheck_cons_of_ok hs, ih h.tail]
      constructor
      · rintro ⟨d, hd, hresolve⟩
        exact ⟨d, List.mem_cons_of_mem _ hd, hresolve⟩
      · rintro ⟨d, hd, hresolve⟩
        rcases List.mem_cons.1 hd with rfl | hd
        · rw [precheck_eq_error.2 ⟨d, rfl, hresolve⟩] at hs
          cases hs
        · exact ⟨d, hd, hresolve⟩
    | error e' =>
      obtain ⟨d, rfl, hresolve⟩ := precheck_eq_error.1 hs
      rw [forM_precheck_cons_of_error hs]
      constructor
      · rintro ⟨⟩
        exact ⟨d, List.mem_cons_self .., hresolve⟩
      · rintro ⟨d', hd', hresolve'⟩
        rcases List.mem_cons.1 hd' with heq | hd'
        · cases heq
          rw [hresolve] at hresolve'
          rw [Except.error.inj hresolve']
        · exact absurd rfl (h.name?_ne rfl _ hd')

theorem precheck_of_forM (h : settings.forM precheck = .ok ()) :
    ∀ s ∈ settings, s.precheck = .ok () := by
  induction settings with
  | nil => simp
  | cons s settings ih =>
    cases hs : s.precheck with
    | ok u => exact List.forall_mem_cons.2 ⟨hs, ih (forM_precheck_cons_of_ok hs ▸ h)⟩
    | error e =>
      rw [forM_precheck_cons_of_error hs] at h
      cases h

/-- The checks of distances leave the clusterer as it is. -/
theorem forM_lift_precheck (settings : List Setting) (c : Clusterer) :
    settings.forM (fun s => (liftM s.precheck : EStateM Fault Clusterer Unit)) c =
      match settings.forM precheck with
      | .ok () => .ok () c
      | .error e => .error e c := by
  induction settings with
  | nil => rfl
  | cons s settings ih =>
    cases hs : s.precheck with
    | ok u =>
      have hlift : (liftM s.precheck : EStateM Fault Clusterer Unit) c = .ok () c :=
        step_lift_eq_ok.2 ⟨hs, rfl⟩
      rw [forM_precheck_cons_of_ok hs, ← ih]
      exact step_bind_of_ok hlift
    | error e =>
      have hlift : (liftM s.precheck : EStateM Fault Clusterer Unit) c = .error e c := by
        rw [hs]
        rfl
      rw [forM_precheck_cons_of_error hs]
      exact step_bind_of_error hlift

section Head

variable {change : Clusterer → Setting → Except Fault Clusterer}

theorem forM_apply_cons_of_ok {d : Clusterer} (h : change c s = .ok d) :
    (s :: settings).forM (apply change) c = settings.forM (apply change) d := by
  have happly : apply change s c = .ok () d := by
    unfold apply
    rw [h]
  exact step_bind_of_ok happly

theorem forM_apply_cons_of_error (h : change c s = .error e) :
    (s :: settings).forM (apply change) c = .error e c := by
  have happly : apply change s c = .error e c := by
    unfold apply
    rw [h]
  exact step_bind_of_error happly

end Head

/-- Options are stored up to the first name that is read only. -/
theorem forM_store (h : ∀ s ∈ settings, s.precheck = .ok ()) (c : Clusterer) :
    settings.forM (apply store) c =
      if settings.any isReadOnly then
        .error .readOnly ((settings.takeWhile (!·.isReadOnly)).foldl put c)
      else .ok () (settings.foldl put c) := by
  induction settings generalizing c with
  | nil => rfl
  | cons s settings ih =>
    obtain ⟨hs, hall⟩ := List.forall_mem_cons.1 h
    cases hread : s.isReadOnly with
    | true =>
      cases s with
      | metric => rfl
      | _ => cases hread
    | false =>
      rw [forM_apply_cons_of_ok (store_of_precheck hs hread), List.any_cons, List.takeWhile_cons,
        hread]
      exact ih hall (put c s)

theorem forM_restart_of_names (h : ∀ s ∈ settings, s.name? ≠ some .randomState) (c : Clusterer) :
    settings.forM (apply (restart entropy)) c = .ok () c := by
  induction settings with
  | nil => rfl
  | cons s settings ih =>
    obtain ⟨hs, hall⟩ := List.forall_mem_cons.1 h
    rw [forM_apply_cons_of_ok (restart_eq_self hs), ih hall]

/-- A random state that is refused leaves all as it is. -/
theorem forM_restart_eq_error (h : IsDictionary settings) :
    settings.forM (apply (restart entropy)) c = .error e t ↔
      (∃ r, parameter (.randomState r) ∈ settings ∧ r.resolve entropy = .error e) ∧ t = c := by
  induction settings with
  | nil =>
    constructor
    · exact fun h => nomatch h
    · exact fun ⟨⟨r, hr, _⟩, _⟩ => nomatch hr
  | cons s settings ih =>
    cases hs : restart entropy c s with
    | error e' =>
      obtain ⟨r, rfl, hr⟩ := restart_eq_error.1 hs
      rw [forM_apply_cons_of_error hs]
      constructor
      · rintro ⟨⟩
        exact ⟨⟨r, List.mem_cons_self .., hr⟩, rfl⟩
      · rintro ⟨⟨r', hr', hresolve⟩, rfl⟩
        rcases List.mem_cons.1 hr' with heq | hr'
        · cases heq
          rw [hr] at hresolve
          rw [Except.error.inj hresolve]
        · exact absurd rfl (h.name?_ne rfl _ hr')
    | ok d =>
      have hhead : ∀ r, s = parameter (.randomState r) → r.resolve entropy ≠ .error e := by
        intro r hr hresolve
        rw [restart_eq_error.2 ⟨r, hr, hresolve⟩] at hs
        cases hs
      rw [forM_apply_cons_of_ok hs]
      by_cases hname : s.name? = some .randomState
      · have hnone := h.name?_ne hname
        rw [forM_restart_of_names hnone]
        constructor
        · exact fun h => nomatch h
        · rintro ⟨⟨r, hr, hresolve⟩, -⟩
          rcases List.mem_cons.1 hr with hr | hr
          · exact absurd hresolve (hhead r hr.symm)
          · exact absurd rfl (hnone _ hr)
      · rw [restart_eq_self hname] at hs
        cases hs
        rw [ih h.tail]
        constructor
        · rintro ⟨⟨r, hr, hresolve⟩, rfl⟩
          exact ⟨⟨r, List.mem_cons_of_mem _ hr, hresolve⟩, rfl⟩
        · rintro ⟨⟨r, hr, hresolve⟩, rfl⟩
          rcases List.mem_cons.1 hr with hr | hr
          · exact absurd hresolve (hhead r hr.symm)
          · exact ⟨⟨r, hr, hresolve⟩, rfl⟩

/-- Using a random state changes nothing but the generator, whether it is refused or not. -/
theorem finalState_restart (entropy : Int) (settings : List Setting) (c : Clusterer) :
    ∃ g, finalState (settings.forM (apply (restart entropy)) c) = { c with generator := g } := by
  induction settings generalizing c with
  | nil => exact ⟨c.generator, rfl⟩
  | cons s settings ih =>
    cases hs : restart entropy c s with
    | error e =>
      rw [forM_apply_cons_of_error hs]
      exact ⟨c.generator, rfl⟩
    | ok d =>
      rw [forM_apply_cons_of_ok hs]
      have hd : ∃ g, d = { c with generator := g } := by
        by_cases hname : s.name? = some .randomState
        · obtain ⟨r, rfl⟩ := eq_of_name hname
          obtain ⟨g, -, rfl⟩ := map_eq_ok.1 hs
          exact ⟨g, rfl⟩
        · rw [restart_eq_self hname] at hs
          cases hs
          exact ⟨c.generator, rfl⟩
      obtain ⟨g, rfl⟩ := hd
      exact ih _

end All

end Setting

variable {settings : List Setting} {c t : Clusterer} {e : Fault} {entropy : Int}

theorem set_of_refused (h : settings.forM Setting.precheck = .error e) (c : Clusterer) :
    set entropy settings c = .error e c := by
  have hcheck := Setting.forM_lift_precheck settings c
  rw [h] at hcheck
  exact step_bind_of_error hcheck

section Checked

variable (hcheck : settings.forM Setting.precheck = .ok ())
include hcheck

theorem set_of_readOnly (h : settings.any Setting.isReadOnly = true) (c : Clusterer) :
    set entropy settings c =
      .error .readOnly ((settings.takeWhile (!·.isReadOnly)).foldl Setting.put c) := by
  have hlift := Setting.forM_lift_precheck settings c
  have hstore := Setting.forM_store (Setting.precheck_of_forM hcheck) c
  rw [hcheck] at hlift
  rw [h] at hstore
  exact (step_bind_of_ok hlift).trans (step_bind_of_error hstore)

/-- Where no name is read only, all options are stored before the random state is used. -/
theorem set_of_writable (h : settings.any Setting.isReadOnly = false) (c : Clusterer) :
    set entropy settings c =
      settings.forM (Setting.apply (Setting.restart entropy)) (settings.foldl Setting.put c) := by
  have hlift := Setting.forM_lift_precheck settings c
  have hstore := Setting.forM_store (Setting.precheck_of_forM hcheck) c
  rw [hcheck] at hlift
  rw [h] at hstore
  exact (step_bind_of_ok hlift).trans (step_bind_of_ok hstore)

end Checked

theorem any_isReadOnly : settings.any Setting.isReadOnly = true ↔ .metric ∈ settings := by
  rw [List.any_eq_true]
  constructor
  · rintro ⟨s, hs, hread⟩
    cases s with
    | metric => exact hs
    | _ => cases hread
  · exact fun h => ⟨.metric, h, rfl⟩

/-- The options that a change stores are all that it leaves, apart from a new generator. -/
theorem finalState_set (entropy : Int) (settings : List Setting) (c : Clusterer) :
    ∃ g, finalState (set entropy settings c) =
      { (Setting.stored settings).foldl Setting.put c with generator := g } := by
  unfold Setting.stored
  cases hcheck : settings.forM Setting.precheck with
  | error e =>
    rw [set_of_refused hcheck]
    exact ⟨c.generator, rfl⟩
  | ok u =>
    cases hread : settings.any Setting.isReadOnly with
    | true =>
      rw [set_of_readOnly hcheck hread]
      exact ⟨_, rfl⟩
    | false =>
      have hall : settings.takeWhile (!·.isReadOnly) = settings := by
        rw [List.takeWhile_eq_self_iff]
        intro s hs
        rw [eq_false_of_ne_true (List.any_eq_false.1 hread s hs)]
        rfl
      rw [set_of_writable hcheck hread]
      dsimp only
      rw [hall]
      exact Setting.finalState_restart entropy settings _

/-- A failed change starts no generator anew and leaves the record of runs. -/
theorem set_error_keeps (h : Setting.IsDictionary settings)
    (hset : set entropy settings c = .error e t) :
    t.generator = c.generator ∧ t.criterion = c.criterion ∧ t.iterations = c.iterations := by
  cases hcheck : settings.forM Setting.precheck with
  | error e' =>
    rw [set_of_refused hcheck] at hset
    cases hset
    exact ⟨rfl, rfl, rfl⟩
  | ok u =>
    cases hread : settings.any Setting.isReadOnly with
    | true =>
      rw [set_of_readOnly hcheck hread] at hset
      cases hset
      exact Setting.foldl_put_keeps _ c
    | false =>
      rw [set_of_writable hcheck hread, Setting.forM_restart_eq_error h] at hset
      rw [hset.2]
      exact Setting.foldl_put_keeps settings c

theorem set_ok_stores (hset : set entropy settings c = .ok () t) :
    ∃ g, t = { settings.foldl Setting.put c with generator := g } := by
  cases hcheck : settings.forM Setting.precheck with
  | error e =>
    rw [set_of_refused hcheck] at hset
    cases hset
  | ok u =>
    cases hread : settings.any Setting.isReadOnly with
    | true =>
      rw [set_of_readOnly hcheck hread] at hset
      cases hset
    | false =>
      obtain ⟨g, hfinal⟩ := Setting.finalState_restart entropy settings (settings.foldl Setting.put c)
      rw [← set_of_writable hcheck hread, hset] at hfinal
      exact ⟨g, hfinal⟩

/-- A change of options that succeeds stores all of them.  One that fails leaves generator and record,
but the options are as they were only if a distance was refused.  Where a name is read only, the
options before it are stored; where the random state is refused, all of them are. -/
theorem set_fails_iff (h : Setting.IsDictionary settings) (entropy : Int) (c : Clusterer) :
    (∀ t, set entropy settings c = .ok () t →
      ∃ g, t = { settings.foldl Setting.put c with generator := g }) ∧
    ∀ e t, (set entropy settings c = .error e t ↔
        (∃ d, .parameter (.distance d) ∈ settings ∧ d.resolve = .error e) ∧ t = c ∨
        (∀ d, .parameter (.distance d) ∈ settings → ∃ m, d.resolve = .ok m) ∧
          (.metric ∈ settings ∧ e = .readOnly ∧
              t = (settings.takeWhile (!·.isReadOnly)).foldl Setting.put c ∨
            .metric ∉ settings ∧
              (∃ r, .parameter (.randomState r) ∈ settings ∧ r.resolve entropy = .error e) ∧
              t = settings.foldl Setting.put c)) ∧
      (set entropy settings c = .error e t → t.generator = c.generator ∧ t.criterion = c.criterion ∧
        t.iterations = c.iterations) := by
  refine ⟨fun t hset => set_ok_stores hset, fun e t => ⟨?_, fun hset => set_error_keeps h hset⟩⟩
  cases hcheck : settings.forM Setting.precheck with
  | error e' =>
    obtain ⟨d, hd, hresolve⟩ := (Setting.forM_precheck_eq_error h).1 hcheck
    have hrefused : ¬ ∀ d, .parameter (.distance d) ∈ settings → ∃ m, d.resolve = .ok m := by
      intro hall
      obtain ⟨m, hm⟩ := hall d hd
      rw [hm] at hresolve
      cases hresolve
    rw [← Setting.forM_precheck_eq_error h, set_of_refused hcheck, hcheck]
    simp only [EStateM.Result.error.injEq, Except.error.injEq, hrefused, false_and, or_false]
    rw [eq_comm (a := c)]
  | ok u =>
    have hall : ∀ d, .parameter (.distance d) ∈ settings → ∃ m, d.resolve = .ok m := by
      intro d hd
      cases hresolve : d.resolve with
      | ok m => exact ⟨m, rfl⟩
      | error e' =>
        rw [(Setting.forM_precheck_eq_error h).2 ⟨d, hd, hresolve⟩] at hcheck
        cases hcheck
    have hnone : ¬ ∃ d, .parameter (.distance d) ∈ settings ∧ d.resolve = .error e := by
      rw [← Setting.forM_precheck_eq_error h, hcheck]
      exact fun h => nomatch h
    rw [and_iff_right hall]
    simp only [hnone, false_and, false_or]
    cases hread : settings.any Setting.isReadOnly with
    | true =>
      have hmem := any_isReadOnly.1 hread
      rw [set_of_readOnly hcheck hread]
      simp only [EStateM.Result.error.injEq, hmem, true_and, not_true, false_and, or_false]
      rw [eq_comm (a := Fault.readOnly), eq_comm (b := t)]
    | false =>
      have hmem : .metric ∉ settings := by
        rw [← any_isReadOnly, hread]
        exact Bool.false_ne_true
      rw [set_of_writable hcheck hread, Setting.forM_restart_eq_error h]
      simp only [hmem, false_and, false_or, not_false_eq_true, true_and]

/-- A metric by name, a limit, and a text in place of a seed. -/
def mixed : List Setting :=
  [.parameter (.distance (.value (.text "manhattan"))), .parameter (.maxIter (.int 5)),
    .parameter (.randomState (.value (.text "x")))]

theorem mixed_isDictionary : Setting.IsDictionary mixed := by
  change [Setting.Name.distance, .maxIter, .randomState].Nodup
  decide

/-- The random state is refused when metric and limit have been stored. -/
theorem set_fails_mixed : Setting.IsDictionary mixed ∧
    set 0 mixed pairing.procedure =
      .error (.randomStateType "<class 'str'>") (mixed.foldl Setting.put pairing.procedure) := by
  have hresolves : ∀ d, Setting.parameter (.distance d) ∈ mixed → ∃ m, d.resolve = .ok m := by
    intro d hd
    obtain rfl : d = .value (.text "manhattan") := by simpa [mixed] using hd
    exact ⟨_, rfl⟩
  have hwritable : Setting.metric ∉ mixed := by simp [mixed]
  have hstate : Setting.parameter (.randomState (.value (.text "x"))) ∈ mixed := by simp [mixed]
  have hrefused : (RandomState.value (.text "x")).resolve 0 =
      .error (.randomStateType "<class 'str'>") := rfl
  refine ⟨mixed_isDictionary, ?_⟩
  exact ((set_fails_iff mixed_isDictionary 0 pairing.procedure).2 _ _).1.2
    (.inr ⟨hresolves, .inr ⟨hwritable, ⟨_, hstate, hrefused⟩, rfl⟩⟩)

/-- A change that fails is not undone: another limit stands, and a random state that is none. -/
theorem set_fails_halfway : Setting.IsDictionary mixed ∧ ∃ e t,
    set 0 mixed pairing.procedure = .error e t ∧
    t.parameters.maxIter ≠ pairing.procedure.parameters.maxIter ∧
    t.parameters.randomState = .value (.text "x") ∧ t.parameters.randomState.resolve 0 = .error e ∧
    t.generator = pairing.procedure.generator := by
  refine ⟨mixed_isDictionary, _, _, rfl, ?_, rfl, rfl, rfl⟩
  intro h
  cases h

end Clusterer

end Centroids

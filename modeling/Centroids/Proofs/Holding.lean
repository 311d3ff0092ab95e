import Mathlib.Data.List.Nodup
import Centroids.Proofs.Agreement
import Centroids.Recipe

/-! What a recipe holds.  A step is judged first and then written under its name, so a recipe is a
function from names to steps of which each step that succeeds changes one value.  Whatever was done
with a recipe, under each name it holds the last step that succeeded. -/
namespace Centroids

namespace Recipe

/-- What a step writes. -/
inductive Name
  | distance | strategy | init | tol | maxIter | verbose | randomState | device | trials | scoring
deriving DecidableEq

namespace Step

def name : Step → Name
  | parameter (.distance _) => .distance
  | parameter (.strategy _) => .strategy
  | parameter (.init _) => .init
  | parameter (.tol _) => .tol
  | parameter (.maxIter _) => .maxIter
  | parameter (.verbose _) => .verbose
  | parameter (.randomState _) => .randomState
  | parameter (.device _) => .device
  | trials _ => .trials
  | scoring _ => .scoring

/-- What is judged of a step before it is stored. -/
def check : Step → Except Fault Unit
  | parameter (.device (.text name)) =>
    if isKnownDevice (.text name) then .ok () else .error .unknownDevice
  | parameter _ => .ok ()
  | trials v => (trialCount v).map fun _ => ()
  | scoring _ => .ok ()

end Step

/-- The step by which a recipe would get what it holds under a name. -/
def holds (r : Recipe) : Name → Step
  | .distance => .parameter (.distance r.parameters.distance)
  | .strategy => .parameter (.strategy r.parameters.strategy)
  | .init => .parameter (.init r.parameters.init)
  | .tol => .parameter (.tol r.parameters.tol)
  | .maxIter => .parameter (.maxIter r.parameters.maxIter)
  | .verbose => .parameter (.verbose r.parameters.verbose)
  | .randomState => .parameter (.randomState r.parameters.randomState)
  | .device => .parameter (.device r.parameters.device)
  | .trials => .trials ((r.trials.map Value.int).getD .null)
  | .scoring => .scoring r.scoring

/-- Writes a step that was judged. -/
def put (r : Recipe) : Step → Recipe
  | .parameter p => { r with parameters := r.parameters.set p }
  | .trials (.int n) => { r with trials := some n }
  | .trials _ => r
  | .scoring d => { r with scoring := d }

/-- A recipe is what it holds. -/
theorem holds_injective : Function.Injective holds := by
  intro r t h
  have hname (n : Name) : r.holds n = t.holds n := congrFun h n
  obtain ⟨⟨distance, strategy, init, tol, maxIter, verbose, randomState, device⟩, trials, scoring⟩ := r
  obtain ⟨⟨distance', strategy', init', tol', maxIter', verbose', randomState', device'⟩, trials',
    scoring'⟩ := t
  have htrials : trials = trials' := by
    have hcount := hname .trials
    cases trials <;> cases trials' <;> simp_all [holds]
  cases hname .distance
  cases hname .strategy
  cases hname .init
  cases hname .tol
  cases hname .maxIter
  cases hname .verbose
  cases hname .randomState
  cases hname .device
  cases hname .scoring
  rw [htrials]

section One

variable {s : Step}

theorem holds_put_of_ne {n : Name} (h : n ≠ s.name) (r : Recipe) : (r.put s).holds n = r.holds n := by
  cases s with
  | parameter p => cases p <;> cases n <;> simp_all [put, holds, Parameters.set, Step.name]
  | trials v => cases v <;> cases n <;> simp_all [put, holds, Step.name]
  | scoring d => cases n <;> simp_all [put, holds, Step.name]

/-- A count of trials is held as it was given, since only whole numbers are accepted. -/
theorem holds_put_name (h : s.check = .ok ()) (r : Recipe) : (r.put s).holds s.name = s := by
  cases s with
  | parameter p => cases p <;> rfl
  | trials v =>
    obtain ⟨n, hn, -⟩ := map_eq_ok.1 h
    obtain ⟨rfl, -⟩ := trialCount_eq_ok.1 hn
    rfl
  | scoring d => rfl

theorem holds_put (h : s.check = .ok ()) (r : Recipe) :
    (r.put s).holds = Function.update r.holds s.name s :=
  Function.eq_update_iff.2 ⟨holds_put_name h r, fun _ hn => holds_put_of_ne hn r⟩

/-- A step is judged before it changes anything. -/
theorem Step.store_eq (s : Step) (r : Recipe) :
    s.store r = match s.check with
      | .ok () => .ok () (r.put s)
      | .error e => .error e r := by
  cases s with
  | parameter p =>
    cases p with
    | device v =>
      cases v with
      | text name =>
        simp only [check]
        cases hknown : isKnownDevice (.text name) with
        | true =>
          simp only [store, hknown]
          rfl
        | false =>
          simp only [store, hknown]
          rfl
      | _ => rfl
    | _ => rfl
  | trials v =>
    cases hv : trialCount v with
    | ok n =>
      obtain ⟨rfl, -⟩ := trialCount_eq_ok.1 hv
      simp only [store, check, hv]
      rfl
    | error e =>
      simp only [store, check, hv]
      rfl
  | scoring d => rfl

theorem add_eq (r : Recipe) (s : Step) : r.add s = s.check.map fun _ => r.put s := by
  unfold add
  rw [Step.store_eq]
  cases s.check <;> rfl

end One

/-- The step that a call takes, if it is one. -/
def Call.step? : Call → Option Step
  | step s => some s
  | spread => some (.parameter (.init (.text "k-means++")))
  | random => some (.parameter (.init (.text "random")))
  | misfit | unknown => none

/-- A call writes the step that it takes, or it fails and leaves the recipe as it is. -/
theorem Call.perform_cases (c : Call) (r : Recipe) :
    (∃ s, c.step? = some s ∧ s.check = .ok () ∧ c.perform r = .ok () (r.put s)) ∨
      ∃ e, c.perform r = .error e r := by
  cases c with
  | step s =>
    have hstore := s.store_eq r
    cases hcheck : s.check with
    | ok u =>
      rw [hcheck] at hstore
      exact .inl ⟨s, rfl, hcheck, hstore⟩
    | error e =>
      rw [hcheck] at hstore
      exact .inr ⟨e, hstore⟩
  | spread => exact .inl ⟨_, rfl, rfl, rfl⟩
  | random => exact .inl ⟨_, rfl, rfl, rfl⟩
  | misfit => exact .inr ⟨_, rfl⟩
  | unknown => exact .inr ⟨_, rfl⟩

theorem Call.eq_of_perform_error {c : Call} {r t : Recipe} {e : Fault}
    (h : c.perform r = .error e t) : t = r := by
  rcases c.perform_cases r with ⟨s, -, -, hperform⟩ | ⟨e', hperform⟩
  · rw [hperform] at h
    cases h
  · rw [hperform] at h
    cases h
    rfl

/-- What is done with a recipe: a call, or a clusterer that is built from it. -/
inductive Act
  | call (c : Call)
  | build (entropy : Int) (clusters : Value)

namespace Act

def perform : Act → EStateM Fault Recipe (Option Built)
  | call c => do
    c.perform
    return none
  | build entropy clusters => do
    let r ← get
    return some (← r.build entropy clusters)

def step? : Act → Option Step
  | call c => c.step?
  | build _ _ => none

/-- An act writes the step that it takes, or it leaves the recipe as it is. -/
theorem perform_cases (act : Act) (r : Recipe) :
    (∃ s x, act.step? = some s ∧ s.check = .ok () ∧ act.perform r = .ok x (r.put s)) ∨
    (∃ x, act.step? = none ∧ act.perform r = .ok x r) ∨
    ∃ e, act.perform r = .error e r := by
  cases act with
  | call c =>
    rcases c.perform_cases r with ⟨s, hs, hcheck, hperform⟩ | ⟨e, hperform⟩
    · exact .inl ⟨s, none, hs, hcheck, step_bind_of_ok hperform⟩
    · exact .inr (.inr ⟨e, step_bind_of_error hperform⟩)
  | build entropy clusters =>
    cases hbuild : r.build entropy clusters with
    | ok b =>
      have hlift : (liftM (r.build entropy clusters) : EStateM Fault Recipe Built) r = .ok b r :=
        step_lift_eq_ok.2 ⟨hbuild, rfl⟩
      exact .inr (.inl ⟨some b, rfl, (step_bind_of_ok rfl).trans (step_bind_of_ok hlift)⟩)
    | error e =>
      have hlift :
          (liftM (r.build entropy clusters) : EStateM Fault Recipe Built) r = .error e r := by
        rw [hbuild]
        rfl
      exact .inr (.inr ⟨e, (step_bind_of_ok rfl).trans (step_bind_of_error hlift)⟩)

end Act

/-- The recipe after acts of which each may fail. -/
def after (r : Recipe) (acts : List Act) : Recipe :=
  acts.foldl (fun r act => finalState (act.perform r)) r

/-- The steps that succeed, in the order in which they are taken. -/
def successes (r : Recipe) : List Act → List Step
  | [] => []
  | act :: acts =>
    match act.perform r with
    | .ok _ t => act.step?.toList ++ successes t acts
    | .error _ t => successes t acts

/-- The last of the steps with a name. -/
def lastOf (n : Name) (steps : List Step) : Option Step := (steps.filter (·.name = n)).getLast?

theorem lastOf_cons (n : Name) (s : Step) (steps : List Step) :
    lastOf n (s :: steps) = if s.name = n then some ((lastOf n steps).getD s) else lastOf n steps := by
  unfold lastOf
  by_cases h : s.name = n <;> simp [h, List.getLast?_cons]

theorem lastOf_eq_none {n : Name} {steps : List Step} (h : n ∉ steps.map Step.name) :
    lastOf n steps = none := by
  have hfilter : steps.filter (·.name = n) = [] := by
    rw [List.filter_eq_nil_iff]
    intro s hs hname
    exact h (List.mem_map.2 ⟨s, hs, of_decide_eq_true hname⟩)
  unfold lastOf
  rw [hfilter]
  rfl

section Many

variable {r t : Recipe} {s : Step} {steps order : List Step}

/-- Acts write the steps that succeed, and nothing else. -/
theorem after_eq (acts : List Act) (r : Recipe) :
    r.after acts = (r.successes acts).foldl put r ∧ ∀ s ∈ r.successes acts, s.check = .ok () := by
  induction acts generalizing r with
  | nil => exact ⟨rfl, by simp [successes]⟩
  | cons act acts ih =>
    have hafter : r.after (act :: acts) = (finalState (act.perform r)).after acts := rfl
    rw [hafter]
    rcases act.perform_cases r with ⟨s, x, hs, hcheck, hact⟩ | ⟨x, hs, hact⟩ | ⟨e, hact⟩
    · have hsteps : r.successes (act :: acts) = s :: (r.put s).successes acts := by
        simp [successes, hact, hs]
      obtain ⟨hput, hchecks⟩ := ih (r.put s)
      rw [hact, hsteps]
      exact ⟨hput, List.forall_mem_cons.2 ⟨hcheck, hchecks⟩⟩
    · -- A clusterer that is built takes nothing from the recipe.
      have hsteps : r.successes (act :: acts) = r.successes acts := by
        simp [successes, hact, hs]
      rw [hact, hsteps]
      exact ih r
    · have hsteps : r.successes (act :: acts) = r.successes acts := by
        simp [successes, hact]
      rw [hact, hsteps]
      exact ih r

/-- Under each name a recipe holds the last step that was written, or what it held before. -/
theorem holds_foldl_put (h : ∀ s ∈ steps, s.check = .ok ()) (r : Recipe) (n : Name) :
    (steps.foldl put r).holds n = (lastOf n steps).getD (r.holds n) := by
  induction steps generalizing r with
  | nil => rfl
  | cons s steps ih =>
    obtain ⟨hs, hsteps⟩ := List.forall_mem_cons.1 h
    rw [List.foldl_cons, ih hsteps, holds_put hs, lastOf_cons]
    by_cases hn : s.name = n
    · subst hn
      simp
    · rw [if_neg hn, Function.update_of_ne (Ne.symm hn)]

theorem holds_after (acts : List Act) (r : Recipe) (n : Name) :
    (r.after acts).holds n = (lastOf n (r.successes acts)).getD (r.holds n) := by
  obtain ⟨hafter, hchecks⟩ := after_eq acts r
  rw [hafter]
  exact holds_foldl_put hchecks r n

theorem put_comm {s' : Step} (hs : s.check = .ok ()) (hs' : s'.check = .ok ())
    (h : s.name ≠ s'.name) (r : Recipe) : (r.put s).put s' = (r.put s').put s := by
  apply holds_injective
  rw [holds_put hs', holds_put hs, holds_put hs, holds_put hs']
  exact Function.update_comm h _ _ _

/-- Steps of different names may be written in any order. -/
theorem foldl_put_perm (hperm : steps.Perm order) (hnames : (steps.map Step.name).Nodup)
    (hchecks : ∀ s ∈ steps, s.check = .ok ()) (r : Recipe) :
    steps.foldl put r = order.foldl put r := by
  refine hperm.foldl_eq' ?_ r
  intro s hs s' hs' t
  by_cases hname : s.name = s'.name
  · rw [List.inj_on_of_nodup_map hnames hs hs' hname]
  · exact put_comm (hchecks s hs) (hchecks s' hs') hname t

/-- What is written first may as well be written last. -/
theorem foldl_put_cons (hnames : ((s :: steps).map Step.name).Nodup)
    (hchecks : ∀ s' ∈ s :: steps, s'.check = .ok ()) (r : Recipe) :
    (s :: steps).foldl put r = (steps.foldl put r).put s := by
  rw [foldl_put_perm (List.perm_append_singleton _ _).symm hnames hchecks, List.foldl_append]
  rfl

theorem foldlM_add_eq_ok : steps.foldlM add r = .ok t ↔
    (∀ s ∈ steps, s.check = .ok ()) ∧ steps.foldl put r = t := by
  induction steps generalizing r with
  | nil => simp [pure, Except.pure]
  | cons s steps ih =>
    rw [List.foldlM_cons, bind_eq_ok, List.forall_mem_cons, List.foldl_cons]
    simp only [add_eq, map_eq_ok]
    constructor
    · rintro ⟨_, ⟨_, hs, rfl⟩, ht⟩
      obtain ⟨hsteps, ht⟩ := ih.1 ht
      exact ⟨⟨hs, hsteps⟩, ht⟩
    · rintro ⟨⟨hs, hsteps⟩, ht⟩
      exact ⟨r.put s, ⟨(), hs, rfl⟩, ih.2 ⟨hsteps, ht⟩⟩

end Many

end Recipe

end Centroids

import Centroids.Proofs.Coverage
import Centroids.Proofs.Silence

/-! What the future of a clusterer depends on: its options and its generator.  A run looks at nothing
else that runs before it have left, so a clusterer that is given a seed and a new one with the same
options answer alike from then on. -/
namespace Centroids

namespace Clusterer

/-- The same options and the same generator. -/
structure Alike (c d : Clusterer) : Prop where
  clusters_eq : c.clusters = d.clusters
  parameters_eq : c.parameters = d.parameters
  generator_eq : c.generator = d.generator

theorem Alike.prepare_eq {c d : Clusterer} (h : Alike c d) (data : Dataset) :
    c.prepare data = d.prepare data := by
  unfold prepare validate components
  rw [h.clusters_eq, h.parameters_eq]

/-- What a run answers, and what can be read off the clusterer after it. -/
structure Reply where
  clusters : Partition Float32
  iterations : Nat
  history : Option (List Entry)

def reply (horizon : Nat) (data : Dataset) : EStateM Fault (Session Clusterer) Reply := do
  let outcome ← run horizon data
  let c := (← get).procedure
  return ⟨outcome.clusters, c.iterations, c.criterion.map (·.history)⟩

/-- The answers to runs one after another, each of which may fail. -/
def replies (horizon : Nat) : List Dataset → Session Clusterer → List (Except Fault Reply)
  | [], _ => []
  | data :: rest, s =>
    match reply horizon data s with
    | .ok answer t => .ok answer :: replies horizon rest t
    | .error e t => .error e :: replies horizon rest t

def AlikeSessions (s t : Session Clusterer) : Prop := Clusterer.Alike s.procedure t.procedure

/-- Clusterers that are alike answer alike, and stay alike, whether the run fails or not. -/
theorem reply_follows (horizon : Nat) (data : Dataset) :
    Follows AlikeSessions (reply horizon data) (reply horizon data) := by
  intro s t hst
  unfold reply
  cases ht : t.procedure.prepare data with
  | error e =>
    have hs : s.procedure.prepare data = .error e := (hst.prepare_eq data).trans ht
    rw [step_bind_of_error (run_of_prepare_error hs horizon),
      step_bind_of_error (run_of_prepare_error ht horizon)]
    exact .error hst
  | ok p =>
    have hs : s.procedure.prepare data = .ok p := (hst.prepare_eq data).trans ht
    obtain ⟨j, k, hjk, ⟨outcome, hrun, hrun'⟩ | ⟨e, hrun, hrun'⟩⟩ :=
      run_agrees hs ht hst.generator_eq horizon
    · have hanswer : (p.finish s outcome j).procedure.criterion =
          (p.finish t outcome k).procedure.criterion := congrArg some hjk.criterion_eq
      rw [step_bind_of_ok hrun, step_bind_of_ok hrun']
      change Agree _ (.ok (Reply.mk _ _ ((p.finish s outcome j).procedure.criterion.map _)) _) _
      rw [hanswer]
      exact .ok ⟨hst.clusters_eq, hst.parameters_eq, hjk.generator_eq⟩
    · rw [step_bind_of_error hrun, step_bind_of_error hrun']
      exact .error ⟨hst.clusters_eq, hst.parameters_eq, hjk.generator_eq⟩

theorem replies_eq (horizon : Nat) (sets : List Dataset) {s t : Session Clusterer}
    (h : AlikeSessions s t) : replies horizon sets s = replies horizon sets t := by
  induction sets generalizing s t with
  | nil => rfl
  | cons data rest ih =>
    have hagree := reply_follows horizon data s t h
    unfold replies
    cases ht : reply horizon data t with
    | ok answer t' =>
      obtain ⟨s', hs, hst⟩ := (ht ▸ hagree).of_ok
      rw [hs]
      exact congrArg _ (ih hst)
    | error e t' =>
      obtain ⟨s', hs, hst⟩ := (ht ▸ hagree).of_error
      rw [hs]
      exact congrArg _ (ih hst)

/-- The options of a clusterer configure a new one with the same options. -/
theorem ofSettings_settings {c : Clusterer} {entropy : Int} {g : Generator} {handler : Handler Float32}
    {seeding : Seeding} (hdevice : isKnownDevice c.parameters.device = true)
    (hstate : c.parameters.randomState.resolve entropy = .ok g)
    (hhandler : c.parameters.strategy.resolve = .ok handler)
    (hseeding : Seeding.ofValue c.parameters.init = .ok seeding) :
    ofSettings entropy c.settings = .ok ⟨c.clusters, c.parameters, 0, g, none, 0⟩ := by
  have hfold : c.settings.foldlM Setting.configure (none, .default) = .ok (some c.clusters,
      { c.parameters with distance := .metric c.parameters.distance }) := rfl
  unfold ofSettings make
  rw [hfold]
  simp [bind, Except.bind, pure, Except.pure, hdevice, hstate, hhandler, hseeding, Distance.resolve]

/-- The clusterer with a new random state, from which its generator starts. -/
def seeded (c : Clusterer) (seed : Int) : Clusterer :=
  { c with
    parameters := c.parameters.set (.randomState (.value (.int seed)))
    generator := Generator.ofSeed seed }

/-- With a seed there is no need of entropy. -/
theorem resolve_seed {seed : Int} (hlower : -2 ^ 63 ≤ seed) (hupper : seed < 2 ^ 64) (entropy : Int) :
    (RandomState.value (.int seed)).resolve entropy = .ok (Generator.ofSeed seed) :=
  if_pos ⟨hlower, hupper⟩

theorem restart_of_resolve {r : RandomState} {entropy : Int} {g : Generator}
    (h : r.resolve entropy = .ok g) (c : Clusterer) :
    Setting.apply (Setting.restart entropy) (.parameter (.randomState r)) c =
      .ok () { c with generator := g } := by
  have hrestart : Setting.restart entropy c (.parameter (.randomState r)) =
      .ok { c with generator := g } := by
    change (r.resolve entropy).map _ = _
    rw [h]
    rfl
  unfold Setting.apply
  rw [hrestart]

theorem set_seed {seed : Int} (hlower : -2 ^ 63 ≤ seed) (hupper : seed < 2 ^ 64) (entropy : Int)
    (c : Clusterer) :
    set entropy [.parameter (.randomState (.value (.int seed)))] c = .ok () (c.seeded seed) :=
  step_bind_of_ok (restart_of_resolve (resolve_seed hlower hupper entropy) _)

/-- Options and seed determine the future.  Whatever a clusterer went through, once it has a seed it
answers to all further data as a new clusterer does that is made with its options. -/
theorem replies_determined {c : Clusterer} {seed : Int} {handler : Handler Float32} {seeding : Seeding}
    (hlower : -2 ^ 63 ≤ seed) (hupper : seed < 2 ^ 64)
    (hdevice : isKnownDevice c.parameters.device = true)
    (hhandler : c.parameters.strategy.resolve = .ok handler)
    (hseeding : Seeding.ofValue c.parameters.init = .ok seeding) (entropy entropy' : Int) :
    ∃ c₁ c₂, set entropy [.parameter (.randomState (.value (.int seed)))] c = .ok () c₁ ∧
      ofSettings entropy' c₁.settings = .ok c₂ ∧
      ∀ horizon sets notices notices', replies horizon sets ⟨c₁, notices⟩ =
        replies horizon sets ⟨c₂, notices'⟩ := by
  have hstate : (c.seeded seed).parameters.randomState.resolve entropy' =
      .ok (Generator.ofSeed seed) := resolve_seed hlower hupper entropy'
  refine ⟨_, _, set_seed hlower hupper entropy c,
    ofSettings_settings (c := c.seeded seed) hdevice hstate hhandler hseeding, ?_⟩
  intro horizon sets notices notices'
  exact replies_eq horizon sets ⟨rfl, rfl, rfl⟩

/-- A clusterer that has just failed, and then is given a seed. -/
theorem replies_determined_pairing : ∃ e t c₁ c₂, run 9 .texts pairing = .error e t ∧
    set 1 [.parameter (.randomState (.value (.int 7)))] t.procedure = .ok () c₁ ∧
    ofSettings 2 c₁.settings = .ok c₂ ∧
    replies 9 [triple, .texts, triple] ⟨c₁, []⟩ = replies 9 [triple, .texts, triple] ⟨c₂, []⟩ := by
  have hfails : run 9 .texts pairing = .error .entryType pairing :=
    run_of_prepare_error rfl 9
  have hlower : (-2 ^ 63 : Int) ≤ 7 := by decide
  obtain ⟨c₁, c₂, hset, hmake, hreplies⟩ := replies_determined (c := pairing.procedure) hlower
    (by decide) rfl rfl rfl 1 2
  exact ⟨_, _, c₁, c₂, hfails, hset, hmake, hreplies 9 _ [] []⟩

end Clusterer

end Centroids

import Centroids.Dataset
import Centroids.Device
import Centroids.Number.Logarithm
import Centroids.Trial

/-!
A configured clusterer.  Its options are kept as they were given and judged where they are used; its
generator goes on from run to run, and its last criterion keeps the record of the last run.
-/
namespace Centroids

structure Session (σ : Type) where
  procedure : σ
  notices : List Notice

namespace Session

def say {σ : Type} (n : Notice) : EStateM Fault (Session σ) Unit :=
  modify fun s => { s with notices := s.notices ++ [n] }

end Session

structure Parameters (δ : Type) where
  distance : δ
  strategy : StrategyChoice
  init : Value
  tol : Value
  maxIter : Value
  verbose : Value
  randomState : RandomState
  device : Value

inductive Parameter (δ : Type)
  | distance (d : δ)
  | strategy (s : StrategyChoice)
  | init (v : Value)
  | tol (v : Value)
  | maxIter (v : Value)
  | verbose (v : Value)
  | randomState (r : RandomState)
  | device (v : Value)

namespace Parameter

/-- Resolves the distance, if that is the option. -/
def mapM {δ ε : Type} (f : δ → Except Fault ε) : Parameter δ → Except Fault (Parameter ε)
  | distance d => (f d).map distance
  | strategy s => .ok (strategy s)
  | init v => .ok (init v)
  | tol v => .ok (tol v)
  | maxIter v => .ok (maxIter v)
  | verbose v => .ok (verbose v)
  | randomState r => .ok (randomState r)
  | device v => .ok (device v)

def isDistance {δ : Type} : Parameter δ → Bool
  | distance _ => true
  | _ => false

end Parameter

namespace Parameters

def default : Parameters (Distance Float32 Float) where
  distance := .value (.text "euclidean")
  strategy := .value (.text "largest_variance")
  init := .text "k-means++"
  tol := .double 0
  maxIter := .int (-1)
  verbose := .int 0
  randomState := .value .null
  device := .null

def set {δ : Type} (p : Parameters δ) : Parameter δ → Parameters δ
  | .distance d => { p with distance := d }
  | .strategy s => { p with strategy := s }
  | .init v => { p with init := v }
  | .tol v => { p with tol := v }
  | .maxIter v => { p with maxIter := v }
  | .verbose v => { p with verbose := v }
  | .randomState r => { p with randomState := r }
  | .device v => { p with device := v }

end Parameters

structure Clusterer where
  clusters : Value
  parameters : Parameters (Metric Float32)
  /-- How often the metric has been replaced. -/
  metricVersion : Nat
  generator : Generator
  criterion : Option Criterion
  /-- How many iterations the last run that ended had. -/
  iterations : Nat

namespace Clusterer

/-- A clusterer that has not run.  Device, random state, distance, strategy and seeding are checked in
this order; the other options are not. -/
def make (entropy : Int) (clusters : Value) (p : Parameters (Distance Float32 Float)) :
    Except Fault Clusterer := do
  if !isKnownDevice p.device then throw .unknownDevice
  let generator ← p.randomState.resolve entropy
  let metric ← p.distance.resolve
  let _ ← p.strategy.resolve
  let _ ← Seeding.ofValue p.init
  return ⟨clusters, { p with distance := metric }, 0, generator, none, 0⟩

def validate (c : Clusterer) (data : Dataset) : Except Fault (Points Float32) := do
  data.demand
  if !isKnownDevice c.parameters.device then throw .unknownDevice
  if !isAvailableDevice c.parameters.device then throw .unavailableDevice
  data.validate

theorem validate_eq_ok {c : Clusterer} {data : Dataset} {points : Points Float32} :
    c.validate data = .ok points ↔
      isAvailableDevice c.parameters.device = true ∧ data.validate = .ok points := by
  unfold validate Dataset.validate
  cases data.demand with
  | error e => exact ⟨nofun, fun h => nomatch h.2⟩
  | ok u =>
    cases havailable : isAvailableDevice c.parameters.device with
    | true =>
      rw [isKnownDevice_of_isAvailable havailable]
      exact ⟨fun h => ⟨rfl, h⟩, fun h => h.2⟩
    | false => cases isKnownDevice c.parameters.device <;> exact ⟨nofun, fun h => nomatch h.1⟩

structure Components where
  handler : Handler Float32
  seeding : Seeding
  criterion : Criterion

/-- The options are judged in this order. -/
def components (c : Clusterer) : Except Fault Components := do
  let handler ← c.parameters.strategy.resolve
  let seeding ← Seeding.ofValue c.parameters.init
  let criterion ← Criterion.make c.parameters.tol (.int 1)
  return ⟨handler, seeding, criterion⟩

/-- A run inside a session: generator, record and reports are kept even if it fails. -/
def inSession {β : Type} (criterion : Criterion) (step : Journal.Step β) :
    EStateM Fault (Session Clusterer) β := fun s =>
  let store (j : Journal) : Session Clusterer :=
    ⟨{ s.procedure with generator := j.generator, criterion := some j.criterion }, j.notices⟩
  match step ⟨s.procedure.generator, criterion, s.notices⟩ with
  | .ok x j => .ok x (store j)
  | .error e j => .error e (store j)

structure Prepared where
  points : Points Float32
  plan : Trial.Plan Float32
  criterion : Criterion

/-- What a run starts from: data, cluster count and options are judged in this order. -/
def prepare (c : Clusterer) (data : Dataset) : Except Fault Prepared := do
  let points ← c.validate data
  let clusters ← clusterCount points.size c.clusters
  let ⟨handler, seeding, criterion⟩ ← c.components
  return ⟨points, ⟨clusters, seeding, c.parameters.distance, handler,
    .ofValue c.parameters.maxIter, .ofValue c.parameters.verbose⟩, criterion⟩

/-- A run on new data.  One without a limit is given up after as many rounds as the horizon. -/
def run (horizon : Nat) (data : Dataset) :
    EStateM Fault (Session Clusterer) (Trial.Outcome Float32) := do
  let c := (← get).procedure
  let ⟨points, plan, criterion⟩ ← c.prepare data
  let outcome ← inSession criterion do
    if plan.verbosity.reports then Journal.say (.initializing c.clusters)
    Trial.run horizon plan points
  modify fun s => { s with procedure := { s.procedure with iterations := outcome.iterations } }
  if plan.verbosity.reports then
    if !outcome.converged then Session.say (.unconverged c.parameters.maxIter)
    Session.say .finished
  return outcome

/-- The rounds after which a run without a limit is given up where no horizon is asked for. -/
def defaultHorizon : Nat := Nat.pow 2 60

def cluster (data : Dataset) : EStateM Fault (Session Clusterer) (Partition Float32) :=
  (·.clusters) <$> run defaultHorizon data

inductive Setting
  | clusters (v : Value)
  | parameter (p : Parameter (Distance Float32 Float))
  /-- The metric as it is used, which can be read only. -/
  | metric
  /-- A name that nothing depends on. -/
  | other

namespace Setting

/-- Options for a new clusterer: one with a name that it does not take is refused. -/
def configure (options : Option Value × Parameters (Distance Float32 Float)) :
    Setting → Except Fault (Option Value × Parameters (Distance Float32 Float))
  | clusters v => .ok (some v, options.2)
  | parameter p => .ok (options.1, options.2.set p)
  | metric | other => .error .arguments

def store (c : Clusterer) : Setting → Except Fault Clusterer
  | clusters v => .ok { c with clusters := v }
  | parameter p => do
    let version := if p.isDistance then c.metricVersion + 1 else c.metricVersion
    return { c with
      parameters := c.parameters.set (← p.mapM Distance.resolve), metricVersion := version }
  | metric => .error .readOnly
  | other => .ok c

/-- A distance is refused before anything is stored. -/
def precheck : Setting → Except Fault Unit
  | parameter p => (p.mapM Distance.resolve).map fun _ => ()
  | _ => .ok ()

/-- A new random state, stored already, starts the generator anew. -/
def restart (entropy : Int) (c : Clusterer) : Setting → Except Fault Clusterer
  | parameter (.randomState r) => (r.resolve entropy).map fun g => { c with generator := g }
  | _ => .ok c

/-- Applies a change; the state is kept as it was when the change fails. -/
def apply (change : Clusterer → Setting → Except Fault Clusterer) (s : Setting) :
    EStateM Fault Clusterer Unit := fun c =>
  match change c s with
  | .ok c => .ok () c
  | .error e => .error e c

end Setting

def ofSettings (entropy : Int) (settings : List Setting) : Except Fault Clusterer := do
  match ← settings.foldlM Setting.configure (none, .default) with
  | (some clusters, p) => make entropy clusters p
  | (none, _) => throw .arguments

/-- All options as they are now, with the metric in place of the distance it was given by. -/
def settings (c : Clusterer) : List Setting :=
  let p := c.parameters
  [.clusters c.clusters, .parameter (.maxIter p.maxIter), .parameter (.verbose p.verbose),
    .parameter (.randomState p.randomState), .parameter (.device p.device),
    .parameter (.distance (.metric p.distance)), .parameter (.strategy p.strategy),
    .parameter (.init p.init), .parameter (.tol p.tol)]

/-- Sets options in order.  Those before one that fails stay stored. -/
def set (entropy : Int) (settings : List Setting) : EStateM Fault Clusterer Unit := do
  settings.forM fun s => liftM s.precheck
  settings.forM (Setting.apply Setting.store)
  settings.forM (Setting.apply (Setting.restart entropy))

def strategyText : StrategyChoice → String
  | .value v => v.literal
  | .named s => Text.quoted s.name
  | .ready h => "<" ++ h.name ++ ">"

def text (c : Clusterer) : String :=
  let clusters := c.clusters.plain
  let maxIter := c.parameters.maxIter.plain
  let metric := c.parameters.distance.text
  let strategy := strategyText c.parameters.strategy
  s!"KMeansPlusPlusClusterer(n_clusters={clusters}, max_iter={maxIter}, distance={metric}, " ++
    s!"empty_cluster_strategy={strategy})"

end Clusterer

end Centroids

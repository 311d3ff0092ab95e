import Centroids.Selection

/-!
A clusterer described step by step, and then built: a single one, or one whose trials are selected
from.
-/
namespace Centroids

structure Recipe where
  parameters : Parameters (Distance Float32 Float)
  trials : Option Int
  scoring : Distance Float32 Float

namespace Recipe

def empty : Recipe := ⟨.default, none, .value .null⟩

inductive Step
  | parameter (p : Parameter (Distance Float32 Float))
  | trials (v : Value)
  | scoring (d : Distance Float32 Float)

/-- Stores a step.  A device given by name is looked up, and a count of trials is judged, before
anything is stored. -/
def Step.store : Step → EStateM Fault Recipe Unit
  | parameter (.device (.text name)) => do
    if !isKnownDevice (.text name) then throw .unknownDevice
    modify fun r => { r with parameters := r.parameters.set (.device (.text name)) }
  | parameter p => modify fun r => { r with parameters := r.parameters.set p }
  | trials v => do
    let n ← trialCount v
    modify fun r => { r with trials := some n }
  | scoring d => modify fun r => { r with scoring := d }

/-- The recipe with one step more, where nothing goes on after a step that fails. -/
def add (r : Recipe) (s : Step) : Except Fault Recipe :=
  match s.store r with
  | .ok _ r => .ok r
  | .error e _ => .error e

/-- A call: a step with its value, or one of the two seedings, which have calls of their own. -/
inductive Call
  | step (s : Step)
  | spread
  | random
  /-- A call with too few or too many values. -/
  | misfit
  | unknown

def Call.perform : Call → EStateM Fault Recipe Unit
  | step s => s.store
  | spread => Step.store (.parameter (.init (.text "k-means++")))
  | random => Step.store (.parameter (.init (.text "random")))
  | misfit => throw .arguments
  | unknown => throw .unknownMethod

/-- One level less, but not below zero. -/
def quieter (verbose : Value) : Except Fault Value :=
  match verbose.numeral? with
  | none => .error .incomparable
  | some (.int n) => .ok (.int (max (n - 1) 0))
  | some (.double x) => .ok (if Scalar.lt (x - 1) 0 then .int 0 else .double (x - 1))

inductive Built
  | single (c : Clusterer)
  | repeated (s : Selection) (c : Clusterer)

/-- A clusterer whose trials are selected from reports one level less than the selection. -/
def build (r : Recipe) (entropy : Int) (clusters : Value) : Except Fault Built := do
  let verbose ← quieter r.parameters.verbose
  let c ← Clusterer.make entropy clusters (r.parameters.set (.verbose verbose))
  match r.trials with
  | none =>
    return .single { c with parameters := c.parameters.set (.verbose r.parameters.verbose) }
  | some n => return .repeated (← Selection.ofClusterer (.int n) r.scoring r.parameters.verbose c) c

inductive Named
  | step (s : Step)
  /-- An option that takes no value. -/
  | bare
  | unknown (name : String)

def addNamed (r : Recipe) : Named → Except Fault Recipe
  | .step s => r.add s
  | .bare => .error .arguments
  | .unknown name => .error (.unknownOption name)

def isTrials : Named → Bool
  | .step (.trials _) => true
  | _ => false

/-- A single clusterer; options about trials are refused. -/
def create (entropy : Int) (clusters : Value) (options : List Named) : Except Fault Built := do
  if options.any isTrials then throw .trialsOption
  (← options.foldlM addNamed empty).build entropy clusters

def createRepeated (entropy : Int) (clusters trials : Value) (options : List Named) :
    Except Fault Built := do
  (← options.foldlM addNamed (← empty.add (.trials trials))).build entropy clusters

end Recipe

end Centroids

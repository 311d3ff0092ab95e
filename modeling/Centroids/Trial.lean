import Centroids.Assignment
import Centroids.Convergence
import Centroids.Notice
import Centroids.Options
import Centroids.Update

/-!
One run over the data: seeding, then rounds of moving the centers and assigning the points anew, until
the criterion is met or the limit is reached.
-/
namespace Centroids

/-- What a run changes, and leaves behind when it fails. -/
structure Journal where
  generator : Generator
  criterion : Criterion
  notices : List Notice

namespace Journal

abbrev Step := EStateM Fault Journal

def draw {β : Type} (choice : Random β) : Step β := fun j =>
  match choice j.generator with
  | .ok x g => .ok x { j with generator := g }
  | .error e g => .error e { j with generator := g }

def say (n : Notice) : Step Unit := modify fun j => { j with notices := j.notices ++ [n] }

def check (o : Observation) : Step Bool := fun j =>
  match j.criterion.check o with
  | .ok (met, criterion) => .ok met { j with criterion }
  | .error e => .error e j

end Journal

namespace Trial

variable {α ω : Type} [Scalar α] [Sampled ω] [Widening α ω]

structure Plan (α : Type) where
  clusters : Int
  seeding : Seeding
  metric : Metric α
  handler : Handler α
  limit : Limit
  verbosity : Verbosity

def assign (plan : Plan α) (points : Points α) (centers : List (List α)) :
    Except Fault (Partition α × List Int) := do
  let labels ← Assignment.labels plan.metric points centers
  return (← Assignment.clusters points centers labels, labels)

/-- One round: the centers move and the points are assigned anew. -/
def move (plan : Plan α) (points : Points α) (clusters : Partition α) :
    Random (Partition α × List Int × Bool) := do
  let (centers, reseeded) ← Update.centers plan.handler (.metric plan.metric) clusters
  let (clusters, labels) ← assign plan points centers
  return (clusters, labels, reseeded)

structure Outcome (α : Type) where
  clusters : Partition α
  iterations : Nat
  converged : Bool

def report (plan : Plan α) (iteration : Nat) (reseeded : Bool) : Journal.Step Unit :=
  match plan.verbosity.details with
  | none => throw .incomparable
  | some false => return ()
  | some true => do
    let changed := ((← get).criterion.history.getLast?.map (·.changed)).getD 0
    Journal.say (.iteration iteration changed reseeded)

def isOver (plan : Plan α) (iteration : Nat) : Except Fault Bool :=
  match plan.limit with
  | .unlimited => .ok false
  | .atMost n => .ok (n ≤ iteration)
  | .unordered => .error .incomparable

/-- A round and whether the criterion is met after it. -/
def round (plan : Plan α) (points : Points α) (iteration : Nat) (clusters : Partition α) :
    Journal.Step (Partition α × Bool) := do
  let (clusters, labels, reseeded) ← Journal.draw (move plan points clusters)
  let met ← Journal.check ⟨some (.ofList labels), some (.int iteration), reseeded⟩
  report plan iteration reseeded
  return (clusters, met)

/-- Rounds from the one with a given number on, at most as many as the horizon allows. -/
def rounds (plan : Plan α) (points : Points α) :
    Nat → Nat → Partition α → Journal.Step (Outcome α)
  | 0, _, _ => throw .stalled
  | horizon + 1, iteration, clusters => do
    if ← isOver plan iteration then return ⟨clusters, iteration, false⟩
    let (clusters, met) ← round plan points iteration clusters
    if met then
      if plan.verbosity.reports then Journal.say (.converged iteration)
      return ⟨clusters, iteration + 1, true⟩
    rounds plan points horizon (iteration + 1) clusters

def start (plan : Plan α) (points : Points α) : Random (Partition α × List Int) := do
  let centers ← plan.seeding.centers plan.metric points plan.clusters
  assign plan points centers

/-- A whole run.  One without a limit is given up after as many rounds as the horizon. -/
def run (horizon : Nat) (plan : Plan α) (points : Points α) : Journal.Step (Outcome α) := do
  let (clusters, labels) ← Journal.draw (start plan points)
  modify fun j => { j with criterion := j.criterion.reset }
  let _ ← Journal.check ⟨some (.ofList labels), some (.int (-1)), false⟩
  rounds plan points (plan.limit.horizon horizon) 0 clusters

end Trial

end Centroids

import Centroids.Metric

/-!
Anything by which members of a cluster can be measured: a metric, or a function from outside that
may take all members at once or one at a time.
-/
namespace Centroids

/-- The format of measured distances: that of the points, single precision, or whole numbers. -/
inductive Format
  | native
  | single
  | whole
deriving DecidableEq

/-- What a measurement returns, in the type in which scores are computed. -/
structure Answer (ω : Type) where
  format : Format
  values : Grid ω

inductive Distance (α ω : Type)
  | metric (m : Metric α)
  | function (measure : Grid α → Grid α → Except Fault (Answer ω))
  | value (v : Value)

namespace Distance

variable {α ω : Type} [Scalar α] [Sampled ω] [Widening α ω]

/-- The metric that a clusterer is to use: a metric as it is, or one with the given name. -/
def resolve : Distance α ω → Except Fault (Metric α)
  | metric m => .ok m
  | function _ => .error (.unknownDistance "<callable>")
  | value v => Metric.ofValue v

def named : Distance α ω → Except Fault (Distance α ω)
  | value (.text name) => (Metric.ofValue (.text name)).map metric
  | d => .ok d

def call : Distance α ω → Grid α → Grid α → Except Fault (Answer ω)
  | metric m, points, center => do
    return ⟨.native, (← m.call points center).map Widening.widen⟩
  | function measure, points, center => measure points center
  | value _, _, _ => .error .notCallable

def single (d : Distance α ω) (point center : Grid α) : Except Fault (Format × ω) := do
  let answer ← d.call point center
  match answer.values.single? with
  | some x => return (answer.format, x)
  | none => throw .notSingle

/-- The distances of points measured one at a time, in the format of the first. -/
def rowByRow (d : Distance α ω) (points : Points α) (center : List α) :
    Except Fault (Format × List ω) := do
  match ← points.rows.mapM fun row => d.single (.ofList row) (.ofList center) with
  | [] => throw .emptyStack
  | (format, x) :: rest => return (format, x :: rest.map (·.2))

/-- One distance for each member.  An answer to all members at once counts if it has one value for
each of them; otherwise they are measured one at a time. -/
def ofMembers (d : Distance α ω) (points : Points α) (center : List α) :
    Except Fault (Format × List ω) :=
  match d with
  | metric (.formula f) => do
    return (.native, (← f.distances points center).map Widening.widen)
  | _ => do
    let answer ← d.call points.toGrid (.ofList center)
    if answer.values.shape = [points.size] then return (answer.format, answer.values.toList)
    else d.rowByRow points center

end Distance

end Centroids

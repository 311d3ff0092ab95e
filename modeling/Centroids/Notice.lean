import Centroids.Number.Decimal
import Centroids.Value

/-!
What a run reports while it goes on.
-/
namespace Centroids

inductive Notice
  | initializing (clusters : Value)
  | iteration (number changed : Nat) (reseeded : Bool)
  | converged (iteration : Nat)
  /-- The only warning; the others are lines of text. -/
  | unconverged (limit : Value)
  | finished
  | trial (number : Nat) (trials : Int) (score : Float) (sizes : List Nat)
  | best (trials trial : Int) (score : Float)

namespace Notice

def isWarning : Notice → Bool
  | unconverged _ => true
  | _ => false

def aligned (width n : Nat) : String :=
  let text := toString n
  String.ofList (List.replicate (width - text.length) ' ') ++ text

/-- The text of a notice; `elapsed` is the time taken, in seconds. -/
def text (elapsed : String) : Notice → String
  | initializing clusters => s!"Initializing {clusters.plain} clusters..."
  | iteration number changed reseeded =>
    let reseed := if reseeded then ", reseeded empty cluster" else ""
    let number := aligned 3 number
    s!"Iteration {number}: {changed} reassigned{reseed} ({elapsed}s)"
  | converged number => s!"Converged at iteration {number}"
  | unconverged limit => s!"Failed to converge after {limit.plain} iterations"
  | finished => s!"Total clustering time: {elapsed}s"
  | trial number trials score sizes =>
    let number := aligned 3 number
    let score := fixedText 6 score
    let sizes := String.intercalate ", " (sizes.map toString)
    s!"Trial {number}/{trials}: variance sum = {score} (cluster sizes [{sizes}])"
  | best trials number score =>
    let score := fixedText 6 score
    s!"Best of {trials} trials: trial {number} with variance sum {score}"

end Notice

end Centroids

import Centroids.Metric
import Centroids.Generator

/-!
The choice of the first centers among the points: rows of a random permutation, or rows drawn one by
one with weights that grow with the squared distance to the centers chosen so far.
-/
namespace Centroids

variable {α ω : Type} [Scalar α] [Sampled ω] [Widening α ω]

inductive Seeding
  /-- For each further center so many candidates are drawn, and the best of them is kept. -/
  | spread (candidates : Nat)
  | random
deriving DecidableEq

/-- The rows chosen so far, in order, and each row's squared distance to the nearest of them. -/
structure Spread (ω : Type) where
  chosen : List Nat
  nearest : List ω

namespace Spread

def squares (metric : Metric α) (points : Points α) (row : Nat) : Except Fault (List ω) :=
  match points.rows[row]? with
  | some center => (metric.distances points center).map (·.map fun d => Widening.widen (d * d))
  | none => .error .indexOutOfRange

def potential (s : Spread ω) : ω := Scalar.total s.nearest

/-- Chosen rows have no weight. -/
def weights (s : Spread ω) : List ω :=
  s.nearest.zipIdx.map fun (x, i) => if i ∈ s.chosen then 0 else x

def remaining (s : Spread ω) : List Nat :=
  (List.range s.nearest.length).filter (· ∉ s.chosen)

def add (metric : Metric α) (points : Points α) (s : Spread ω) (row : Nat) :
    Except Fault (Spread ω) :=
  (squares metric points row).map fun ds =>
    ⟨s.chosen ++ [row], List.zipWith Scalar.least s.nearest ds⟩

/-- The first of several continuations with the smallest potential. -/
def best : List (Spread ω) → Option (Spread ω)
  | [] => none
  | s :: rest => some (rest.foldl (fun b c => if Scalar.lt c.potential b.potential then c else b) s)

theorem best_eq_none {continuations : List (Spread ω)} :
    best continuations = none ↔ continuations = [] := by
  cases continuations <;> simp [best]

theorem best_mem {continuations : List (Spread ω)} {s : Spread ω} (h : best continuations = some s) :
    s ∈ continuations := by
  have fold_mem : ∀ (rest : List (Spread ω)) (s : Spread ω),
      rest.foldl (fun b c => if Scalar.lt c.potential b.potential then c else b) s ∈ s :: rest := by
    intro rest
    induction rest with
    | nil => simp
    | cons c rest ih =>
      intro s
      rw [List.foldl_cons]
      split
      · exact List.mem_cons_of_mem _ (ih c)
      · rcases List.mem_cons.1 (ih s) with h | h
        · simp [h]
        · exact List.mem_cons_of_mem _ (List.mem_cons_of_mem _ h)
  cases continuations with
  | nil => simp [best] at h
  | cons c rest =>
    obtain rfl := Option.some.inj h
    exact fold_mem rest c

/-- Rows from which the next one is chosen.  When no row is away from all chosen ones, one of those
that are left is taken. -/
def candidates (count : Nat) (s : Spread ω) : Random (List Nat) :=
  let weights := s.weights
  let sum := Scalar.total weights
  if Scalar.lt 0 sum then Random.weighted (weights.map (· / sum)) count
  else return (s.remaining[← Random.below s.remaining.length]?).toList

def start (metric : Metric α) (points : Points α) : Random (Spread ω) := do
  let row ← Random.below points.size
  return ⟨[row], ← squares metric points row⟩

def grow (metric : Metric α) (points : Points α) (count : Nat) : Nat → Spread ω → Random (Spread ω)
  | 0, s => return s
  | rounds + 1, s => do
    let continuations ← (← s.candidates count).mapM fun row => liftM (s.add metric points row)
    match best continuations with
    | some s => grow metric points count rounds s
    | none => throw .emptyChoice

end Spread

namespace Seeding

/-- The part of a list before a place; a negative place counts from the end. -/
def takeUpTo {β : Type} (place : Int) (xs : List β) : List β :=
  xs.take (if place < 0 then place + xs.length else place).toNat

/-- Chosen rows as centers.  At least one is drawn where rows are drawn one by one. -/
def centers (seeding : Seeding) (metric : Metric α) (points : Points α) (clusters : Int) :
    Random (List (List α)) := do
  if clusters > points.size then throw (.tooFewPoints clusters points.size)
  match seeding with
  | spread count =>
    let first : Spread ω ← Spread.start metric points
    let all ← Spread.grow metric points count (clusters.toNat - 1) first
    return (points.select all.chosen).rows
  | random =>
    let rows ← Random.shuffle (List.range points.size)
    return (points.select (takeUpTo clusters rows)).rows

end Seeding

end Centroids

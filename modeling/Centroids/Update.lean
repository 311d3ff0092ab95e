import Centroids.Reseeding

/-!
The next centers.  Clusters are visited in order: a cluster with points left moves to their mean, and
one without takes a point from another.  Donors visited later do without the points taken.
-/
namespace Centroids

namespace Update

variable {α ω : Type} [Scalar α] [Sampled ω] [Widening α ω]

/-- A single point without a row number whose coordinates are as many as the rows of the data: the
mask of rows is then laid over its coordinates. -/
def isLevel (total : Nat) (c : Cluster α) : Bool :=
  c.indices.isNone && c.size == 1 && c.points.dim == total

def members (available : List Bool) (c : Cluster α) : Except Fault (Points α) :=
  match c.indices with
  | some indices => (Donor.mask available indices).map c.points.filter
  | none =>
    if isLevel available.length c then
      .ok (.ofList (((c.points.rows.flatten.zip available).filter (·.2)).map (·.1)))
    else .error .indexOutOfRange

def center (handler : Handler α) (distance : Distance α ω) (clusters : Partition α)
    (c : Cluster α) : Taking (List α × Bool) := do
  let members ← members (← get).available c
  if members.size = 0 then return (← handler.reseed distance clusters, true)
  else return (← members.mean, false)

def total (clusters : Partition α) : Nat := clusters.foldr (·.size + ·) 0

/-- Whether the next centers are lone numbers, not rows. -/
def isFlat (clusters : Partition α) : Bool := clusters.all (isLevel (total clusters))

def isUniform (clusters : Partition α) (centers : List (List α)) : Bool :=
  (isFlat clusters || !clusters.any (isLevel (total clusters))) &&
    centers.all fun row => row.length == (centers.headD []).length

def centers (handler : Handler α) (distance : Distance α ω) (clusters : Partition α) :
    Random (List (List α) × Bool) := fun g =>
  if clusters.isEmpty then .error .indexOutOfRange g
  else
    let pool : Pool := ⟨g, List.replicate (total clusters) true⟩
    match clusters.mapM (center handler distance clusters) pool with
    | .ok answers pool =>
      if isUniform clusters (answers.map (·.1)) then
        .ok (answers.map (·.1), answers.any (·.2)) pool.generator
      else .error .shapeMismatch pool.generator
    | .error e pool => .error e pool.generator

/-- The next centers are those at which the clusters arrive one after the other, when all are rows of
one length. -/
theorem centers_eq_ok {handler : Handler α} {distance : Distance α ω} {clusters : Partition α}
    {next : List (List α)} {reseeded : Bool} {g g' : Generator} :
    centers handler distance clusters g = .ok (next, reseeded) g' ↔
      clusters ≠ [] ∧ ∃ answers pool,
        clusters.mapM (center handler distance clusters)
          ⟨g, List.replicate (total clusters) true⟩ = .ok answers pool ∧
        isUniform clusters (answers.map (·.1)) = true ∧ answers.map (·.1) = next ∧
        answers.any (·.2) = reseeded ∧ pool.generator = g' := by
  unfold centers
  cases hempty : clusters.isEmpty with
  | true => simp [List.isEmpty_iff.1 hempty]
  | false =>
    have hne : clusters ≠ [] := fun h => by simp [h] at hempty
    simp only [Bool.false_eq_true, if_false, hne, ne_eq, not_false_eq_true, true_and]
    cases clusters.mapM (center handler distance clusters)
        ⟨g, List.replicate (total clusters) true⟩ with
    | error e pool => simp
    | ok answers pool =>
      dsimp only
      split
      · rename_i huniform
        simp [huniform, and_assoc]
      · rename_i huniform
        simp [huniform]

end Update

end Centroids

import Centroids.Distance

/-!
Clusters: a center, the points that belong to it and, if they are known, the numbers of their rows in
the data.  A partition is a list of clusters.
-/
namespace Centroids

structure Cluster (α : Type) where
  center : List α
  points : Points α
  indices : Option (List Int)
  dim_eq : points.size ≠ 0 → points.dim = center.length
  length_indices : ∀ is, indices = some is → is.length = points.size
deriving DecidableEq

abbrev Partition (α : Type) := List (Cluster α)

namespace Cluster

variable {α : Type}

def size (c : Cluster α) : Nat := c.points.size

def isEmpty (c : Cluster α) : Bool := c.size == 0

def make (center : List α) (points : Points α) (indices : Option (List Int)) :
    Except Fault (Cluster α) :=
  if hd : points.size ≠ 0 → points.dim = center.length then
    if hi : ∀ is, indices = some is → is.length = points.size then
      .ok ⟨center, points, indices, hd, hi⟩
    else .error (.indexCount (indices.getD []).length points.size)
  else .error (.pointDimension points.dim center.length)

theorem make_eq_ok {center : List α} {points : Points α} {indices : Option (List Int)}
    {c : Cluster α} (h : make center points indices = .ok c) :
    c.center = center ∧ c.points = points ∧ c.indices = indices := by
  unfold make at h
  split at h
  · split at h
    · cases h
      exact ⟨rfl, rfl, rfl⟩
    · cases h
  · cases h

def bare (center : List α) : Cluster α :=
  ⟨center, .empty center.length, some [], by simp, by simp⟩

/-- A cluster from arrays: the center has one axis and the points have two. -/
def ofGrids (center points : Grid α) (indices : Option (List Int)) : Except Fault (Cluster α) :=
  if center.rank ≠ 1 then .error (.centerRank center.rank)
  else match Points.ofGrid? points with
    | none => .error (.pointsRank points.rank)
    | some points => make center.toList points indices

def bareOfGrid (center : Grid α) : Except Fault (Cluster α) :=
  match center.rank with
  | 0 => .error .indexOutOfRange
  | 1 => .ok (bare center.toList)
  | rank => .error (.centerRank rank)

def text [Widening α Float] (c : Cluster α) : String :=
  s!"CentroidCluster(size={c.size}, center=[" ++
    String.intercalate ", " (c.center.map fun x => doubleText (Widening.widen x)) ++ "])"

end Cluster

end Centroids

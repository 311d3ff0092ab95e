import Centroids.Points

/-!
Distances from points to a center.  A formula has a part for each coordinate, gathers the parts and
finishes the result; it is applied to whole grids and, row by row, to points.
-/
namespace Centroids

inductive Formula (α : Type)
  | euclidean (squared : Bool)
  /-- Each squared difference is multiplied by the weight of its coordinate. -/
  | weighted (weights : List α) (squared : Bool)
  | manhattan
  | chebyshev
  /-- Differences in relation to the sizes of both coordinates. -/
  | canberra
deriving DecidableEq

namespace Formula

variable {α : Type} [Scalar α]

/-- What one coordinate of a point and of the center contributes, before weighting. -/
def part : Formula α → α → α → α
  | euclidean _, x, c => (x - c) * (x - c)
  | weighted _ _, x, c => x - c
  | manhattan, x, c | chebyshev, x, c => Scalar.abs (x - c)
  | canberra, x, c =>
    let size := Scalar.abs x + Scalar.abs c
    if size == 0 then 0 else Scalar.abs (x - c) / Scalar.atLeast Scalar.tiny size

def weigh (weight difference : α) : α := weight * difference * difference

def gather : Formula α → List α → α
  | chebyshev => Scalar.greatest
  | _ => Scalar.total

def finish : Formula α → α → α
  | euclidean false | weighted _ false => Scalar.sqrt
  | _ => id

/-- Weights of a weighted formula: one axis, and none below zero. -/
def checkWeights (weights : Grid α) : Except Fault (List α) :=
  if weights.rank ≠ 1 then .error (.weightRank weights.rank)
  else if weights.toList.any (Scalar.lt · 0) then .error .negativeWeight
  else .ok weights.toList

/-- The distances from points to a center, along the second axis. -/
def compute (f : Formula α) (points center : Grid α) : Except Fault (Grid α) := do
  let some parts := Grid.zipWith? f.part points center.unsqueeze | throw .shapeMismatch
  let parts ← match f with
    | weighted weights _ =>
      match Grid.zipWith? weigh (Grid.ofList weights).unsqueeze parts with
      | some parts => pure parts
      | none => throw .shapeMismatch
    | _ => pure parts
  match parts.fold? 1 f.gather with
  | some distances => return distances.map f.finish
  | none => throw .missingAxis

/-- The number of coordinates that points and a center have in common, with axes of length one
stretched. -/
def width? (f : Formula α) (points center : Nat) : Option Nat :=
  match f with
  | weighted weights _ => (Grid.joinLength? points center).bind (Grid.joinLength? weights.length)
  | _ => Grid.joinLength? points center

def stretchRow (width : Nat) (row : List α) : List α :=
  if row.length = width then row else List.replicate width (row.headD 0)

theorem stretchRow_of_length {width : Nat} {row : List α} (h : row.length = width) :
    stretchRow width row = row := if_pos h

theorem forall_stretchRow {P : α → Prop} {width : Nat} {row : List α} (hzero : P 0)
    (h : ∀ x ∈ row, P x) : ∀ x ∈ stretchRow width row, P x := by
  unfold stretchRow
  split
  · exact h
  · intro x hx
    rw [List.eq_of_mem_replicate hx]
    cases row with
    | nil => exact hzero
    | cons y row => exact h y (List.mem_cons_self ..)

def parts (f : Formula α) (width : Nat) (point center : List α) : List α :=
  let parts := List.zipWith f.part (stretchRow width point) (stretchRow width center)
  match f with
  | weighted weights _ => List.zipWith weigh (stretchRow width weights) parts
  | _ => parts

def between (f : Formula α) (width : Nat) (point center : List α) : α :=
  f.finish (f.gather (f.parts width point center))

def distances (f : Formula α) (points : Points α) (center : List α) : Except Fault (List α) :=
  match f.width? points.dim center.length with
  | some width => .ok (points.rows.map fun row => f.between width row center)
  | none => .error .shapeMismatch

theorem length_distances {f : Formula α} {points : Points α} {center ds : List α}
    (h : f.distances points center = .ok ds) : ds.length = points.size := by
  simp only [distances] at h
  split at h
  · cases h; simp [Points.size]
  · cases h

end Formula

inductive Metric (α : Type)
  | formula (f : Formula α)
  /-- A metric from outside, which measures all points of a grid at once. -/
  | custom (name : String) (compute : Grid α → Grid α → Except Fault (Grid α))

namespace Metric

variable {α : Type} [Scalar α]

def compute : Metric α → Grid α → Grid α → Except Fault (Grid α)
  | formula f => f.compute
  | custom _ compute => compute

/-- A grid with one axis is a single point, which has a single distance. -/
def call (m : Metric α) (points center : Grid α) : Except Fault (Grid α) :=
  if points.rank = 1 then do
    match (← m.compute points.unsqueeze center).slice? 0 with
    | some distance => return distance
    | none => throw .indexOutOfRange
  else m.compute points center

def distances (m : Metric α) (points : Points α) (center : List α) : Except Fault (List α) :=
  match m with
  | formula f => f.distances points center
  | custom _ compute => do
    let answer ← compute points.toGrid (.ofList center)
    if Grid.joinShape? answer.shape [points.size] = some [points.size] then
      return (answer.stretch [points.size]).toList
    else throw .shapeMismatch

theorem length_distances {m : Metric α} {points : Points α} {center ds : List α}
    (h : m.distances points center = .ok ds) : ds.length = points.size := by
  cases m with
  | formula f => exact Formula.length_distances h
  | custom name compute =>
    obtain ⟨answer, -, h⟩ := bind_eq_ok.1 h
    split at h
    · cases h
      simp [Grid.stretch, length_positions]
    · cases h

def name : Metric α → String
  | formula (.euclidean _) => "EuclideanDistance"
  | formula (.weighted _ _) => "WeightedEuclideanDistance"
  | formula .manhattan => "ManhattanDistance"
  | formula .chebyshev => "ChebyshevDistance"
  | formula .canberra => "CanberraDistance"
  | custom name _ => name

/-- A weighted formula shows neither weights nor arguments. -/
def text (m : Metric α) : String :=
  match m with
  | formula (.euclidean squared) =>
    m.name ++ "(squared=" ++ (Value.bool squared).literal ++ ")"
  | formula (.weighted _ _) => m.name
  | _ => m.name ++ "()"

def ofName? : String → Option (Metric α)
  | "euclidean" => some (formula (.euclidean false))
  | "sqeuclidean" => some (formula (.euclidean true))
  | "manhattan" => some (formula .manhattan)
  | "chebyshev" => some (formula .chebyshev)
  | "canberra" => some (formula .canberra)
  | _ => none

def ofValue : Value → Except Fault (Metric α)
  | .text name =>
    match ofName? name with
    | some m => .ok m
    | none => .error (.unknownDistance name)
  | v => .error (.unknownDistance v.plain)

end Metric

end Centroids

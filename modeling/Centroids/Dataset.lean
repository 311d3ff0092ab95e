import Centroids.Number.Precision
import Centroids.Points

/-!
Data as it is handed in, and the points it stands for.
-/
namespace Centroids

inductive Dataset
  | value (v : Value)
  | doubles (g : Grid Float)
  | integers (g : Grid Int)
  | texts

namespace Dataset

variable {α : Type}

/-- Whole numbers of any size go by way of the nearest double.  Those beyond the doubles become
infinite, and are refused as such later on; a conversion that refuses them itself has a fault of its
own for that. -/
def number [Stored α] : Value → Except Fault α
  | .bool b => .ok (Stored.ofDouble (Double.ofInt b.toNat))
  | .int n => .ok (Stored.ofDouble (Double.ofInt n))
  | .double x => .ok (Stored.ofDouble x)
  | _ => .error .entryType

/-- Data has to be there, and to be a list or an array. -/
def demand : Dataset → Except Fault Unit
  | value .null => .error .missingData
  | value (.list _) | doubles _ | integers _ | texts => .ok ()
  | value v => .error (.notTabular v.typeText)

def read [Stored α] : Dataset → Except Fault (Grid α)
  | value v => Grid.ofValue number v
  | doubles g => .ok (g.map Stored.ofDouble)
  | integers g => .ok (g.map Stored.ofInt)
  | texts => .error .entryType

/-- Numbers along one axis are points with one coordinate. -/
def pointsOf (g : Grid α) : Except Fault (Points α) :=
  if g.rank = 1 then .ok (.ofList g.toList)
  else match Points.ofGrid? g with
    | some points => .ok points
    | none => .error (.dataRank g.rank)

/-- At least one point, at least one coordinate, and finite numbers. -/
def check [Scalar α] (points : Points α) : Except Fault (Points α) :=
  if points.size = 0 then .error .noSamples
  else if points.dim = 0 then .error .noFeatures
  else if points.rows.any (·.any Scalar.isNaN) then .error .nanEntry
  else if points.rows.any (·.any (!Scalar.isFinite ·)) then .error .infiniteEntry
  else .ok points

theorem check_eq_ok [Scalar α] {points p : Points α} : check points = .ok p ↔
    p = points ∧ points.size ≠ 0 ∧ points.dim ≠ 0 ∧
      ∀ row ∈ points.rows, ∀ x ∈ row, Scalar.isNaN x = false ∧ Scalar.isFinite x = true := by
  unfold check
  by_cases hs : points.size = 0
  · simp [hs]
  by_cases hd : points.dim = 0
  · simp [hs, hd]
  by_cases hn : points.rows.any (·.any Scalar.isNaN) = true
  · rw [if_neg hs, if_neg hd, if_pos hn]
    obtain ⟨row, hr, hx⟩ := List.any_eq_true.1 hn
    obtain ⟨x, hx, hnan⟩ := List.any_eq_true.1 hx
    simp only [reduceCtorEq, false_iff]
    rintro ⟨-, -, -, h⟩
    rw [(h row hr x hx).1] at hnan
    cases hnan
  rw [if_neg hs, if_neg hd, if_neg hn]
  have hn : ∀ row ∈ points.rows, ∀ x ∈ row, Scalar.isNaN x = false := by simpa using hn
  by_cases hi : points.rows.any (·.any (!Scalar.isFinite ·)) = true
  · rw [if_pos hi]
    obtain ⟨row, hr, hx⟩ := List.any_eq_true.1 hi
    obtain ⟨x, hx, hinf⟩ := List.any_eq_true.1 hx
    simp only [reduceCtorEq, false_iff]
    rintro ⟨-, -, -, h⟩
    rw [(h row hr x hx).2] at hinf
    cases hinf
  · rw [if_neg hi]
    have hi : ∀ row ∈ points.rows, ∀ x ∈ row, Scalar.isFinite x = true := by simpa using hi
    simp only [Except.ok.injEq]
    exact ⟨fun h => ⟨h.symm, hs, hd, fun row hr x hx => ⟨hn row hr x hx, hi row hr x hx⟩⟩,
      fun h => h.1.symm⟩

def validate [Stored α] [Scalar α] (data : Dataset) : Except Fault (Points α) := do
  data.demand
  check (← pointsOf (← data.read))

end Dataset

end Centroids

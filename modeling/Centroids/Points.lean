import Centroids.Number.Scalar
import Centroids.Grid

/-!
Points are rows of one length.  Rows are picked by number, and a negative number counts from the
end.
-/
namespace Centroids

/-- The place among `n` that a number names. -/
def place? (n : Nat) (i : Int) : Option Nat :=
  let j := if i < 0 then n + i else i
  if 0 ≤ j ∧ j < n then some j.toNat else none

theorem place?_lt {n k : Nat} {i : Int} (h : place? n i = some k) : k < n := by
  simp only [place?, Option.ite_none_right_eq_some, Option.some.injEq] at h
  omega

@[simp] theorem place?_natCast (n k : Nat) : place? n k = if k < n then some k else none := by
  simp only [place?]
  split <;> split <;> simp_all <;> omega

def transpose {α : Type} (width : Nat) (rows : List (List α)) : List (List α) :=
  rows.foldr (List.zipWith (· :: ·)) (List.replicate width [])

theorem length_transpose {α : Type} {width : Nat} {rows : List (List α)}
    (h : ∀ row ∈ rows, row.length = width) : (transpose width rows).length = width := by
  induction rows with
  | nil => simp [transpose]
  | cons row rows ih =>
    have ht : (transpose width rows).length = width := ih fun r hr => h r (by simp [hr])
    have hc : transpose width (row :: rows) =
      List.zipWith (· :: ·) row (transpose width rows) := rfl
    rw [hc, List.length_zipWith, ht, h row (by simp), Nat.min_self]

theorem length_of_mem_transpose {α : Type} {width : Nat} {rows : List (List α)}
    (h : ∀ row ∈ rows, row.length = width) :
    ∀ column ∈ transpose width rows, column.length = rows.length := by
  induction rows with
  | nil =>
    intro column hc
    have : column = [] := List.eq_of_mem_replicate hc
    simp [this]
  | cons row rows ih =>
    intro column hc
    have ih := ih fun r hr => h r (by simp [hr])
    change column ∈ List.zipWith (· :: ·) row (transpose width rows) at hc
    obtain ⟨i, hi, rfl⟩ := List.mem_iff_getElem.1 hc
    have ht : i < (transpose width rows).length := by
      rw [List.length_zipWith] at hi
      omega
    rw [List.getElem_zipWith, List.length_cons, ih _ (List.getElem_mem ht), List.length_cons]

theorem getElem?_transpose {α : Type} {width i : Nat} {rows : List (List α)}
    (h : ∀ row ∈ rows, row.length = width) (hi : i < width) (d : α) :
    (transpose width rows)[i]? = some (rows.map (·.getD i d)) := by
  induction rows with
  | nil => simp [transpose, hi]
  | cons row rows ih =>
    have ih := ih fun r hr => h r (by simp [hr])
    have hrow : i < row.length := by rw [h row (by simp)]; exact hi
    change (List.zipWith (· :: ·) row (transpose width rows))[i]? = _
    simp [List.getElem?_zipWith, ih, List.getElem?_eq_getElem hrow]

structure Points (α : Type) where
  dim : Nat
  rows : List (List α)
  length_row : ∀ row ∈ rows, row.length = dim
deriving DecidableEq

namespace Points

variable {α : Type}

def size (p : Points α) : Nat := p.rows.length

def empty (dim : Nat) : Points α := ⟨dim, [], by simp⟩

@[simp] theorem size_empty (dim : Nat) : (empty dim : Points α).size = 0 := rfl

theorem length_of_getElem? {p : Points α} {i : Nat} {row : List α} (h : p.rows[i]? = some row) :
    row.length = p.dim :=
  p.length_row row (List.mem_of_getElem? h)

def select (p : Points α) (places : List Nat) : Points α :=
  ⟨p.dim, places.filterMap (p.rows[·]?), by
    intro row h
    obtain ⟨i, -, hi⟩ := List.mem_filterMap.1 h
    exact length_of_getElem? hi⟩

theorem size_select {p : Points α} {places : List Nat} (h : ∀ k ∈ places, k < p.size) :
    (p.select places).size = places.length := by
  change (places.filterMap (p.rows[·]?)).length = places.length
  induction places with
  | nil => rfl
  | cons k places ih =>
    have hk : k < p.rows.length := h k (by simp)
    simp [List.getElem?_eq_getElem hk, ih fun j hj => h j (by simp [hj])]

def pick (p : Points α) (numbers : List Int) : Except Fault (Points α) :=
  match numbers.mapM (place? p.size) with
  | some places => .ok (p.select places)
  | none => .error .indexOutOfRange

/-- The rows that a mask of the same length lets through. -/
def filter (p : Points α) (mask : List Bool) : Points α :=
  ⟨p.dim, ((p.rows.zip mask).filter (·.2)).map (·.1), by
    intro row h
    obtain ⟨⟨r, b⟩, hr, rfl⟩ := List.mem_map.1 h
    exact p.length_row r (List.of_mem_zip (List.mem_filter.1 hr).1).1⟩

def columns (p : Points α) : List (List α) := transpose p.dim p.rows

theorem length_columns (p : Points α) : p.columns.length = p.dim := length_transpose p.length_row

def toGrid (p : Points α) : Grid α :=
  ⟨[p.size, p.dim], ⟨p.rows.flatten.toArray, by
    have h : p.rows.map List.length = List.replicate p.size p.dim :=
      List.eq_replicate_iff.2 ⟨by simp [size], by
        intro n hn
        obtain ⟨row, hr, rfl⟩ := List.mem_map.1 hn
        exact p.length_row row hr⟩
    simp [List.length_flatten, h]⟩⟩

def chunks {α : Type} (width : Nat) : Nat → List α → List (List α)
  | 0, _ => []
  | count + 1, xs => xs.take width :: chunks width count (xs.drop width)

theorem length_of_mem_chunks {width count : Nat} {xs : List α} (h : xs.length = count * width) :
    ∀ row ∈ chunks width count xs, row.length = width := by
  induction count generalizing xs with
  | zero => simp [chunks]
  | succ count ih =>
    rw [Nat.succ_mul] at h
    intro row hr
    rcases List.mem_cons.1 hr with rfl | hr
    · simp; omega
    · exact ih (by simp; omega) row hr

def ofGrid? (g : Grid α) : Option (Points α) :=
  match g with
  | ⟨[count, width], entries⟩ =>
    some ⟨width, chunks width count entries.toList, length_of_mem_chunks (by simp [Vector.toList])⟩
  | _ => none

/-- Numbers in a list as points with one coordinate. -/
def ofList (xs : List α) : Points α := ⟨1, xs.map ([·]), by simp⟩

/-- The point in the middle of at least one point. -/
def mean [Scalar α] (p : Points α) : Except Fault (List α) :=
  if p.size = 0 then .error .emptyMean else .ok (p.columns.map Scalar.average)

end Points

def Grid.mean {α : Type} [Scalar α] (g : Grid α) : Except Fault (Grid α) :=
  if g.shape.head? = some 0 then .error .emptyMean
  else match g.fold? 0 Scalar.average with
    | some m => .ok m
    | none => .error .missingAxis

end Centroids

import Centroids.Value
import Centroids.Effect

/-!
Arrays with any number of axes.  The entries are listed with the last axis running fastest; two
grids are combined entry by entry once the axes of length one are stretched.
-/
namespace Centroids

def volume (shape : List Nat) : Nat := shape.foldr (· * ·) 1

@[simp] theorem volume_nil : volume [] = 1 := rfl

@[simp] theorem volume_cons (n : Nat) (shape : List Nat) : volume (n :: shape) = n * volume shape :=
  rfl

/-- Every position of a shape, the last axis running fastest. -/
def positions : List Nat → List (List Nat)
  | [] => [[]]
  | n :: shape => (List.range n).flatMap fun i => (positions shape).map (i :: ·)

theorem length_positions (shape : List Nat) : (positions shape).length = volume shape := by
  induction shape with
  | nil => rfl
  | cons n shape ih => simp [positions, List.length_flatMap, ih, List.map_const']

/-- The place of a position among all positions of its shape. -/
def offset : List Nat → List Nat → Nat
  | _ :: shape, i :: position => i * volume shape + offset shape position
  | _, _ => 0

theorem mem_positions {shape p : List Nat} :
    p ∈ positions shape ↔ p.length = shape.length ∧ ∀ x ∈ p.zip shape, x.1 < x.2 := by
  induction shape generalizing p with
  | nil => cases p <;> simp [positions]
  | cons n shape ih =>
    cases p with
    | nil => simp [positions]
    | cons i p =>
      simp only [positions, List.mem_flatMap, List.mem_range, List.mem_map, List.cons.injEq,
        List.length_cons, Nat.add_right_cancel_iff, List.zip_cons_cons, List.forall_mem_cons]
      constructor
      · rintro ⟨j, hj, q, hq, rfl, rfl⟩
        obtain ⟨hl, hz⟩ := ih.1 hq
        exact ⟨hl, hj, hz⟩
      · rintro ⟨hl, hi, hz⟩
        exact ⟨i, hi, p, ih.2 ⟨hl, hz⟩, rfl, rfl⟩

theorem offset_lt {shape p : List Nat} (h : p ∈ positions shape) : offset shape p < volume shape := by
  induction shape generalizing p with
  | nil => simp [offset]
  | cons n shape ih =>
    simp only [positions, List.mem_flatMap, List.mem_range, List.mem_map] at h
    obtain ⟨i, hi, q, hq, rfl⟩ := h
    have hlt : offset shape q < volume shape := ih hq
    calc i * volume shape + offset shape q < (i + 1) * volume shape := by
          rw [Nat.succ_mul]; omega
      _ ≤ n * volume shape := Nat.mul_le_mul_right _ hi

/-- Blocks of one length, laid end to end. -/
theorem getElem?_flatMap {α β : Type} {f : α → List β} {width k : Nat} (hk : k < width) :
    ∀ (xs : List α) (i : Nat), (∀ x ∈ xs, (f x).length = width) →
      (xs.flatMap f)[i * width + k]? = xs[i]?.bind fun x => (f x)[k]?
  | [], i, _ => by simp
  | x :: xs, 0, h => by
    have hx : k < (f x).length := by rw [h x (by simp)]; exact hk
    simp [List.flatMap_cons, List.getElem?_append_left, hx]
  | x :: xs, i + 1, h => by
    have hx : (f x).length = width := h x (by simp)
    have hi : (i + 1) * width + k = (f x).length + (i * width + k) := by
      rw [Nat.succ_mul, hx]; omega
    rw [List.flatMap_cons, hi, List.getElem?_append_right (by omega), Nat.add_sub_cancel_left,
      getElem?_flatMap hk xs i fun y hy => h y (by simp [hy])]
    rfl

theorem getElem?_positions {shape p : List Nat} (h : p ∈ positions shape) :
    (positions shape)[offset shape p]? = some p := by
  induction shape generalizing p with
  | nil => simp [positions] at h; simp [positions, offset, h]
  | cons n shape ih =>
    simp only [positions, List.mem_flatMap, List.mem_range, List.mem_map] at h
    obtain ⟨i, hi, q, hq, rfl⟩ := h
    rw [positions, offset, getElem?_flatMap (offset_lt hq) _ _ (by simp [length_positions])]
    simp [hi, ih hq]

structure Grid (α : Type) where
  shape : List Nat
  entries : Vector α (volume shape)
deriving DecidableEq

namespace Grid

variable {α β γ : Type}

def rank (g : Grid α) : Nat := g.shape.length

def toList (g : Grid α) : List α := g.entries.toList

def ofEntries? (shape : List Nat) (xs : List α) : Option (Grid α) :=
  if h : xs.length = volume shape then some ⟨shape, ⟨xs.toArray, by simpa using h⟩⟩ else none

def tabulate (shape : List Nat) (f : List Nat → α) : Grid α :=
  ⟨shape, ⟨((positions shape).map f).toArray, by simp [length_positions]⟩⟩

def scalar (x : α) : Grid α := ⟨[], #v[x]⟩

def ofList (xs : List α) : Grid α := ⟨[xs.length], ⟨xs.toArray, by simp⟩⟩

def map (f : α → β) (g : Grid α) : Grid β := ⟨g.shape, g.entries.map f⟩

/-- The same entries with an axis of length one in front. -/
def unsqueeze (g : Grid α) : Grid α := ⟨1 :: g.shape, g.entries.cast (by simp)⟩

@[simp] theorem toList_tabulate (shape : List Nat) (f : List Nat → α) :
    (tabulate shape f).toList = (positions shape).map f := by
  simp [tabulate, toList]

@[simp] theorem toList_ofList (xs : List α) : (ofList xs).toList = xs := by
  simp [ofList, toList, Vector.toList]

@[simp] theorem toList_map (f : α → β) (g : Grid α) : (g.map f).toList = g.toList.map f := by
  simp [map, toList, Vector.toList]

def single? (g : Grid α) : Option α :=
  match g.toList with
  | [x] => some x
  | _ => none

section Entry

variable [Zero α] [Zero β]

def entry (g : Grid α) (position : List Nat) : α := g.entries.toArray.getD (offset g.shape position) 0

theorem entry_tabulate {shape p : List Nat} {f : List Nat → α} (h : p ∈ positions shape) :
    (tabulate shape f).entry p = f p := by
  simp [entry, tabulate, Array.getD_eq_getD_getElem?, getElem?_positions h]

def slice? (g : Grid α) (i : Nat) : Option (Grid α) :=
  match g.shape with
  | n :: shape => if i < n then some (tabulate shape fun p => g.entry (i :: p)) else none
  | [] => none

/-- Replaces each line along an axis by one value. -/
def fold? (axis : Nat) (f : List α → β) (g : Grid α) : Option (Grid β) :=
  match g.shape[axis]? with
  | some n => some <| tabulate (g.shape.eraseIdx axis) fun p =>
      f ((List.range n).map fun i => g.entry (p.insertIdx axis i))
  | none => none

/-- The common length of two axes, one of which may be stretched from length one. -/
def joinLength? (m n : Nat) : Option Nat :=
  if m = n ∨ n = 1 then some m else if m = 1 then some n else none

theorem joinLength?_self (n : Nat) : joinLength? n n = some n := if_pos (.inl rfl)

/-- The common shape of two shapes, whose axes are matched from the last one on. -/
def joinReversed? : List Nat → List Nat → Option (List Nat)
  | [], t => some t
  | s, [] => some s
  | m :: s, n :: t =>
    match joinLength? m n, joinReversed? s t with
    | some k, some u => some (k :: u)
    | _, _ => none

def joinShape? (s t : List Nat) : Option (List Nat) :=
  (joinReversed? s.reverse t.reverse).map List.reverse

/-- The position in a shape from which a position of the stretched shape takes its entry. -/
def pinch (shape position : List Nat) : List Nat :=
  List.zipWith (fun n i => if n = 1 then 0 else i) shape
    (position.drop (position.length - shape.length))

/-- Stretches a grid to a shape, whatever the axes it has to add or to repeat. -/
def stretch (shape : List Nat) (g : Grid α) : Grid α :=
  tabulate shape fun p => g.entry (pinch g.shape p)

def zipWith? (f : α → β → γ) (a : Grid α) (b : Grid β) : Option (Grid γ) :=
  (joinShape? a.shape b.shape).map fun shape =>
    tabulate shape fun p => f (a.entry (pinch a.shape p)) (b.entry (pinch b.shape p))

end Entry

/-- The lengths met on the way down the first elements of a nested list.  A text is a list of
texts, of one character each. -/
def shapeOf : Nat → Value → Except Fault (List Nat)
  | depth, v =>
    match v.items? with
    | none => .ok []
    | some [] => .ok [0]
    | some (first :: rest) =>
      match depth with
      | 0 => .error .ragged
      | depth + 1 => (shapeOf depth first).map ((rest.length + 1) :: ·)

def numbers (number : Value → Except Fault α) : List Nat → Value → Except Fault (List α)
  | [], v => (number v).map ([·])
  | n :: shape, v =>
    match v.items? with
    | none => .error .entryType
    | some items =>
      if items.length = n then (items.mapM (numbers number shape)).map List.flatten
      else .error .ragged

def maxRank : Nat := 128

def ofValue (number : Value → Except Fault α) (v : Value) : Except Fault (Grid α) := do
  let shape ← shapeOf maxRank v
  match ofEntries? shape (← numbers number shape v) with
  | some g => pure g
  | none => throw .ragged

end Grid

end Centroids

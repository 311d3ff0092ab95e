import Centroids.Grid
import Centroids.Number.Numeral

/-!
When a run is stable.  A criterion remembers the assignments it saw last, keeps a record of every
comparison, and counts the stable ones in a row.
-/
namespace Centroids

structure Entry where
  iteration : Value
  changed : Nat
  /-- The share of the points that changed, rounded to a double. -/
  fraction : Float
  reseeded : Bool

structure Observation where
  assignments : Option (Grid Int)
  iteration : Option Value
  reseeded : Bool

structure Criterion where
  /-- The greatest share of changed points that counts as stable. -/
  tolerance : Numeral
  /-- How many stable comparisons in a row are needed. -/
  patience : Numeral
  history : List Entry
  previous : Option (Grid Int)
  stable : Nat

namespace Criterion

def make (tolerance patience : Value) : Except Fault Criterion := do
  let some tol := tolerance.numeral? | throw .incomparable
  if tol.lt (.int 0) then throw (.negativeTolerance tolerance.plain)
  let some count := patience.numeral? | throw .incomparable
  if count.lt (.int 1) then throw (.patienceNotPositive patience.plain)
  return ⟨tol, count, [], none, 0⟩

/-- A new criterion has seen nothing. -/
theorem exists_of_make {tolerance patience : Value} {c : Criterion}
    (h : make tolerance patience = .ok c) : ∃ tol count, tolerance.numeral? = some tol ∧
      patience.numeral? = some count ∧ c = ⟨tol, count, [], none, 0⟩ := by
  unfold make at h
  cases htolerance : tolerance.numeral? with
  | none =>
    rw [htolerance] at h
    exact nomatch h
  | some tol =>
    cases hcount : patience.numeral? with
    | none =>
      simp only [htolerance, hcount] at h
      split at h <;> exact nomatch h
    | some count =>
      simp only [htolerance, hcount] at h
      split at h
      · exact nomatch h
      · split at h
        · exact nomatch h
        · cases h
          exact ⟨tol, count, rfl, rfl, rfl⟩

theorem numerals_of_make {tolerance patience : Value} {c : Criterion}
    (h : make tolerance patience = .ok c) :
    tolerance.numeral? = some c.tolerance ∧ patience.numeral? = some c.patience := by
  obtain ⟨tol, count, htolerance, hcount, rfl⟩ := exists_of_make h
  exact ⟨htolerance, hcount⟩

theorem numeral_of_make {tolerance patience : Value} {c : Criterion}
    (h : make tolerance patience = .ok c) : tolerance.numeral? = some c.tolerance :=
  (numerals_of_make h).1

def reset (c : Criterion) : Criterion := { c with history := [], previous := none, stable := 0 }

/-- The number of points that changed, of all points there are now. -/
def compare (now before : Grid Int) : Except Fault (Nat × Nat) :=
  match @Grid.zipWith? _ _ _ ⟨0⟩ ⟨0⟩ (· != ·) now before with
  | none => .error .shapeMismatch
  | some changes =>
    match now.shape with
    | [] => .error .arguments
    | count :: _ => .ok (changes.toList.countP id, count)

def share (changed count : Nat) : Float := if count = 0 then 0 else Double.ofRatio changed count

/-- Whether a comparison counts as stable; one after a reseed never does. -/
def isStable (c : Criterion) (e : Entry) : Bool :=
  Numeral.le (.double e.fraction) c.tolerance && !e.reseeded

def record (c : Criterion) (now : Grid Int) (e : Entry) : Criterion :=
  { c with
    history := c.history ++ [e]
    previous := some now
    stable := if c.isStable e then c.stable + 1 else 0 }

/-- Whether the last comparison was stable and enough of them were in a row. -/
def isMet (c : Criterion) : Bool :=
  c.stable != 0 && Numeral.le c.patience (.int c.stable)

@[simp] theorem history_record (c : Criterion) (now : Grid Int) (e : Entry) :
    (c.record now e).history = c.history ++ [e] := rfl

theorem isMet_record {c : Criterion} {now : Grid Int} {e : Entry} (h : (c.record now e).isMet) :
    c.isStable e := by
  cases hs : c.isStable e with
  | true => rfl
  | false => simp [isMet, record, hs] at h

/-- Shows a state to the criterion and tells whether the run is stable.  The first state is only
remembered. -/
def check (c : Criterion) (o : Observation) : Except Fault (Bool × Criterion) := do
  let some now := o.assignments | throw .missingField
  match c.previous with
  | none => return (false, { c with previous := some now })
  | some before =>
    let (changed, count) ← compare now before
    let next := c.record now
      ⟨o.iteration.getD (.int c.history.length), changed, share changed count, o.reseeded⟩
    return (next.isMet, next)

theorem check_first {c : Criterion} (h : c.previous = none) (now : Grid Int)
    (iteration : Option Value) (reseeded : Bool) :
    c.check ⟨some now, iteration, reseeded⟩ = .ok (false, { c with previous := some now }) := by
  simp [check, h, pure, Except.pure]

theorem check_next {c : Criterion} {before now : Grid Int} {changed count : Nat}
    (h : c.previous = some before) (hc : compare now before = .ok (changed, count))
    (iteration : Option Value) (reseeded : Bool) :
    c.check ⟨some now, iteration, reseeded⟩ =
      let next := c.record now
        ⟨iteration.getD (.int c.history.length), changed, share changed count, reseeded⟩
      .ok (next.isMet, next) := by
  simp [check, h, hc, pure, Except.pure, bind, Except.bind]

/-- The state that was shown is remembered, and what is asked for stays. -/
theorem check_eq_ok {c next : Criterion} {now : Grid Int} {iteration : Option Value}
    {reseeded met : Bool} (h : c.check ⟨some now, iteration, reseeded⟩ = .ok (met, next)) :
    next.previous = some now ∧ next.tolerance = c.tolerance ∧ next.patience = c.patience := by
  cases hprevious : c.previous with
  | none =>
    rw [check_first hprevious] at h
    cases h
    exact ⟨rfl, rfl, rfl⟩
  | some before =>
    cases hcompare : compare now before with
    | error e => simp [check, hprevious, hcompare, bind, Except.bind] at h
    | ok counts =>
      rw [check_next hprevious hcompare] at h
      cases h
      exact ⟨rfl, rfl, rfl⟩

end Criterion

end Centroids

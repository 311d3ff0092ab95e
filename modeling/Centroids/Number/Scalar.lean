/-!
The arithmetic in which distances, means and scores are computed.  Everything above this module is
written once over `Scalar`: single and double precision are the instances that run, and exact
numbers are an instance in which nothing is infinite or a NaN.
-/
namespace Centroids

/-- Numbers with the operations that clustering needs and the comparisons of floating point, in which
a NaN is neither less than, equal to nor greater than anything. -/
class Scalar (α : Type) extends Zero α, Add α, Sub α, Mul α, Div α, BEq α where
  lt : α → α → Bool
  sqrt : α → α
  abs : α → α
  ofNat : Nat → α
  /-- The least denominator of a quotient of coordinates. -/
  tiny : α
  isFinite : α → Bool
  /-- Greater than minus infinity, which a NaN is not. -/
  isBounded : α → Bool

/-- How a number of the points' type is carried into the type of weights and scores. -/
class Widening (α : Type) (ω : outParam Type) where
  widen : α → ω

/-- Numbers that can be drawn at random, from a whole number below `2 ^ 53`. -/
class Sampled (ω : Type) extends Scalar ω where
  /-- The point of the unit interval at `k / 2 ^ 53`. -/
  uniform : Nat → ω
  /-- The exponential variate `-log (1 - k / 2 ^ 53)`. -/
  exponential : Nat → ω

namespace Scalar

variable {α : Type} [Scalar α]

/-- A NaN is the only number that differs from itself. -/
def isNaN (x : α) : Bool := !(x == x)

def le (x y : α) : Bool := lt x y || x == y

/-- Whether `x` replaces `best` as the smallest entry so far: a NaN replaces every number, and
nothing replaces a NaN. -/
def below (x best : α) : Bool := !isNaN best && (isNaN x || lt x best)

def above (x best : α) : Bool := !isNaN best && (isNaN x || lt best x)

/-- The lesser of two numbers, or a NaN if there is one. -/
def least (x y : α) : α := if below y x then y else x

/-- Raises a number to a floor; a NaN stays. -/
def atLeast (floor x : α) : α := if lt x floor then floor else x

/-- The sum in list order, starting from zero.  Libraries of array arithmetic may add five and more
numbers in another order, and differ from this in the last digits. -/
def total (xs : List α) : α := xs.foldl (· + ·) 0

def average (xs : List α) : α := total xs / ofNat xs.length

@[simp] theorem total_nil : total ([] : List α) = 0 := rfl

theorem total_concat (xs : List α) (x : α) : total (xs ++ [x]) = total xs + x := by
  simp [total]

end Scalar

/-- The leader of a race: it starts as `best`, and each entry of the list, numbered from `i`, takes
over when it beats the leader it meets. -/
def leader {α : Type} (beats : α → α → Bool) (best : Nat × α) (i : Nat) : List α → Nat × α
  | [] => best
  | x :: xs => leader beats (if beats x best.2 then (i, x) else best) (i + 1) xs

namespace Scalar

variable {α : Type} [Scalar α]

/-- The position of the first smallest entry, or of the first NaN; 0 for an empty list. -/
def argmin : List α → Nat
  | [] => 0
  | x :: xs => (leader below (0, x) 1 xs).1

/-- The position of the first greatest entry, or of the first NaN; 0 for an empty list. -/
def argmax : List α → Nat
  | [] => 0
  | x :: xs => (leader above (0, x) 1 xs).1

/-- The greatest entry, or a NaN if there is one; 0 for an empty list. -/
def greatest : List α → α
  | [] => 0
  | x :: xs => (leader above (0, x) 1 xs).2

end Scalar

theorem leader_eq_or {α : Type} (beats : α → α → Bool) (best : Nat × α) (i : Nat) (xs : List α) :
    leader beats best i xs = best ∨
      ∃ k, ∃ h : k < xs.length, leader beats best i xs = (i + k, xs[k]) := by
  induction xs generalizing best i with
  | nil => exact .inl rfl
  | cons x xs ih =>
    rw [leader]
    rcases ih (if beats x best.2 then (i, x) else best) (i + 1) with hl | ⟨k, hk, hl⟩
    · rw [hl]
      split
      · exact .inr ⟨0, by simp, rfl⟩
      · exact .inl rfl
    · exact .inr ⟨k + 1, by simpa using hk, by rw [hl]; simp; omega⟩

theorem leader_fst_lt {α : Type} (beats : α → α → Bool) (x : α) (xs : List α) :
    (leader beats (0, x) 1 xs).1 < (x :: xs).length := by
  rcases leader_eq_or beats (0, x) 1 xs with h | ⟨k, hk, h⟩ <;> rw [h]
  · simp
  · simp; omega

theorem get_leader_fst {α : Type} (beats : α → α → Bool) (x : α) (xs : List α) :
    (x :: xs).get ⟨(leader beats (0, x) 1 xs).1, leader_fst_lt beats x xs⟩ =
      (leader beats (0, x) 1 xs).2 := by
  rcases leader_eq_or beats (0, x) 1 xs with h | ⟨k, hk, h⟩
  · simp [h]
  · simp only [h, List.get_eq_getElem]
    simp [Nat.add_comm 1 k]

namespace Scalar

variable {α : Type} [Scalar α]

theorem argmin_lt {xs : List α} (h : xs ≠ []) : argmin xs < xs.length := by
  cases xs with
  | nil => contradiction
  | cons x xs => exact leader_fst_lt below x xs

theorem argmax_lt {xs : List α} (h : xs ≠ []) : argmax xs < xs.length := by
  cases xs with
  | nil => contradiction
  | cons x xs => exact leader_fst_lt above x xs

end Scalar

end Centroids

import Centroids.Seeding
import Centroids.Number.Numeral

/-!
What option values mean.  Counts have to be whole numbers; limits and levels are judged only where a
run depends on them, so that a value without an order is an error of its own there.
-/
namespace Centroids

def clusterCount (samples : Int) : Value → Except Fault Int
  | .int n =>
    if n ≤ 0 then .error (.clusterCountNotPositive n)
    else if samples < n then .error (.clusterCountTooLarge n samples)
    else .ok n
  | v => .error (.clusterCountType v.typeText)

theorem clusterCount_eq_ok {samples n : Int} {v : Value} :
    clusterCount samples v = .ok n ↔ v = .int n ∧ 0 < n ∧ n ≤ samples := by
  cases v <;> simp only [clusterCount] <;> try simp
  split
  · simp; omega
  · split <;> simp <;> omega

def trialCount : Value → Except Fault Int
  | .int n => if n < 1 then .error (.trialCountNotPositive n) else .ok n
  | v => .error (.trialCountType v.typeText)

theorem trialCount_eq_ok {n : Int} {v : Value} :
    trialCount v = .ok n ↔ v = .int n ∧ 1 ≤ n := by
  cases v <;> simp only [trialCount] <;> try simp
  split <;> simp <;> omega

namespace Seeding

def ofValue : Value → Except Fault Seeding
  | .text "k-means++" => .ok (spread 1)
  | .text "random" => .ok random
  | v => .error (.unknownInit v.plain)

def spreadOf (candidates : Int) : Except Fault Seeding :=
  if candidates < 1 then .error (.candidatesNotPositive candidates)
  else .ok (spread candidates.toNat)

end Seeding

inductive Limit
  | unlimited
  | atMost (n : Nat)
  /-- A value that cannot be compared with a count. -/
  | unordered
deriving DecidableEq

namespace Limit

/-- The least whole number that is not below a number; infinity and NaNs have none. -/
def ceiling? (x : Numeral) : Option Int :=
  match x.extent? with
  | some (.dyadic m e) => some (-((-m * Int.pow 2 e.toNat).fdiv (Int.pow 2 (-e).toNat)))
  | _ => none

/-- Below zero there is no limit, and a NaN allows no iteration. -/
def ofValue (v : Value) : Limit :=
  match v.numeral? with
  | none => unordered
  | some x =>
    if x.lt (.int 0) then unlimited
    else match ceiling? x with
      | some n => atMost n.toNat
      | none => if Numeral.lt (.int 0) x then unlimited else atMost 0

/-- How many rounds a run is followed for: those it may have and its end, and as many as are asked for
when it has no limit. -/
def horizon (rounds : Nat) : Limit → Nat
  | atMost n => n + 1
  | _ => rounds

end Limit

/-- What a run reports: anything at all, and every iteration. -/
structure Verbosity where
  reports : Bool
  /-- A level that is no number cannot be compared with that of the details. -/
  details : Option Bool
deriving DecidableEq

def Verbosity.ofValue (v : Value) : Verbosity :=
  ⟨v.isTruthy, v.numeral?.map fun x => Numeral.le (.int 2) x⟩

theorem Verbosity.isSome_details {v : Value} (h : v.numeral?.isSome) :
    (ofValue v).details.isSome := by
  unfold ofValue
  rwa [Option.isSome_map]

end Centroids

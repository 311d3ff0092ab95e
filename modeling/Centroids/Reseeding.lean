import Centroids.Objective
import Centroids.Generator

/-!
New centers for clusters that lost all their points.  A point is taken from a cluster of the
previous assignment; while centers are updated, no point is taken twice.  One of four strategies
chooses it, or a handler from outside.
-/
namespace Centroids

inductive Strategy
  /-- A random member of the cluster whose members' distances vary the most. -/
  | largestVariance
  /-- A random member of the cluster with the most members. -/
  | largestCount
  /-- The member farthest from its own center. -/
  | farthestPoint
  /-- No point is taken. -/
  | refuse
deriving DecidableEq

namespace Strategy

def name : Strategy → String
  | largestVariance => "largest_variance"
  | largestCount => "largest_points_number"
  | farthestPoint => "farthest_point"
  | refuse => "error"

def all : List Strategy := [largestVariance, largestCount, farthestPoint, refuse]

def ofName? (name : String) : Option Strategy := all.find? (·.name = name)

end Strategy

structure Pool where
  generator : Generator
  available : List Bool
deriving DecidableEq

/-- A choice that may take rows.  What was drawn and taken is kept when it fails. -/
abbrev Taking := EStateM Fault Pool

namespace Taking

def draw {β : Type} (choice : Random β) : Taking β := fun pool =>
  match choice pool.generator with
  | .ok x g => .ok x { pool with generator := g }
  | .error e g => .error e { pool with generator := g }

end Taking

structure Donor (α : Type) where
  center : List α
  points : Points α
  indices : List Int

namespace Donor

variable {α ω : Type} [Scalar α] [Sampled ω] [Widening α ω]

def mask (available : List Bool) (indices : List Int) : Except Fault (List Bool) :=
  match indices.mapM fun i => (place? available.length i).bind (available[·]?) with
  | some mask => .ok mask
  | none => .error .indexOutOfRange

/-- What a cluster can give.  Without row numbers nothing can be taken: the mask of all rows fits
only a single point with as many coordinates as there are rows. -/
def ofCluster (available : List Bool) (c : Cluster α) : Except Fault (Donor α) :=
  match c.indices with
  | some indices => do
    let mask ← mask available indices
    return ⟨c.center, c.points.filter mask, ((indices.zip mask).filter (·.2)).map (·.1)⟩
  | none =>
    .error (if c.size = 1 ∧ c.points.dim = available.length then .unindexed else .indexOutOfRange)

/-- The better one of the entry found so far and the next. -/
def prefer {κ β : Type} (admitted : κ → Bool) (less : κ → κ → Bool) :
    Option (κ × β) → κ × β → Option (κ × β)
  | none, e => if admitted e.1 then some e else none
  | some b, e => if less b.1 e.1 then some e else some b

/-- The first entry with the greatest key; keys that are not admitted do not count. -/
def foremost {κ β : Type} (admitted : κ → Bool) (less : κ → κ → Bool) (entries : List (κ × β)) :
    Option (κ × β) :=
  entries.foldl (prefer admitted less) none

theorem foremost_eq_none {κ β : Type} {admitted : κ → Bool} {less : κ → κ → Bool}
    {entries : List (κ × β)} :
    foremost admitted less entries = none ↔ ∀ e ∈ entries, admitted e.1 = false := by
  have some_stays : ∀ (entries : List (κ × β)) (b : κ × β),
      entries.foldl (prefer admitted less) (some b) ≠ none := by
    intro entries
    induction entries with
    | nil => simp
    | cons e rest ih =>
      intro b
      simp only [List.foldl_cons, prefer]
      split <;> exact ih _
  unfold foremost
  induction entries with
  | nil => simp
  | cons e rest ih =>
    simp only [List.foldl_cons, List.forall_mem_cons, prefer]
    cases h : admitted e.1 with
    | true => simp [some_stays rest e]
    | false => simpa using ih

/-- Takes the member at a place: it is no longer available, and it is the new center. -/
def take (donor : Donor α) (k : Nat) : Taking (List α) := fun pool =>
  match donor.points.rows[k]?, donor.indices[k]?.bind (place? pool.available.length) with
  | some row, some place => .ok row { pool with available := pool.available.set place false }
  | _, _ => .error .indexOutOfRange pool

def takeAny (donor : Donor α) : Taking (List α) := do
  donor.take (← Taking.draw (Random.below donor.points.size))

end Donor

namespace Strategy

variable {α ω : Type} [Scalar α] [Sampled ω] [Widening α ω]

/-- A cluster with members left, and what counts for its choice. -/
def offer {κ : Type} (key : Donor α → Except Fault κ) (available : List Bool) (c : Cluster α) :
    Except Fault (Option (κ × Donor α)) := do
  let donor ← Donor.ofCluster available c
  if donor.points.size = 0 then return none else return some (← key donor, donor)

def offers {κ : Type} (key : Donor α → Except Fault κ) (clusters : Partition α)
    (available : List Bool) : Except Fault (List (κ × Donor α)) :=
  (clusters.mapM (offer key available)).map (·.filterMap id)

def varianceKey (distance : Distance α ω) (donor : Donor α) : Except Fault ω :=
  distanceVariance distance donor.points donor.center

def farthestKey (distance : Distance α ω) (donor : Donor α) : Except Fault (ω × Nat) :=
  (distance.ofMembers donor.points donor.center).map fun ds =>
    (Scalar.greatest ds.2, Scalar.argmax ds.2)

def reseed (strategy : Strategy) (distance : Distance α ω) (clusters : Partition α) :
    Taking (List α) := do
  let available := (← get).available
  match strategy with
  | largestVariance =>
    let offers ← offers (varianceKey distance) clusters available
    match Donor.foremost Scalar.isBounded Scalar.lt offers with
    | some (_, donor) => donor.takeAny
    | none => throw .emptyCluster
  | largestCount =>
    let offers ← offers (fun donor => return donor.points.size) clusters available
    match Donor.foremost (0 < ·) (· < ·) offers with
    | some (_, donor) => donor.takeAny
    | none => throw .emptyCluster
  | farthestPoint =>
    let offers ← offers (farthestKey distance) clusters available
    match Donor.foremost (Scalar.isBounded ·.1) (Scalar.lt ·.1 ·.1) offers with
    | some ((_, k), donor) => donor.take k
    | none => throw .emptyCluster
  | refuse => throw .emptyCluster

end Strategy

inductive Handler (α : Type)
  | strategy (s : Strategy)
  /-- A handler from outside, which may give any center, draw, and take rows. -/
  | custom (name : String) (reseed : Metric α → Partition α → Taking (List α))

namespace Handler

variable {α ω : Type} [Scalar α] [Sampled ω] [Widening α ω]

instance : Coe Strategy (Handler α) := ⟨strategy⟩

def name : Handler α → String
  | strategy s => s.name
  | custom name _ => name

/-- A handler from outside is given a metric, as all runs have one. -/
def reseed (handler : Handler α) (distance : Distance α ω) (clusters : Partition α) :
    Taking (List α) := do
  match handler with
  | strategy s => s.reseed distance clusters
  | custom _ reseed => reseed (← distance.resolve) clusters

end Handler

/-- A strategy as it is asked for: by any value, by name, or as a handler that is ready to use. -/
inductive StrategyChoice
  | value (v : Value)
  | named (s : Strategy)
  | ready (h : Handler Float32)

namespace StrategyChoice

def resolve : StrategyChoice → Except Fault (Handler Float32)
  | named s => .ok s
  | ready h => .ok h
  | value (.text name) =>
    match Strategy.ofName? name with
    | some s => .ok s
    | none => .error (.unknownStrategy name)
  | value v => .error (.unknownStrategy v.plain)

end StrategyChoice

end Centroids

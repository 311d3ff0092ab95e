import Centroids.Clusterer

/-!
Several trials of a procedure on the same data, of which the best is kept: the one with the lowest
score, and the latest of those.
-/
namespace Centroids

abbrev Procedure (σ : Type) := Dataset → EStateM Fault (Session σ) (Partition Float32)

/-- The scored outcome of a trial.  Before any trial there is no partition, and the score is
infinite. -/
structure Scored where
  trial : Int
  partition : Option (Partition Float32)
  score : Float

namespace Scored

def none : Scored := ⟨0, Option.none, Double.infinity⟩

def isEmpty (s : Scored) : Bool := s.partition.isNone

def sizes (s : Scored) : List Nat := (s.partition.getD []).sizes

/-- The candidate replaces the best on a lower or equal score. -/
def keepBetter (best candidate : Scored) : Scored :=
  if Scalar.le candidate.score best.score then candidate else best

theorem keepBetter_eq_or (best candidate : Scored) :
    best.keepBetter candidate = candidate ∨ best.keepBetter candidate = best := by
  unfold keepBetter
  split
  · exact .inl rfl
  · exact .inr rfl

end Scored

structure Selection where
  trials : Int
  metric : Distance Float32 Float
  /-- The version of the procedure's own metric, if that is the one that scores. -/
  inherited : Option Nat
  verbose : Value

inductive Ending
  | paused
  | exhausted
  | failed (fault : Fault)

namespace Selection

def make (trials : Value) (distance : Distance Float32 Float)
    (own : Option (Distance Float32 Float × Nat)) (verbose : Value) : Except Fault Selection := do
  let count ← trialCount trials
  match distance with
  | .value .null =>
    match own with
    | some (metric, version) => return ⟨count, metric, some version, verbose⟩
    | none => throw .noDistance
  | distance => return ⟨count, ← distance.named, none, verbose⟩

def ofClusterer (trials : Value) (distance : Distance Float32 Float) (verbose : Value)
    (c : Clusterer) : Except Fault Selection :=
  make trials distance (some (.metric c.parameters.distance, c.metricVersion)) verbose

def sharesMetric (s : Selection) (version : Nat) : Bool := s.inherited == some version

/-- The same selection with other reports. -/
def voiced (s : Selection) (v : Value) : Selection := { s with verbose := v }

/-- What a selection is made of, and the options of its procedure. -/
inductive Setting (ι : Type)
  | procedure
  | trials (n : Int)
  | distance (d : Distance Float32 Float)
  | verbose (v : Value)
  | inner (option : ι)

/-- All options as they are.  Those of the procedure are among them if it shows any and they are
asked for. -/
def settings {ι : Type} (s : Selection) (deep : Bool) (inner : Option (List ι)) :
    List (Setting ι) :=
  [.procedure, .trials s.trials, .distance s.metric, .verbose s.verbose] ++
    if deep then (inner.getD []).map .inner else []

inductive Attribute
  | verbose
  /-- What a selection is made of can be read only. -/
  | fixed
  /-- A name that nothing depends on. -/
  | other

def Attribute.ofName : String → Attribute
  | "verbose" => verbose
  | "clusterer" | "n_trials" | "distance_metric" | "objective" => fixed
  | _ => other

def assign (s : Selection) (v : Value) : Attribute → Except Fault Selection
  | .verbose => .ok (s.voiced v)
  | .fixed => .error .readOnly
  | .other => .ok s

def text (s : Selection) (procedure : String) : String :=
  s!"MultiTrialClusterer(clusterer={procedure}, n_trials={s.trials})"

variable {σ : Type}

def trial (s : Selection) (procedure : Procedure σ) (data : Dataset) (number : Nat) :
    EStateM Fault (Session σ) Scored := do
  let partition ← procedure data
  let score ← liftM (Partition.score s.metric partition)
  match (Verbosity.ofValue s.verbose).details with
  | none => throw .incomparable
  | some false => pure ()
  | some true => Session.say (.trial number s.trials score partition.sizes)
  return ⟨number, some partition, score⟩

def bestFrom (s : Selection) (procedure : Procedure σ) (data : Dataset) :
    Nat → Nat → Scored → EStateM Fault (Session σ) Scored
  | 0, _, best => return best
  | count + 1, number, best => do
    let candidate ← s.trial procedure data number
    bestFrom s procedure data count (number + 1) (best.keepBetter candidate)

def best (s : Selection) (procedure : Procedure σ) (data : Dataset) :
    EStateM Fault (Session σ) Scored := do
  let best ← s.bestFrom procedure data s.trials.toNat 1 .none
  if s.verbose.isTruthy then Session.say (.best s.trials best.trial best.score)
  return best

def cluster (s : Selection) (procedure : Procedure σ) (data : Dataset) :
    EStateM Fault (Session σ) (Option (Partition Float32)) :=
  (·.partition) <$> s.best procedure data

def take (s : Selection) (procedure : Procedure σ) (data : Dataset) :
    Nat → Nat → Session σ → List Scored × Ending × Session σ
  | 0, _, session => ([], .paused, session)
  | count + 1, number, session =>
    if s.trials < number then ([], .exhausted, session)
    else match s.trial procedure data number session with
      | .error e session => ([], .failed e, session)
      | .ok scored session =>
        let (rest, ending, session) := take s procedure data count (number + 1) session
        (scored :: rest, ending, session)

end Selection

end Centroids

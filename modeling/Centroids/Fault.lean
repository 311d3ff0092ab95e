/-!
Everything that can go wrong, by its cause.  A cause that is reported to a user has a text.
-/
namespace Centroids

inductive Fault
  | missingData
  | notTabular (type : String)
  | dataRank (rank : Nat)
  | noSamples
  | noFeatures
  | nanEntry
  | infiniteEntry
  | clusterCountType (type : String)
  | clusterCountNotPositive (clusters : Int)
  | clusterCountTooLarge (clusters samples : Int)
  | trialCountType (type : String)
  | trialCountNotPositive (trials : Int)
  | randomStateType (type : String)
  | tooFewPoints (clusters : Int) (points : Nat)
  | candidatesNotPositive (candidates : Int)
  | unknownDistance (given : String)
  | unknownStrategy (given : String)
  | unknownInit (given : String)
  | weightRank (rank : Nat)
  | negativeWeight
  | centerRank (rank : Nat)
  | pointsRank (rank : Nat)
  | pointDimension (points center : Nat)
  | indexCount (indices points : Nat)
  | emptyMean
  /-- A cluster lost its last point and no point may or can be taken for it. -/
  | emptyCluster
  | negativeTolerance (given : String)
  | patienceNotPositive (given : String)
  /-- Partitions cannot be scored: no metric was given and the procedure shows none. -/
  | noDistance
  | unknownOption (key : String)
  /-- A trial count among the options of a single-trial clusterer. -/
  | trialsOption
  /-- A nested list whose parts differ in length, or a text among its entries. -/
  | ragged
  /-- An entry that is no number, or a number in place of a list. -/
  | entryType
  /-- Shapes of which no axis of length one can be stretched to fit. -/
  | shapeMismatch
  | indexOutOfRange
  /-- An array lacks the axis along which it is reduced. -/
  | missingAxis
  | emptyChoice
  | emptyStack
  /-- Several numbers, or none, where one is needed. -/
  | notSingle
  /-- Sampling weights that are negative, not finite or all zero. -/
  | samplingWeights
  | unknownDevice
  /-- A device that there is a name for, but to which points cannot be brought. -/
  | unavailableDevice
  | seedOutOfRange
  /-- Arguments that a call does not take, or lacks. -/
  | arguments
  /-- A comparison of values that have no order. -/
  | incomparable
  | notCallable
  /-- The members of a cluster carry no row numbers. -/
  | unindexed
  | missingField
  | readOnly
  | unknownMethod
  /-- The run did not stop within its horizon. -/
  | stalled
  | raised (kind message : String)
deriving DecidableEq

namespace Fault

def message? : Fault → Option String
  | missingData => some "Input data must not be None"
  | notTabular type => some s!"Cannot convert {type} to tensor"
  | dataRank rank => some s!"Expected 2D array, got {rank}D"
  | noSamples => some "Found 0 samples, but need at least 1"
  | noFeatures => some "Found 0 features, but need at least 1"
  | nanEntry => some "Input contains NaN values"
  | infiniteEntry => some "Input contains infinite values"
  | clusterCountType type => some s!"n_clusters must be int, got {type}"
  | clusterCountNotPositive clusters => some s!"n_clusters must be positive, got {clusters}"
  | clusterCountTooLarge clusters samples =>
    some s!"n_clusters ({clusters}) cannot be larger than n_samples ({samples})"
  | trialCountType type => some s!"n_trials must be int, got {type}"
  | trialCountNotPositive trials => some s!"n_trials must be positive, got {trials}"
  | randomStateType type => some s!"random_state must be int or Generator, got {type}"
  | tooFewPoints clusters points => some s!"Cannot create {clusters} clusters from {points} points"
  | candidatesNotPositive candidates =>
    some s!"n_local_trials must be positive, got {candidates}"
  | unknownDistance given => some s!"Unknown distance: {given}"
  | unknownStrategy given => some s!"Unknown empty cluster strategy: {given}"
  | unknownInit given => some s!"Unknown init method: {given}"
  | weightRank rank => some s!"Expected 1D weights, got {rank}D"
  | negativeWeight => some "Feature weights must be non-negative"
  | centerRank rank => some s!"Expected 1D center, got {rank}D"
  | pointsRank rank => some s!"Expected 2D points, got {rank}D"
  | pointDimension points center => some s!"Points have dimension {points}, center has {center}"
  | indexCount indices points => some s!"Got {indices} indices for {points} points"
  | emptyMean => some "Cannot compute the mean of an empty cluster"
  | emptyCluster => some "empty cluster encountered in k-means"
  | negativeTolerance given => some s!"tol must be non-negative, got {given}"
  | patienceNotPositive given => some s!"patience must be positive, got {given}"
  | noDistance => some "No distance given and the clusterer does not expose a distance_metric"
  | unknownOption key => some s!"Unknown option: {key}"
  | trialsOption => some "Use create_multi_kmeans to run several trials"
  | raised _ message => some message
  | _ => none

/-- What is wrong in general, by which faults can be told apart without a text. -/
inductive Kind
  /-- What is given is of the right type, but not what is asked for. -/
  | value
  /-- What is given is of a type that is not accepted. -/
  | type
  | index
  | key
  | attribute
  /-- A calculation cannot be carried out, or does not end. -/
  | runtime
  | emptyCluster
  /-- The kind that code from outside gives its error. -/
  | named (name : String)
deriving DecidableEq

def kind : Fault → Kind
  | missingData | dataRank _ | noSamples | noFeatures | nanEntry | infiniteEntry
  | clusterCountNotPositive _ | clusterCountTooLarge _ _ | trialCountNotPositive _ | tooFewPoints _ _
  | candidatesNotPositive _ | unknownDistance _ | unknownStrategy _ | unknownInit _ | weightRank _
  | negativeWeight | centerRank _ | pointsRank _ | pointDimension _ _ | indexCount _ _ | emptyMean
  | negativeTolerance _ | patienceNotPositive _ | noDistance | ragged | seedOutOfRange => .value
  | notTabular _ | clusterCountType _ | trialCountType _ | randomStateType _ | unknownOption _
  | trialsOption | entryType | arguments | incomparable | notCallable | unindexed => .type
  | indexOutOfRange | missingAxis => .index
  | missingField => .key
  | readOnly | unknownMethod => .attribute
  | shapeMismatch | emptyChoice | emptyStack | notSingle | samplingWeights | unknownDevice
  | unavailableDevice | stalled => .runtime
  | emptyCluster => .emptyCluster
  | raised name _ => .named name

end Fault

end Centroids

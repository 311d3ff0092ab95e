import Centroids.Cluster

/-!
How good a partition is: the sum, over its clusters, of the sample variance of the distances from
the members to the center.  Lower is better.
-/
namespace Centroids

variable {α ω : Type} [Scalar α] [Sampled ω] [Widening α ω]

/-- The sum of squared deviations from the average over one less than the number of values. -/
def sampleVariance (xs : List ω) : ω :=
  let mean := Scalar.average xs
  Scalar.total (xs.map fun x => (x - mean) * (x - mean)) / Scalar.ofNat (xs.length - 1)

/-- Fewer than two members vary by nothing, and are not measured. -/
def distanceVariance (d : Distance α ω) (points : Points α) (center : List α) : Except Fault ω :=
  if points.size < 2 then .ok 0
  else (d.ofMembers points center).map fun ds => sampleVariance ds.2

namespace Partition

def score (d : Distance α ω) (partition : Partition α) : Except Fault ω :=
  (partition.filter (!·.isEmpty)).foldlM
    (fun total c => (distanceVariance d c.points c.center).map (total + ·)) 0

def sizes (partition : Partition α) : List Nat := partition.map (·.size)

end Partition

end Centroids

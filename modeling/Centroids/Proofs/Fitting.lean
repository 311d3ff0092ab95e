import Centroids.Proofs.Coverage
import Centroids.Proofs.Nearest
import Centroids.Proofs.Share
import Centroids.Proofs.Taking

/-! Metrics that fit the points.  A formula whose weights, if it has any, are as many as the
coordinates measures any points around any center of their dimension, so that neither an assignment
nor the choice of a donor can fail.  Nor can a round whose centers were found. -/
namespace Centroids

variable {α : Type} [Scalar α] {f : Formula α} {width : Nat} {points : Points α}

theorem Formula.distances_eq_ok {center : List α}
    (hfit : f.width? points.dim points.dim = some width) (hcenter : center.length = points.dim) :
    f.distances points center = .ok (points.rows.map fun row => f.between width row center) := by
  unfold Formula.distances
  rw [hcenter, hfit]

theorem Formula.mapM_distances {centers : List (List α)}
    (hfit : f.width? points.dim points.dim = some width)
    (hcenters : ∀ center ∈ centers, center.length = points.dim) :
    centers.mapM ((Metric.formula f).distances points) =
      .ok (centers.map fun center => points.rows.map fun row => f.between width row center) := by
  rw [mapM_eq_ok, List.map_map]
  apply List.map_congr_left
  intro center hcenter
  exact Formula.distances_eq_ok hfit (hcenters center hcenter)

theorem Formula.ofMembers_eq_ok {ω : Type} [Widening α ω] {members : Points α} {center : List α}
    (hfit : f.width? members.dim members.dim = some width) (hcenter : center.length = members.dim) :
    (Distance.metric (.formula f) : Distance α ω).ofMembers members center =
      .ok (.native, (members.rows.map fun row => f.between width row center).map Widening.widen) := by
  unfold Distance.ofMembers
  dsimp only
  rw [Formula.distances_eq_ok hfit hcenter]
  rfl

/-- A donor with points left can be measured. -/
theorem Strategy.measures_of_formula {ω : Type} [Sampled ω] [Widening α ω] {strategy : Strategy}
    {c : Cluster α} {available : List Bool} (hstrategy : strategy ≠ .refuse)
    (hfit : f.width? points.dim points.dim = some width) (hc : c.Within points)
    (hleft : c.left available ≠ []) :
    strategy.Measures (.metric (.formula f) : Distance α ω) (c.donor points available) := by
  have hpos := hc.size_donor_ne_zero hleft
  have hcenter := hc.length_center (Cluster.places_ne_nil hleft)
  exact measures_of_ofMembers hstrategy hpos (Formula.ofMembers_eq_ok hfit hcenter)

namespace Trial

variable {ω : Type} [Sampled ω] [Widening α ω]

theorem measures_of_shares {plan : Plan α} {strategy : Strategy} {clusters : Partition α}
    (hmetric : plan.metric = .formula f) (hfit : f.width? points.dim points.dim = some width)
    (hstrategy : strategy ≠ .refuse) (hshares : clusters.Shares points)
    (available : List Bool) :
    ∀ c ∈ clusters, c.left available ≠ [] →
      strategy.Measures (.metric plan.metric : Distance α ω) (c.donor points available) := by
  intro c hc hleft
  rw [hmetric]
  exact Strategy.measures_of_formula hstrategy hfit (hshares.within c hc) hleft

theorem exists_assign {plan : Plan α} {centers : List (List α)} (hmetric : plan.metric = .formula f)
    (hfit : f.width? points.dim points.dim = some width) (hne : centers ≠ [])
    (hcenters : ∀ center ∈ centers, center.length = points.dim) :
    ∃ next labels, assign plan points centers = .ok (next, labels) := by
  rcases Assignment.exists_labels hne (Formula.mapM_distances hfit hcenters) with
    ⟨labels, hlabels⟩
  rcases Assignment.exists_clusters (Assignment.length_labels hlabels) hcenters with
    ⟨next, hnext⟩
  rw [← hmetric] at hlabels
  exact ⟨next, labels, assign_eq_ok.2 ⟨hlabels, hnext⟩⟩

/-- The criterion can compare the labels of an assignment with those before. -/
theorem exists_round_of_move {plan : Plan α} {s : Stage α} {count : Nat} {next : Partition α}
    {labels : List Int} {reseeded : Bool} {g : Generator} (hs : s.Covers plan.metric points count)
    (hstop : isOver plan s.iteration = .ok false)
    (hmove : move plan points s.clusters s.generator = .ok (next, labels, reseeded) g) :
    ∃ met c, Round plan points s met ⟨s.iteration + 1, next, g, c⟩ := by
  rcases hs with ⟨before, hassigned, hprevious⟩
  rcases move_eq_ok.1 hmove with ⟨centers, -, hassign⟩
  have hlabels := (assigned_of_assign hassign).1.length_labels
  have hcheck := Criterion.check_next hprevious
    (Criterion.compare_ofList (hlabels.trans hassigned.length_labels.symm))
    (some (.int s.iteration)) reseeded
  exact ⟨_, _, hstop, rfl, labels, reseeded, hmove, hcheck⟩

end Trial

end Centroids

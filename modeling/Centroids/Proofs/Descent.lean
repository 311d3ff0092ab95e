import Centroids.Proofs.Fitting
import Centroids.Proofs.Squares
import Centroids.Proofs.Walk

/-! Descent.  A round with squared distances does not raise the cost of a partition, however many
clusters take points in it.  A row that is taken becomes a center and costs nothing from then on; the
rows that a cluster has left cost no more around their mean than around the center before. -/
namespace Centroids

/-- The sum of the distances from all members to the centers of their clusters. -/
def Partition.cost {α : Type} [Scalar α] (metric : Metric α) (clusters : Partition α) :
    Except Fault α :=
  ((clusters.filter (!·.isEmpty)).mapM fun c =>
    (metric.distances c.points c.center).map Scalar.total).map Scalar.total

section Sums

variable {β F : Type} [AddCommMonoid F]

theorem sum_map_filter_add (xs : List β) (g : β → F) (keep : β → Bool) :
    ((xs.filter keep).map g).sum + ((xs.filter (!keep ·)).map g).sum = (xs.map g).sum := by
  rw [← List.sum_append, ← List.map_append]
  exact ((List.filter_append_perm keep xs).map g).sum_eq

theorem sum_map_filter {xs : List β} {g : β → F} {keep : β → Bool}
    (h : ∀ x ∈ xs, keep x = false → g x = 0) :
    ((xs.filter keep).map g).sum = (xs.map g).sum := by
  have hzero : ((xs.filter (!keep ·)).map g).sum = 0 := by
    apply List.sum_eq_zero
    intro y hy
    rcases List.mem_map.1 hy with ⟨x, hx, rfl⟩
    rcases List.mem_filter.1 hx with ⟨hmem, hkeep⟩
    exact h x hmem (by simpa using hkeep)
  rw [← sum_map_filter_add xs g keep, hzero, add_zero]

end Sums

variable {F : Type} [Field F] [LinearOrder F] [Analytic F] {points : Points F} {f : Formula F}
  {width : Nat}

/-- What a cluster costs around its own center. -/
def Cluster.charge (f : Formula F) (width : Nat) (points : Points F) (c : Cluster F) : F :=
  (c.places.map fun row => f.between width (points.row row) c.center).sum

theorem Cluster.Within.total_distances {c : Cluster F} (hc : c.Within points)
    (hfit : f.width? points.dim points.dim = some width) (hne : c.places ≠ []) :
    ((Metric.formula f).distances c.points c.center).map Scalar.total =
      .ok (c.charge f width points) := by
  have hselected : f.width? (points.select c.places).dim (points.select c.places).dim =
      some width := hfit
  rw [hc.selected]
  change (f.distances (points.select c.places) c.center).map Scalar.total = _
  rw [Formula.distances_eq_ok hselected (hc.length_center hne), Points.rows_select hc.lt_size]
  change Except.ok (Scalar.total ((c.places.map points.row).map _)) = _
  rw [List.map_map]
  exact congrArg Except.ok (Exact.total_eq_sum _)

theorem Partition.cost_eq_ok {clusters : Partition F} (hwithin : ∀ c ∈ clusters, c.Within points)
    (hfit : f.width? points.dim points.dim = some width) :
    clusters.cost (.formula f) = .ok (clusters.map (Cluster.charge f width points)).sum := by
  have hcharge : ∀ c ∈ clusters.filter (!·.isEmpty),
      ((Metric.formula f).distances c.points c.center).map Scalar.total =
        .ok (c.charge f width points) := by
    intro c hmem
    rcases List.mem_filter.1 hmem with ⟨hc, hkeep⟩
    apply (hwithin c hc).total_distances hfit
    intro hnil
    rw [(hwithin c hc).isEmpty_iff.2 hnil] at hkeep
    cases hkeep
  have hempty : ∀ c ∈ clusters, (!c.isEmpty) = false → c.charge f width points = 0 := by
    intro c hc hsize
    unfold Cluster.charge
    rw [(hwithin c hc).isEmpty_iff.1 (by simpa using hsize)]
    rfl
  have hmap : (clusters.filter (!·.isEmpty)).mapM (fun c =>
      ((Metric.formula f).distances c.points c.center).map Scalar.total) =
        .ok ((clusters.filter (!·.isEmpty)).map (Cluster.charge f width points)) := by
    rw [mapM_eq_ok, List.map_map]
    exact List.map_congr_left hcharge
  unfold Partition.cost
  rw [hmap]
  change Except.ok (Scalar.total _) = _
  rw [Exact.total_eq_sum, sum_map_filter hempty]

section Walk

variable [IsStrictOrderedRing F] {centers : List (List F)} {least : Nat → F}

section Cluster

variable {available : List Bool} {c : Cluster F} (hf : f.IsSquared)
  (hfit : f.width? points.dim points.dim = some width) (hc : c.Within points)
  (hsize : available.length = points.size)
  (hleast : ∀ row < points.size, ∀ center ∈ centers,
    least row ≤ f.between width (points.row row) center)
  (htaken : ∀ row, available[row]? = some false → points.row row ∈ centers)
  (hleft : c.left available ≠ [] →
    ∃ center ∈ centers, (points.select (c.left available)).mean = .ok center)

include hf hc hsize hleast htaken in
/-- A row that was taken is a center itself. -/
theorem Cluster.sum_least_gone_le :
    ((c.places.filter (!available.getD · false)).map least).sum ≤
      ((c.places.filter (!available.getD · false)).map fun row =>
        f.between width (points.row row) c.center).sum := by
  apply List.sum_le_sum
  intro row hrow
  rcases List.mem_filter.1 hrow with ⟨hplace, hkeep⟩
  have hlt := hc.lt_size row hplace
  have hfalse : available[row]? = some false := by
    rw [List.getD_eq_getElem?_getD, List.getElem?_eq_getElem (by omega)] at hkeep
    rw [List.getElem?_eq_getElem (by omega)]
    simpa using hkeep
  calc least row ≤ f.between width (points.row row) (points.row row) :=
        hleast row hlt _ (htaken row hfalse)
    _ = 0 := Formula.between_self hf
    _ ≤ f.between width (points.row row) c.center :=
        Formula.between_nonneg hf (Points.length_row_of_lt hlt)
          (hc.length_center (List.ne_nil_of_mem hplace))

include hf hfit hc hleast hleft in
/-- The rows that are left have their mean as a center. -/
theorem Cluster.sum_least_left_le : ((c.left available).map least).sum ≤
    ((c.left available).map fun row => f.between width (points.row row) c.center).sum := by
  by_cases hnil : c.left available = []
  · rw [hnil]
    exact le_rfl
  rcases hleft hnil with ⟨center, hcenter, hmean⟩
  have hselected : f.width? (points.select (c.left available)).dim
      (points.select (c.left available)).dim = some width := hfit
  have hbest := Formula.sum_between_mean_le hmean hf hselected
    (hc.length_center (Cluster.places_ne_nil hnil))
  rw [Points.rows_select (hc.left_lt_size available), List.map_map, List.map_map] at hbest
  refine le_trans ?_ hbest
  apply List.sum_le_sum
  intro row hrow
  exact hleast row (hc.left_lt_size available row hrow) center hcenter

include hf hfit hc hsize hleast htaken hleft in
/-- One cluster of a walk: the rows that were taken cost nothing, and those that are left cost no more
around their mean than around the center before. -/
theorem Cluster.sum_least_le : (c.places.map least).sum ≤ c.charge f width points := by
  have hkept := Cluster.sum_least_left_le hf hfit hc hleast hleft
  have hgone := Cluster.sum_least_gone_le hf hc hsize hleast htaken
  unfold Cluster.charge
  rw [← sum_map_filter_add c.places least (available.getD · false),
    ← sum_map_filter_add c.places (fun row => f.between width (points.row row) c.center)
      (available.getD · false)]
  exact add_le_add hkept hgone

end Cluster

/-- The least costs of all rows around the centers of a walk are at most what the clusters cost. -/
theorem Update.Walk.sum_least_le {available : List Bool} {clusters : Partition F}
    {next : List (List F)} (hf : f.IsSquared)
    (hfit : f.width? points.dim points.dim = some width)
    (h : Update.Walk points available clusters next) (hwithin : ∀ c ∈ clusters, c.Within points)
    (hsize : available.length = points.size)
    (hleast : ∀ row < points.size, ∀ center ∈ centers,
      least row ≤ f.between width (points.row row) center)
    (htaken : ∀ row, available[row]? = some false → points.row row ∈ centers)
    (hnext : ∀ center ∈ next, center ∈ centers) :
    (clusters.map fun c => (c.places.map least).sum).sum ≤
      (clusters.map (Cluster.charge f width points)).sum := by
  induction h with
  | done => exact le_rfl
  | @mean available c clusters center rest hleft hmean _ ih =>
    have hc := hwithin c (List.mem_cons_self ..)
    have hhead := Cluster.sum_least_le hf hfit hc hsize hleast htaken
      fun _ => ⟨center, hnext center (List.mem_cons_self ..), hmean⟩
    have htail := ih (fun d hd => hwithin d (List.mem_cons_of_mem _ hd)) hsize htaken
      fun d hd => hnext d (List.mem_cons_of_mem _ hd)
    rw [List.map_cons, List.map_cons, List.sum_cons, List.sum_cons]
    exact add_le_add hhead htail
  | @take available c clusters place rest hleft havailable _ ih =>
    have hc := hwithin c (List.mem_cons_self ..)
    have hhead := Cluster.sum_least_le hf hfit hc hsize hleast htaken
      fun hne => absurd hleft hne
    have htaken' : ∀ row, (available.set place false)[row]? = some false →
        points.row row ∈ centers := by
      intro row hrow
      by_cases heq : place = row
      · rw [← heq]
        exact hnext _ (List.mem_cons_self ..)
      · rw [List.getElem?_set_ne heq] at hrow
        exact htaken row hrow
    have hset : (available.set place false).length = points.size := by
      rw [List.length_set, hsize]
    have htail := ih (fun d hd => hwithin d (List.mem_cons_of_mem _ hd)) hset htaken'
      fun d hd => hnext d (List.mem_cons_of_mem _ hd)
    rw [List.map_cons, List.map_cons, List.sum_cons, List.sum_cons]
    exact add_le_add hhead htail

end Walk

/-- A sum over the members of all clusters is one over all rows. -/
theorem Partition.Shares.sum_places {clusters : Partition F} (h : clusters.Shares points)
    (g : Nat → F) : (clusters.map fun c => (c.places.map g).sum).sum =
      ((List.range points.size).map g).sum := by
  rw [← (h.perm.map g).sum_eq, List.map_flatMap, List.flatMap_def, List.sum_flatten, List.map_map]
  rfl

/-- No center is nearer to a member than its own. -/
theorem Trial.Assigned.between_le {count : Nat} {clusters : Partition F} {labels : List Int}
    (h : Assigned (.formula f) points count clusters labels)
    (hfit : f.width? points.dim points.dim = some width)
    (hcenters : ∀ center ∈ clusters.map (·.center), center.length = points.dim) {c : Cluster F}
    (hc : c ∈ clusters) {row : Nat} (hrow : row ∈ c.places) :
    ∀ center ∈ clusters.map (·.center),
      f.between width (points.row row) c.center ≤ f.between width (points.row row) center := by
  have hcolumns := Formula.mapM_distances hfit hcenters
  have hlt := h.divides.toShares.within c hc |>.lt_size row hrow
  have hcolumn : ∀ center, (points.rows.map fun x => f.between width x center).getD row 0 =
      f.between width (points.row row) center :=
    fun center => Points.getD_map_rows hlt (f.between width · center) 0
  rcases List.mem_iff_getElem?.1 hc with ⟨k, hk⟩
  rw [h.groups.places_eq hk, Assignment.mem_places] at hrow
  rcases Assignment.le_of_label hcolumns h.labelled (fun d _ => Exact.isNaN_eq_false d) hrow
    with ⟨nearest, hnearest, hle, -⟩
  rw [List.getElem?_map, List.getElem?_map, hk] at hnearest
  cases hnearest
  intro center hcenter
  have hother := hle _ (List.mem_map_of_mem hcenter)
  rw [Exact.le_iff, hcolumn, hcolumn] at hother
  exact hother

/-- What an assignment costs, row by row: each row costs as little as it can around these centers. -/
theorem Trial.Assigned.exists_least {count : Nat} {clusters : Partition F} {labels : List Int}
    (h : Assigned (.formula f) points count clusters labels)
    (hfit : f.width? points.dim points.dim = some width)
    (hcenters : ∀ center ∈ clusters.map (·.center), center.length = points.dim) :
    ∃ least : Nat → F,
      (clusters.map (Cluster.charge f width points)).sum =
        (clusters.map fun c => (c.places.map least).sum).sum ∧
      ∀ row < points.size, ∀ center ∈ clusters.map (·.center),
        least row ≤ f.between width (points.row row) center := by
  have hrows : ∀ row < points.size, ∃ cost,
      (∀ c ∈ clusters, row ∈ c.places → f.between width (points.row row) c.center = cost) ∧
      ∀ center ∈ clusters.map (·.center), cost ≤ f.between width (points.row row) center := by
    intro row hrow
    have hmem := h.divides.perm.mem_iff.2 (List.mem_range.2 hrow)
    rcases List.mem_flatMap.1 hmem with ⟨c, hc, hplace⟩
    refine ⟨f.between width (points.row row) c.center, ?_, h.between_le hfit hcenters hc hplace⟩
    intro d hd hplaced
    apply le_antisymm
    · exact h.between_le hfit hcenters hd hplaced _ (List.mem_map_of_mem hc)
    · exact h.between_le hfit hcenters hc hplace _ (List.mem_map_of_mem hd)
  choose! least hown hleast using hrows
  refine ⟨least, ?_, hleast⟩
  apply congrArg List.sum
  apply List.map_congr_left
  intro c hc
  apply congrArg List.sum
  apply List.map_congr_left
  intro row hrow
  exact hown row ((h.divides.toShares.within c hc).lt_size row hrow) c hc hrow

/-- In exact arithmetic every donor that can be measured can be chosen. -/
theorem Strategy.Measures.admits {strategy : Strategy} {distance : Distance F F} {donor : Donor F}
    (h : strategy.Measures distance donor) : strategy.Admits distance donor := by
  cases strategy with
  | refuse => exact h
  | largestCount => trivial
  | largestVariance =>
    rcases h with ⟨v, hv⟩
    exact ⟨v, hv, rfl⟩
  | farthestPoint =>
    rcases h with ⟨v, k, hv, -⟩
    exact ⟨v, k, hv, rfl⟩

namespace Trial

variable {plan : Plan F} {clusters : Partition F} {g : Generator}

/-- In exact arithmetic, with squared distances that fit the points, a round of any reseeding strategy
leads from any partition into at most as many clusters as there are points to one that costs no
more. -/
theorem exists_move_cost_le [IsStrictOrderedRing F] {strategy : Strategy}
    (hmetric : plan.metric = .formula f) (hf : f.IsSquared)
    (hfit : f.width? points.dim points.dim = some width) (hhandler : plan.handler = strategy)
    (hstrategy : strategy ≠ .refuse) (hshares : clusters.Shares points)
    (hne : clusters ≠ []) (hle : clusters.length ≤ points.size) :
    ∃ next labels reseeded g' before after,
      move plan points clusters g = .ok (next, labels, reseeded) g' ∧
      clusters.cost plan.metric = .ok before ∧ next.cost plan.metric = .ok after ∧
      after ≤ before := by
  have hmeasures := measures_of_shares (ω := F) hmetric hfit hstrategy hshares
  have hadmits : ∀ available, ∀ c ∈ clusters, c.left available ≠ [] →
      strategy.Admits (.metric plan.metric : Distance F F) (c.donor points available) :=
    fun available c hc hleft => (hmeasures available c hc hleft).admits
  rcases Update.exists_centers hshares hne hle hmeasures hadmits with
    ⟨centers, reseeded, g', hcenters, hwalk⟩
  rw [← hhandler] at hcenters
  have hsize := Pool.length_full g points.size
  have hlength := hwalk.length_center hsize
  have hcentersne := hwalk.ne_nil hne
  rcases exists_assign hmetric hfit hcentersne hlength with ⟨next, labels, hassign⟩
  rcases assigned_of_assign hassign with ⟨hassigned, rfl⟩
  rw [hmetric] at hassigned
  rcases hassigned.exists_least hfit hlength with ⟨least, hafter, hleast⟩
  have hdivides := hassigned.divides.toShares
  have htaken : ∀ row, (List.replicate points.size true)[row]? = some false →
      points.row row ∈ next.map (·.center) := by
    intro row hrow
    rw [List.getElem?_replicate] at hrow
    split at hrow <;> cases hrow
  have hbefore := Partition.cost_eq_ok hshares.within hfit
  have hcost := Partition.cost_eq_ok hdivides.within hfit
  rw [← hmetric] at hbefore hcost
  refine ⟨next, labels, reseeded, g', _, _, move_eq_ok.2 ⟨_, hcenters, hassign⟩, hbefore, hcost, ?_⟩
  rw [hafter, hdivides.sum_places, ← hshares.sum_places]
  exact hwalk.sum_least_le hf hfit hshares.within hsize hleast htaken fun _ hcenter => hcenter

section Lonely

/-- Neither roots nor clocks count where distances are squared and the farthest point is taken. -/
local instance : Analytic ℚ := ⟨Rat.sqrt, fun _ => 1⟩

def farthest : Plan ℚ :=
  { clusters := 2
    seeding := .random
    metric := .formula (.euclidean true)
    handler := .strategy .farthestPoint
    limit := .unlimited
    verbosity := ⟨false, none⟩ }

def threesome : Points ℚ := ⟨1, [[0], [4], [10]], by decide⟩

/-- A cluster of all points, and one that has none. -/
def lonely : Partition ℚ :=
  [⟨[0], threesome, some [0, 1, 2], fun _ => rfl, fun _ h => by cases h; rfl⟩, .bare [7]]

theorem lonely_shares : lonely.Shares threesome := by
  refine ⟨?_, ?_, ?_⟩ <;> decide +kernel

theorem exists_move_cost_le_lonely : ∃ next labels reseeded g' after,
    move farthest threesome lonely ⟨Vector.replicate 624 0, 0⟩ =
      .ok (next, labels, reseeded) g' ∧
    next.cost farthest.metric = .ok after ∧ after ≤ 116 := by
  rcases @exists_move_cost_le ℚ _ _ _ threesome (.euclidean true) 1 farthest lonely
    ⟨Vector.replicate 624 0, 0⟩ _ _ rfl rfl rfl rfl (by decide) lonely_shares (by decide)
    (by decide) with
    ⟨next, labels, reseeded, g', before, after, hmove, hbefore, hafter, hle⟩
  have hcost : lonely.cost farthest.metric = .ok 116 := by decide +kernel
  rw [hcost] at hbefore
  cases hbefore
  exact ⟨next, labels, reseeded, g', after, hmove, hafter, hle⟩

end Lonely

end Trial

end Centroids

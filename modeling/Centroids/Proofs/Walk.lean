import Centroids.Proofs.Taking

/-! The walk along the clusters that gives the next centers.  Each cluster moves to the mean of what
the ones before it have left, or takes a point; with no more clusters than points there is always
one to be taken. -/
namespace Centroids

namespace Update

variable {α : Type} [Scalar α] {points : Points α}

/-- The centers at which clusters arrive while these rows are available. -/
inductive Walk (points : Points α) : List Bool → Partition α → List (List α) → Prop
  | done {available : List Bool} : Walk points available [] []
  | mean {available : List Bool} {c : Cluster α} {clusters : Partition α} {center : List α}
      {centers : List (List α)} :
      c.left available ≠ [] → (points.select (c.left available)).mean = .ok center →
      Walk points available clusters centers →
      Walk points available (c :: clusters) (center :: centers)
  | take {available : List Bool} {c : Cluster α} {clusters : Partition α} {place : Nat}
      {centers : List (List α)} :
      c.left available = [] → available[place]? = some true →
      Walk points (available.set place false) clusters centers →
      Walk points available (c :: clusters) (points.row place :: centers)

namespace Walk

variable {available : List Bool} {clusters : Partition α} {centers : List (List α)}

theorem length_eq (h : Walk points available clusters centers) :
    centers.length = clusters.length := by
  induction h with
  | done => rfl
  | mean _ _ _ ih => rw [List.length_cons, List.length_cons, ih]
  | take _ _ _ ih => rw [List.length_cons, List.length_cons, ih]

theorem ne_nil (h : Walk points available clusters centers) (hne : clusters ≠ []) :
    centers ≠ [] := by
  apply List.ne_nil_of_length_pos
  rw [h.length_eq]
  exact List.length_pos_iff.2 hne

theorem length_center (h : Walk points available clusters centers)
    (hsize : available.length = points.size) :
    ∀ center ∈ centers, center.length = points.dim := by
  induction h with
  | done => simp
  | mean _ hmean _ ih =>
    intro center hcenter
    rcases List.mem_cons.1 hcenter with rfl | hmem
    · rw [Points.length_of_mean hmean]
      rfl
    · exact ih hsize center hmem
  | @take available _ _ place _ _ havailable _ ih =>
    intro center hcenter
    rcases List.mem_cons.1 hcenter with rfl | hmem
    · have hlt := (List.getElem?_eq_some_iff.1 havailable).1
      rw [hsize] at hlt
      exact Points.length_row_of_lt hlt
    · exact ih (by rw [List.length_set, hsize]) center hmem

end Walk

theorem count_set_false {available : List Bool} {place : Nat}
    (h : available[place]? = some true) :
    (available.set place false).count true + 1 = available.count true := by
  rcases List.getElem?_eq_some_iff.1 h with ⟨hlt, hvalue⟩
  have hpos : 0 < available.count true := List.count_pos_iff.2 (hvalue ▸ List.getElem_mem hlt)
  rw [List.count_set hlt, hvalue]
  simp
  omega

variable {ω : Type} [Sampled ω] [Widening α ω] {strategy : Strategy} {distance : Distance α ω}
  {all clusters : Partition α}

/-- A cluster is empty while rows are left in others, none of which can be chosen as a donor. -/
def Stuck (points : Points α) (strategy : Strategy) (distance : Distance α ω)
    (clusters : Partition α) : Prop :=
  ∃ available, available.length = points.size ∧ (∃ c ∈ clusters, c.left available = []) ∧
    (∃ c ∈ clusters, c.left available ≠ []) ∧
    ∀ c ∈ clusters, c.left available ≠ [] → ¬ strategy.Admits distance (c.donor points available)

/-- Where every donor can be measured, a walk over no more clusters than rows are left arrives, unless
it meets an empty cluster while no donor can be chosen. -/
theorem walk_cases (hall : all.Shares points)
    (hmeasures : ∀ available, ∀ c ∈ all, c.left available ≠ [] →
      strategy.Measures distance (c.donor points available))
    (hclusters : ∀ c ∈ clusters, c ∈ all) {pool : Pool}
    (hsize : pool.available.length = points.size)
    (hcount : clusters.length ≤ pool.available.count true) :
    (∃ answers next, clusters.mapM (center strategy distance all) pool = .ok answers next ∧
        Walk points pool.available clusters (answers.map (·.1))) ∨
      (∃ next, clusters.mapM (center strategy distance all) pool = .error .emptyCluster next) ∧
        Stuck points strategy distance all := by
  induction clusters generalizing pool with
  | nil => exact .inl ⟨[], pool, rfl, .done⟩
  | cons c clusters ih =>
    have hc := hall.within c (hclusters c (List.mem_cons_self ..))
    have hrest : ∀ d ∈ clusters, d ∈ all := fun d hd => hclusters d (List.mem_cons_of_mem _ hd)
    rw [List.length_cons] at hcount
    rw [List.mapM_cons]
    by_cases hleft : c.left pool.available = []
    · have hgiver := hall.exists_left hsize (by omega)
      rcases Strategy.reseed_cases hall.within hsize (hmeasures pool.available) hgiver with
        ⟨row, taken, hreseed, place, havailable, hrow, hset⟩ | ⟨hreseed, hrefused⟩
      · have hcenter : center strategy distance all c pool = .ok (row, true) taken :=
          (center_of_none_left hc hsize hleft).2 ⟨hreseed, rfl⟩
        have hlength : taken.available.length = points.size := by
          rw [hset, List.length_set, hsize]
        have hleast := count_set_false havailable
        rw [← hset] at hleast
        rw [step_bind_of_ok hcenter]
        rcases ih hrest hlength (by omega) with
          ⟨answers, next, hanswers, hwalk⟩ | ⟨⟨next, herror⟩, hstuck⟩
        · rw [hset] at hwalk
          refine .inl ⟨_, next, step_bind_of_ok hanswers, ?_⟩
          rw [List.map_cons, hrow]
          exact .take hleft havailable hwalk
        · exact .inr ⟨⟨next, step_bind_of_error herror⟩, hstuck⟩
      · have hcenter : center strategy distance all c pool = .error .emptyCluster pool :=
          center_error_of_none_left hc hsize hleft hreseed
        have hempty : ∃ d ∈ all, d.left pool.available = [] :=
          ⟨c, hclusters c (List.mem_cons_self ..), hleft⟩
        exact .inr ⟨⟨pool, step_bind_of_error hcenter⟩, pool.available, hsize, hempty, hgiver,
          hrefused⟩
    · have hpos : (points.select (c.left pool.available)).size ≠ 0 := by
        rw [Points.size_select (hc.left_lt_size _)]
        exact (List.length_pos_iff.2 hleft).ne'
      have hmean : ∃ mean, (points.select (c.left pool.available)).mean = .ok mean :=
        ⟨_, if_neg hpos⟩
      rcases hmean with ⟨mean, hmean⟩
      have hcenter : center strategy distance all c pool = .ok (mean, false) pool :=
        (center_of_left hc hsize hleft).2 ⟨hmean, rfl, rfl⟩
      rw [step_bind_of_ok hcenter]
      rcases ih hrest hsize (by omega) with
        ⟨answers, next, hanswers, hwalk⟩ | ⟨⟨next, herror⟩, hstuck⟩
      · exact .inl ⟨_, next, step_bind_of_ok hanswers, .mean hleft hmean hwalk⟩
      · exact .inr ⟨⟨next, step_bind_of_error herror⟩, hstuck⟩

/-- A partition with no more clusters than points has next centers, unless a cluster is empty while no
donor can be chosen. -/
theorem centers_cases {g : Generator} (h : clusters.Shares points) (hne : clusters ≠ [])
    (hle : clusters.length ≤ points.size)
    (hmeasures : ∀ available, ∀ c ∈ clusters, c.left available ≠ [] →
      strategy.Measures distance (c.donor points available)) :
    (∃ next reseeded g', centers strategy distance clusters g = .ok (next, reseeded) g' ∧
        Walk points (List.replicate points.size true) clusters next) ∨
      (∃ g', centers strategy distance clusters g = .error .emptyCluster g') ∧
        Stuck points strategy distance clusters := by
  have hsize := Pool.length_full g points.size
  have hcount : clusters.length ≤ (Pool.full g points.size).available.count true := by
    unfold Pool.full
    rw [List.count_replicate_self]
    exact hle
  rcases walk_cases h hmeasures (fun c hc => hc) hsize hcount with
    ⟨answers, pool, hanswers, hwalk⟩ | ⟨⟨pool, herror⟩, hstuck⟩
  · have huniform := isUniform_eq_true h.within (hwalk.length_center hsize)
    refine .inl ⟨_, _, _, centers_eq_ok.2 ⟨hne, answers, pool, ?_, huniform, rfl, rfl, rfl⟩, hwalk⟩
    rw [h.total_eq]
    exact hanswers
  · refine .inr ⟨⟨pool.generator, ?_⟩, hstuck⟩
    unfold Pool.full at herror
    unfold centers
    rw [if_neg (by simpa using hne), h.total_eq]
    dsimp only
    rw [herror]

/-- Where every donor can be measured and chosen, there are next centers. -/
theorem exists_centers {g : Generator} (h : clusters.Shares points) (hne : clusters ≠ [])
    (hle : clusters.length ≤ points.size)
    (hmeasures : ∀ available, ∀ c ∈ clusters, c.left available ≠ [] →
      strategy.Measures distance (c.donor points available))
    (hadmits : ∀ available, ∀ c ∈ clusters, c.left available ≠ [] →
      strategy.Admits distance (c.donor points available)) :
    ∃ next reseeded g', centers strategy distance clusters g = .ok (next, reseeded) g' ∧
      Walk points (List.replicate points.size true) clusters next := by
  rcases centers_cases h hne hle hmeasures with
    hcenters | ⟨-, available, -, -, ⟨c, hc, hleft⟩, hrefused⟩
  · exact hcenters
  · exact absurd (hadmits available c hc hleft) (hrefused c hc hleft)

end Update

end Centroids

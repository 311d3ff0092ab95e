import Centroids.Proofs.Choosing

/-! What a reseed takes.  Whichever cluster gives, the new center is the row of a point that was
available, and only that point becomes unavailable; while a point is left, one is taken unless no
donor's measure can be compared. -/
namespace Centroids

section Members

variable {α ω : Type} [Scalar α] [Widening α ω] {points : Points α} {center : List α}

theorem Grid.length_toList {β : Type} (g : Grid β) : g.toList.length = volume g.shape :=
  Vector.length_toList

theorem Distance.length_rowByRow {distance : Distance α ω} {ds : Format × List ω}
    (h : distance.rowByRow points center = .ok ds) : ds.2.length = points.size := by
  unfold rowByRow at h
  obtain ⟨answers, hanswers, h⟩ := bind_eq_ok.1 h
  have hlength := length_of_mapM_eq_ok hanswers
  unfold Points.size
  cases answers with
  | nil => cases h
  | cons first rest =>
    cases h
    simpa using hlength

/-- There is a distance for each of the members. -/
theorem Distance.length_ofMembers {distance : Distance α ω} {ds : Format × List ω}
    (h : distance.ofMembers points center = .ok ds) : ds.2.length = points.size := by
  unfold ofMembers at h
  split at h
  · obtain ⟨distances, hdistances, h⟩ := bind_eq_ok.1 h
    cases h
    rw [List.length_map, Formula.length_distances hdistances]
  · obtain ⟨answer, -, h⟩ := bind_eq_ok.1 h
    split at h
    · rename_i hshape
      cases h
      rw [Grid.length_toList, hshape]
      simp
    · exact Distance.length_rowByRow h

theorem Distance.ofMembers_ne_nil {distance : Distance α ω} {ds : Format × List ω}
    (hpos : points.size ≠ 0) (h : distance.ofMembers points center = .ok ds) : ds.2 ≠ [] := by
  rw [← List.length_pos_iff, Distance.length_ofMembers h]
  omega

end Members

section Take

variable {α : Type} {points : Points α} {c : Cluster α} {pool : Pool}

/-- What a cluster can give while these rows are available. -/
def Cluster.donor (points : Points α) (available : List Bool) (c : Cluster α) : Donor α :=
  ⟨c.center, points.select (c.left available), (c.left available).map Int.ofNat⟩

/-- A row that was available is the new center, and is available no longer. -/
def Pool.Takes (points : Points α) (pool : Pool) (row : List α) (next : Pool) : Prop :=
  ∃ place, pool.available[place]? = some true ∧ row = points.row place ∧
    next.available = pool.available.set place false

namespace Cluster.Within

variable (hc : c.Within points)
include hc

theorem size_donor (available : List Bool) :
    (c.donor points available).points.size = (c.left available).length :=
  Points.size_select (hc.left_lt_size available)

theorem size_donor_ne_zero {available : List Bool} (hleft : c.left available ≠ []) :
    (c.donor points available).points.size ≠ 0 := by
  rw [hc.size_donor]
  exact (List.length_pos_iff.2 hleft).ne'

section Rows

variable {available : List Bool} (hsize : available.length = points.size)
include hsize

theorem numbered_rows : c.Numbered available.length :=
  ⟨_, hc.numbered, hc.isSome_place hsize⟩

theorem offering_eq : c.offering available = c.donor points available := by
  have hdonor := Donor.ofCluster_offering (hc.numbered_rows hsize)
  rw [Donor.ofCluster_eq hc hsize] at hdonor
  exact (Except.ok.inj hdonor).symm

/-- The members that are left, each with the number of its row. -/
theorem remaining_eq : c.remaining available =
    (c.left available).map fun row => (Int.ofNat row, points.row row) := by
  have hdonor := hc.offering_eq hsize
  have hnumbers : (c.remaining available).map (·.1) = (c.left available).map Int.ofNat :=
    congrArg Donor.indices hdonor
  have hrows := (hc.numbered_rows hsize).rows_offering available
  rw [hdonor] at hrows
  have hselect : (c.donor points available).points.rows = (c.left available).map points.row :=
    Points.rows_select (hc.left_lt_size available)
  rw [List.zip_of_prod hnumbers (hrows.symm.trans hselect), List.zip_map']

theorem remaining_eq_nil_iff : c.remaining available = [] ↔ c.left available = [] := by
  rw [hc.remaining_eq hsize, List.map_eq_nil_iff]

end Rows

theorem takes_of_yields (hsize : pool.available.length = points.size) {k : Nat} {row : List α}
    {next : Pool} (h : c.Yields pool k row next) : pool.Takes points row next := by
  obtain ⟨number, place, hmember, hplace, hfree, hnext⟩ := h
  refine ⟨place, hfree, ?_, hnext⟩
  rw [hc.remaining_eq hsize, List.getElem?_map, Option.map_eq_some_iff] at hmember
  obtain ⟨p, hp, hpair⟩ := hmember
  cases hpair
  have hlt := hc.left_lt_size _ p (List.mem_of_getElem? hp)
  rw [hsize] at hplace
  cases hplace.symm.trans ((place?_natCast points.size p).trans (if_pos hlt))
  rfl

end Cluster.Within

end Take

namespace Strategy

section Givers

variable {α κ : Type} {key : Donor α → Except Fault κ} {clusters : Partition α} {pool : Pool}
  (hnumbered : ∀ c ∈ clusters, c.Numbered pool.available.length)
include hnumbered

theorem any_gives : ∀ c ∈ clusters, c.remaining pool.available ≠ [] → ∀ k,
    key (c.offering pool.available) = .ok k → ∃ i row next,
      (k, c.offering pool.available).2.takeAny pool = .ok row next ∧ c.Yields pool i row next := by
  intro c hc hleft k _
  obtain ⟨i, row, next, htake, -, hyields⟩ :=
    Donor.exists_takeAny_offering (hnumbered c hc) hleft
  exact ⟨i, row, next, htake, hyields⟩

variable {ω : Type} [Scalar α] [Sampled ω] [Widening α ω] {distance : Distance α ω}

/-- The place of the greatest distance is that of a member. -/
theorem place_of_farthestKey {c : Cluster α} (hc : c ∈ clusters)
    (hleft : c.remaining pool.available ≠ []) {far : ω × Nat}
    (hfar : farthestKey distance (c.offering pool.available) = .ok far) :
    far.2 < (c.remaining pool.available).length := by
  obtain ⟨ds, hds, rfl⟩ := map_eq_ok.1 hfar
  have hpos := (hnumbered c hc).size_offering_ne_zero hleft
  rw [← (hnumbered c hc).size_offering, ← Distance.length_ofMembers hds]
  exact Scalar.argmax_lt (Distance.ofMembers_ne_nil hpos hds)

theorem farthest_gives : ∀ c ∈ clusters, c.remaining pool.available ≠ [] → ∀ far,
    farthestKey distance (c.offering pool.available) = .ok far → ∃ i row next,
      (far, c.offering pool.available).2.take far.2 pool = .ok row next ∧
        c.Yields pool i row next := by
  intro c hc hleft far hfar
  have hplace := place_of_farthestKey hnumbered hc hleft hfar
  obtain ⟨row, next, htake, -, hyields⟩ :=
    Donor.exists_take_offering (hnumbered c hc) hplace pool.generator
  exact ⟨_, row, next, htake, hyields⟩

end Givers

section Rows

variable {α : Type} {clusters : Partition α} {points : Points α} {pool : Pool}
  (hwithin : ∀ c ∈ clusters, c.Within points) (hsize : pool.available.length = points.size)
include hwithin hsize

/-- Of clusters that hold rows of the data, one gives a row that was available, or none has a measure
that counts. -/
theorem reseedBy_takes {κ : Type} {key : Donor α → Except Fault κ} {admitted : κ → Bool}
    {less : κ → κ → Bool} {give : κ × Donor α → Taking (List α)}
    (hkey : ∀ c ∈ clusters, c.left pool.available ≠ [] →
      ∃ k, key (c.donor points pool.available) = .ok k)
    (hgive : ∀ c ∈ clusters, c.remaining pool.available ≠ [] → ∀ k,
      key (c.offering pool.available) = .ok k → ∃ i row next,
        give (k, c.offering pool.available) pool = .ok row next ∧ c.Yields pool i row next) :
    (∃ row next, reseedBy key admitted less give clusters pool = .ok row next ∧
        pool.Takes points row next) ∨
      reseedBy key admitted less give clusters pool = .error .emptyCluster pool ∧
        ∀ c ∈ clusters, c.left pool.available ≠ [] → ∀ k,
          key (c.donor points pool.available) = .ok k → admitted k = false := by
  have hnumbered := fun c hc => (hwithin c hc).numbered_rows hsize
  have hoffering := fun c hc => (hwithin c hc).offering_eq hsize
  have hleft := fun c hc => not_congr ((hwithin c hc).remaining_eq_nil_iff hsize)
  have hmeasured : ∀ c ∈ clusters, c.remaining pool.available ≠ [] →
      ∃ k, key (c.offering pool.available) = .ok k := by
    intro c hc hgives
    rw [hoffering c hc]
    exact hkey c hc ((hleft c hc).1 hgives)
  refine (reseedBy_cases admitted less give hnumbered hmeasured).imp ?_ ?_
  · rintro ⟨c, hc, k, hgives, hk, hreseed⟩
    obtain ⟨i, row, next, hrow, hyields⟩ := hgive c hc hgives k hk
    exact ⟨row, next, hreseed.trans hrow, (hwithin c hc).takes_of_yields hsize hyields⟩
  · rintro ⟨hreseed, hrefused⟩
    refine ⟨hreseed, ?_⟩
    intro c hc hgives k hk
    rw [← hoffering c hc] at hk
    exact hrefused c hc ((hleft c hc).2 hgives) k hk

end Rows

variable {α ω : Type} [Scalar α] [Sampled ω] [Widening α ω] {distance : Distance α ω}
  {strategy : Strategy}

/-- What counts for the choice of a donor can be found. -/
def Measures (strategy : Strategy) (distance : Distance α ω) (donor : Donor α) : Prop :=
  match strategy with
  | largestVariance => ∃ v, varianceKey distance donor = .ok v
  | largestCount => True
  | farthestPoint => ∃ v k, farthestKey distance donor = .ok (v, k) ∧ k < donor.points.size
  | refuse => False

/-- A donor whose distances are known can be measured. -/
theorem measures_of_ofMembers {donor : Donor α} {ds : Format × List ω} (hstrategy : strategy ≠ refuse)
    (hpos : donor.points.size ≠ 0)
    (hds : distance.ofMembers donor.points donor.center = .ok ds) :
    strategy.Measures distance donor := by
  cases strategy with
  | refuse => exact hstrategy rfl
  | largestCount => trivial
  | largestVariance =>
    change ∃ v, distanceVariance _ donor.points donor.center = .ok v
    unfold distanceVariance
    split
    · exact ⟨0, rfl⟩
    · rw [hds]
      exact ⟨_, rfl⟩
  | farthestPoint =>
    refine ⟨Scalar.greatest ds.2, Scalar.argmax ds.2, map_eq_ok.2 ⟨ds, hds, rfl⟩, ?_⟩
    rw [← Distance.length_ofMembers hds]
    exact Scalar.argmax_lt (Distance.ofMembers_ne_nil hpos hds)

/-- A donor with points left can be chosen. -/
def Admits (strategy : Strategy) (distance : Distance α ω) (donor : Donor α) : Prop :=
  match strategy with
  | largestVariance => ∃ v, varianceKey distance donor = .ok v ∧ Scalar.isBounded v = true
  | largestCount => True
  | farthestPoint => ∃ v k, farthestKey distance donor = .ok (v, k) ∧ Scalar.isBounded v = true
  | refuse => False

variable {clusters : Partition α} {points : Points α} {pool : Pool}
  (hwithin : ∀ c ∈ clusters, c.Within points) (hsize : pool.available.length = points.size)
include hwithin hsize

/-- Where every donor can be measured, a reseed takes a row that was available, or no donor can be
chosen. -/
theorem reseed_cases
    (hmeasures : ∀ c ∈ clusters, c.left pool.available ≠ [] →
      strategy.Measures distance (c.donor points pool.available))
    (hleft : ∃ c ∈ clusters, c.left pool.available ≠ []) :
    (∃ row next, strategy.reseed distance clusters pool = .ok row next ∧
        pool.Takes points row next) ∨
      strategy.reseed distance clusters pool = .error .emptyCluster pool ∧
        ∀ c ∈ clusters, c.left pool.available ≠ [] →
          ¬ strategy.Admits distance (c.donor points pool.available) := by
  have hnumbered := fun c hc => (hwithin c hc).numbered_rows hsize
  cases strategy with
  | refuse =>
    obtain ⟨c, hc, hne⟩ := hleft
    exact (hmeasures c hc hne).elim
  | largestVariance =>
    rw [reseed_largestVariance]
    refine (reseedBy_takes hwithin hsize hmeasures (any_gives hnumbered)).imp_right ?_
    rintro ⟨hreseed, hrefused⟩
    refine ⟨hreseed, ?_⟩
    rintro c hc hne ⟨v, hv, hbounded⟩
    rw [hrefused c hc hne v hv] at hbounded
    cases hbounded
  | largestCount =>
    have hkey : ∀ c ∈ clusters, c.left pool.available ≠ [] →
        ∃ k, countKey (c.donor points pool.available) = .ok k := fun _ _ _ => ⟨_, rfl⟩
    rw [reseed_largestCount]
    refine (reseedBy_takes hwithin hsize hkey (any_gives hnumbered)).imp_right ?_
    rintro ⟨-, hrefused⟩
    obtain ⟨c, hc, hne⟩ := hleft
    have hnone := hrefused c hc hne _ rfl
    rw [(hwithin c hc).size_donor, decide_eq_false_iff_not] at hnone
    exact absurd (List.length_pos_iff.2 hne) hnone
  | farthestPoint =>
    have hkey : ∀ c ∈ clusters, c.left pool.available ≠ [] →
        ∃ far, farthestKey distance (c.donor points pool.available) = .ok far := by
      intro c hc hne
      obtain ⟨v, k, hfar, -⟩ := hmeasures c hc hne
      exact ⟨(v, k), hfar⟩
    rw [reseed_farthestPoint]
    refine (reseedBy_takes hwithin hsize hkey (farthest_gives hnumbered)).imp_right ?_
    rintro ⟨hreseed, hrefused⟩
    refine ⟨hreseed, ?_⟩
    rintro c hc hne ⟨v, k, hv, hbounded⟩
    rw [hrefused c hc hne (v, k) hv] at hbounded
    cases hbounded

end Strategy

end Centroids

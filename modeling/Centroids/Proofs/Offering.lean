import Centroids.Proofs.Availability

/-! What clusters offer while points are taken, whatever points they hold.  A cluster that knows the
rows of its members gives those that are free, and the clusters on offer are those with such members,
in their order. -/
namespace Centroids

section Zip

variable {β γ : Type} {p : β → Bool}

theorem map_fst_filter_zip {xs : List β} {ys : List γ} (h : xs.length = ys.length) :
    ((xs.zip ys).filter (p ·.1)).map (·.1) = xs.filter p := by
  have hfilter : ((xs.zip ys).filter (p ∘ Prod.fst)).map Prod.fst =
      ((xs.zip ys).map Prod.fst).filter p := List.filter_map.symm
  rw [List.map_fst_zip h.le] at hfilter
  exact hfilter

theorem filter_zip_map_right {xs : List β} {ys : List γ} (h : xs.length = ys.length) :
    ((ys.zip (xs.map p)).filter (·.2)).map (·.1) = ((xs.zip ys).filter (p ·.1)).map (·.2) := by
  induction xs generalizing ys with
  | nil =>
    rw [List.length_eq_zero_iff.1 h.symm]
    rfl
  | cons x xs ih =>
    cases ys with
    | nil => cases h
    | cons y ys =>
      have hrest := ih (Nat.succ_injective h)
      rw [List.map_cons, List.zip_cons_cons, List.zip_cons_cons, List.filter_cons, List.filter_cons]
      cases p x with
      | true => simpa using hrest
      | false => simpa using hrest

end Zip

variable {α : Type}

namespace Cluster

/-- The members, each with the number of its row. -/
def members (c : Cluster α) : List (Int × List α) := (c.indices.getD []).zip c.points.rows

/-- The cluster knows the numbers of its members' rows, each one of so many. -/
def Numbered (size : Nat) (c : Cluster α) : Prop :=
  ∃ numbers, c.indices = some numbers ∧ ∀ number ∈ numbers, (place? size number).isSome

/-- The members whose rows have not been taken. -/
def remaining (available : List Bool) (c : Cluster α) : List (Int × List α) :=
  c.members.filter (isFree available ·.1)

/-- What the cluster can give while these rows are available. -/
def offering (available : List Bool) (c : Cluster α) : Donor α :=
  ⟨c.center, c.points.filter ((c.indices.getD []).map (isFree available)),
    (c.remaining available).map (·.1)⟩

/-- Whether there is a member whose row has not been taken. -/
def gives (available : List Bool) (c : Cluster α) : Bool := !(c.remaining available).isEmpty

variable {available : List Bool} {c : Cluster α}

theorem gives_iff : c.gives available = true ↔ c.remaining available ≠ [] := by
  simp [gives]

theorem Numbered.rows_offering {size : Nat} (h : c.Numbered size) (available : List Bool) :
    (c.offering available).points.rows = (c.remaining available).map (·.2) := by
  obtain ⟨numbers, hnumbers, -⟩ := h
  have hlength := c.length_indices numbers hnumbers
  unfold offering remaining members
  rw [hnumbers]
  exact filter_zip_map_right hlength

theorem Numbered.size_offering {size : Nat} (h : c.Numbered size) (available : List Bool) :
    (c.offering available).points.size = (c.remaining available).length := by
  unfold Points.size
  rw [h.rows_offering, List.length_map]

theorem Numbered.size_offering_ne_zero {size : Nat} (h : c.Numbered size)
    (hleft : c.remaining available ≠ []) : (c.offering available).points.size ≠ 0 := by
  rw [h.size_offering]
  exact (List.length_pos_iff.2 hleft).ne'

theorem exists_place {member : Int × List α} (h : member ∈ c.remaining available) :
    ∃ place, place? available.length member.1 = some place ∧ available[place]? = some true :=
  isFree_iff.1 (List.mem_filter.1 h).2

end Cluster

namespace Donor

variable {available : List Bool} {c : Cluster α}

theorem ofCluster_offering (h : c.Numbered available.length) :
    ofCluster available c = .ok (c.offering available) := by
  obtain ⟨numbers, hnumbers, hrange⟩ := h
  have hlength := c.length_indices numbers hnumbers
  have hkept : ((numbers.zip (numbers.map (isFree available))).filter (·.2)).map (·.1) =
      (c.remaining available).map (·.1) := by
    unfold Cluster.remaining Cluster.members
    rw [hnumbers, Option.getD_some, map_fst_filter_zip hlength]
    have hself := @filter_zip_map _ _ id (isFree available) numbers
    rwa [List.map_id, List.map_id] at hself
  unfold ofCluster
  rw [hnumbers]
  dsimp only
  rw [mask_eq hrange]
  change Except.ok (⟨_, _, _⟩ : Donor α) = _
  rw [hkept]
  unfold Cluster.offering
  rw [hnumbers]
  rfl

end Donor

theorem Random.exists_below {n : Nat} (hn : 0 < n) (g : Generator) :
    ∃ k < n, ∃ g', Random.below n g = .ok k g' := by
  have hbelow : ∃ k g', Random.below n g = .ok k g' := by
    unfold Random.below
    rw [if_neg hn.ne']
    split <;> exact ⟨_, _, rfl⟩
  rcases hbelow with ⟨k, g', h⟩
  exact ⟨k, Random.below_lt h, g', h⟩

section Give

variable {c : Cluster α} {pool : Pool}

/-- The member at a place among those that are left is the new center, and its row is available no
longer. -/
def Cluster.Yields (c : Cluster α) (pool : Pool) (k : Nat) (row : List α) (next : Pool) : Prop :=
  ∃ number place, (c.remaining pool.available)[k]? = some (number, row) ∧
    place? pool.available.length number = some place ∧ pool.available[place]? = some true ∧
    next.available = pool.available.set place false

theorem Donor.exists_take_offering (h : c.Numbered pool.available.length) {k : Nat}
    (hk : k < (c.remaining pool.available).length) (g : Generator) :
    ∃ row next, (c.offering pool.available).take k { pool with generator := g } = .ok row next ∧
      next.generator = g ∧ c.Yields pool k row next := by
  obtain ⟨⟨number, row⟩, hmember⟩ : ∃ member, (c.remaining pool.available)[k]? = some member :=
    ⟨_, List.getElem?_eq_getElem hk⟩
  obtain ⟨place, hplace, hfree⟩ := Cluster.exists_place (List.mem_of_getElem? hmember)
  have hrow : (c.offering pool.available).points.rows[k]? = some row := by
    rw [h.rows_offering, List.getElem?_map, hmember]
    rfl
  have hindex : (c.offering pool.available).indices[k]?.bind (place? pool.available.length) =
      some place := by
    change ((c.remaining pool.available).map (·.1))[k]?.bind _ = _
    rw [List.getElem?_map, hmember]
    exact hplace
  refine ⟨row, ⟨g, pool.available.set place false⟩, ?_, rfl, number, place, hmember, hplace, hfree,
    rfl⟩
  unfold Donor.take
  dsimp only
  rw [hrow, hindex]

/-- A random member is at the place that is drawn among those that are left. -/
theorem Donor.exists_takeAny_offering (h : c.Numbered pool.available.length)
    (hgives : c.remaining pool.available ≠ []) :
    ∃ k row next, (c.offering pool.available).takeAny pool = .ok row next ∧
      Random.below (c.remaining pool.available).length pool.generator = .ok k next.generator ∧
      c.Yields pool k row next := by
  have hpos := List.length_pos_iff.2 hgives
  obtain ⟨k, hk, g, hdraw⟩ := Random.exists_below hpos pool.generator
  have hdrawn : Taking.draw (Random.below (c.offering pool.available).points.size) pool =
      .ok k { pool with generator := g } := by
    unfold Taking.draw
    rw [h.size_offering, hdraw]
  obtain ⟨row, next, htake, rfl, hyields⟩ := Donor.exists_take_offering h hk g
  refine ⟨k, row, next, ?_, hdraw, hyields⟩
  unfold Donor.takeAny
  rw [step_bind_of_ok hdrawn]
  exact htake

end Give

namespace Strategy

variable {κ : Type} {key : Donor α → Except Fault κ} {clusters : Partition α} {available : List Bool}

theorem offer_offering {c : Cluster α} (h : c.Numbered available.length) :
    offer key available c =
      if c.gives available then (key (c.offering available)).map fun k => some (k, c.offering available)
      else .ok none := by
  unfold offer
  rw [Donor.ofCluster_offering h]
  change (if (c.offering available).points.size = 0 then _ else
    key (c.offering available) >>= fun k => _) = _
  rw [h.size_offering]
  cases hremaining : c.remaining available with
  | nil => simp [Cluster.gives, hremaining, pure, Except.pure]
  | cons member rest =>
    have hgives : c.gives available = true := by simp [Cluster.gives, hremaining]
    rw [hgives, if_pos rfl, List.length_cons, if_neg (Nat.succ_ne_zero _)]
    cases key (c.offering available) <;> rfl

/-- The clusters on offer are those with members left, in their order. -/
theorem offers_eq (h : ∀ c ∈ clusters, c.Numbered available.length) :
    offers key clusters available = (clusters.filter (Cluster.gives available)).mapM
      fun c => (key (c.offering available)).map (·, c.offering available) := by
  unfold offers
  induction clusters with
  | nil => rfl
  | cons c clusters ih =>
    rw [List.forall_mem_cons] at h
    have hrest := ih h.2
    rw [List.mapM_cons, offer_offering h.1, List.filter_cons]
    cases hgives : c.gives available with
    | false =>
      rw [if_neg Bool.false_ne_true, if_neg Bool.false_ne_true, ← hrest]
      cases clusters.mapM (offer key available) <;> rfl
    | true =>
      rw [if_pos rfl, if_pos rfl, List.mapM_cons, ← hrest]
      cases key (c.offering available) with
      | error e => rfl
      | ok k => cases clusters.mapM (offer key available) <;> rfl

end Strategy

end Centroids

import Centroids.Proofs.Reseeds

/-! Repeated reseeds by the farthest point.  Each takes, of all members that are left, one that is
farthest from its own center, and leaves the distances of the others as they are; so any number of
them select the farthest members one after the other. -/
namespace Centroids

/-- A member of a cluster, with its distance from the center. -/
structure Candidate (α : Type) where
  number : Int
  row : List α
  far : Float

theorem perm_cons_filter {β γ : Type} [BEq γ] [LawfulBEq γ] {key : β → γ} {xs : List β} {x : β}
    (hnodup : (xs.map key).Nodup) (hx : x ∈ xs) :
    (x :: xs.filter fun y => key y != key x).Perm xs := by
  obtain ⟨before, after, rfl⟩ := List.append_of_mem hx
  rw [List.map_append, List.map_cons, List.nodup_middle, List.nodup_cons, ← List.map_append] at hnodup
  have hkept : (before ++ after).filter (fun y => key y != key x) = before ++ after := by
    rw [List.filter_eq_self]
    intro y hy
    rw [bne_iff_ne]
    intro hsame
    exact hnodup.1 (hsame ▸ List.mem_map_of_mem hy)
  have hself : (key x != key x) = false := by simp
  rw [List.filter_append] at hkept ⊢
  rw [List.filter_cons, hself, if_neg Bool.false_ne_true, hkept]
  exact List.perm_middle.symm

theorem isFree_set {available : List Bool} {place : Nat} {number : Int} :
    isFree (available.set place false) number =
      (isFree available number && place? available.length number != some place) := by
  rw [Bool.eq_iff_iff, Bool.and_eq_true, bne_iff_ne, isFree_iff, isFree_iff, List.length_set]
  constructor
  · rintro ⟨p, hp, hfree⟩
    rw [List.getElem?_set] at hfree
    split at hfree
    · split at hfree <;> cases hfree
    · rename_i hne
      refine ⟨⟨p, hp, hfree⟩, ?_⟩
      rw [hp]
      exact fun hsame => hne (Option.some.inj hsame).symm
  · rintro ⟨⟨p, hp, hfree⟩, hne⟩
    refine ⟨p, hp, ?_⟩
    rw [List.getElem?_set_ne, hfree]
    rintro rfl
    exact hne hp

variable {α : Type} [Scalar α] [Widening α Float]

abbrev Formula.toDistance (f : Formula α) : Distance α Float := .metric (.formula f)

namespace Cluster

theorem members_eq_nil {α : Type} {c : Cluster α} (h : c.points.size = 0) : c.members = [] := by
  unfold members
  rw [List.length_eq_zero_iff.1 h, List.zip_nil_right]

/-- The members, measured all at once. -/
def candidates (distance : Distance α Float) (c : Cluster α) : List (Candidate α) :=
  match distance.ofMembers c.points c.center with
  | .ok ds => List.zipWith (fun member d => ⟨member.1, member.2, d⟩) c.members ds.2
  | .error _ => []

/-- The candidates whose rows have not been taken. -/
def candidatesLeft (distance : Distance α Float) (available : List Bool) (c : Cluster α) :
    List (Candidate α) :=
  (c.candidates distance).filter (isFree available ·.number)

section Formula

variable {f : Formula α} {c : Cluster α} {size : Nat} {ds : Format × List Float}

theorem exists_width (h : f.toDistance.ofMembers c.points c.center = .ok ds) :
    ∃ width, f.width? c.points.dim c.center.length = some width := by
  obtain ⟨distances, hdistances, -⟩ := bind_eq_ok.1 h
  unfold Formula.distances at hdistances
  cases hwidth : f.width? c.points.dim c.center.length with
  | none =>
    rw [hwidth] at hdistances
    cases hdistances
  | some width => exact ⟨width, rfl⟩

variable {width : Nat} (hwidth : f.width? c.points.dim c.center.length = some width)
include hwidth

theorem ofMembers_eq {points : Points α} (hdim : points.dim = c.points.dim) :
    f.toDistance.ofMembers points c.center =
      .ok (.native, points.rows.map fun row => Widening.widen (f.between width row c.center)) := by
  have hdistances : f.distances points c.center =
      .ok (points.rows.map fun row => f.between width row c.center) := by
    unfold Formula.distances
    rw [hdim, hwidth]
  change (f.distances points c.center >>= fun ds => _) = _
  rw [hdistances]
  exact congrArg (fun ds => Except.ok (_, ds)) (List.map_map ..)

/-- The distance of a member does not depend on the others. -/
theorem candidates_eq (h : c.Numbered size) : c.candidates f.toDistance =
    c.members.map fun member =>
      ⟨member.1, member.2, Widening.widen (f.between width member.2 c.center)⟩ := by
  obtain ⟨numbers, hnumbers, -⟩ := h
  have hlength := c.length_indices numbers hnumbers
  have hrows : c.points.rows = c.members.map (·.2) := by
    unfold members
    rw [hnumbers]
    exact (List.map_snd_zip hlength.ge).symm
  unfold candidates
  rw [ofMembers_eq hwidth rfl]
  dsimp only
  rw [hrows, List.map_map, List.zipWith_map_right, List.zipWith_self]
  rfl

theorem candidatesLeft_eq (h : c.Numbered size) (available : List Bool) :
    c.candidatesLeft f.toDistance available = (c.remaining available).map fun member =>
      ⟨member.1, member.2, Widening.widen (f.between width member.2 c.center)⟩ := by
  unfold candidatesLeft remaining
  rw [candidates_eq hwidth h, List.filter_map]
  rfl

end Formula

end Cluster

namespace Partition

def candidates (distance : Distance α Float) (available : List Bool) (clusters : Partition α) :
    List (Candidate α) :=
  clusters.flatMap (·.candidatesLeft distance available)

/-- The members whose rows have not been taken. -/
def remaining (available : List Bool) (clusters : Partition α) : List (Int × List α) :=
  clusters.flatMap (·.remaining available)

/-- Once a row is taken, the candidates are those in other rows. -/
theorem candidates_set (distance : Distance α Float) (available : List Bool) (place : Nat)
    (clusters : Partition α) : clusters.candidates distance (available.set place false) =
      (clusters.candidates distance available).filter
        fun t => place? available.length t.number != some place := by
  unfold candidates
  rw [List.filter_flatMap]
  apply congrArg (fun g => List.flatMap g clusters)
  funext c
  unfold Cluster.candidatesLeft
  rw [List.filter_filter]
  apply List.filter_congr
  intro t _
  rw [isFree_set, Bool.and_comm]

/-- Clusters that hold different rows among so many, and that the formula measures without a NaN. -/
structure Separate (f : Formula α) (size : Nat) (clusters : Partition α) : Prop where
  accepted : f.Accepted
  numbered : ∀ c ∈ clusters, c.Numbered size
  disjoint : (clusters.flatMap fun c => (c.indices.getD []).map (place? size)).Nodup
  measured : ∀ c ∈ clusters, c.points.size ≠ 0 →
    ∃ ds, f.toDistance.ofMembers c.points c.center = .ok ds ∧ ∀ d ∈ ds.2, Scalar.isNaN d = false

namespace Separate

variable {f : Formula α} {size : Nat} {clusters : Partition α} (h : clusters.Separate f size)
include h

theorem map_candidatesLeft {c : Cluster α} (hc : c ∈ clusters) (available : List Bool) :
    (c.candidatesLeft f.toDistance available).map (fun t => (t.number, t.row)) =
      c.remaining available := by
  by_cases hsize : c.points.size = 0
  · unfold Cluster.candidatesLeft Cluster.candidates Cluster.remaining
    rw [Cluster.members_eq_nil hsize]
    cases f.toDistance.ofMembers c.points c.center <;> rfl
  · obtain ⟨ds, hds, -⟩ := h.measured c hc hsize
    obtain ⟨width, hwidth⟩ := Cluster.exists_width hds
    rw [Cluster.candidatesLeft_eq hwidth (h.numbered c hc), List.map_map]
    exact List.map_id _

theorem ofMembers_offering {c : Cluster α} (hc : c ∈ clusters) {available : List Bool}
    (hleft : c.remaining available ≠ []) :
    f.toDistance.ofMembers (c.offering available).points c.center =
      .ok (.native, (c.candidatesLeft f.toDistance available).map (·.far)) := by
  have hsize : c.points.size ≠ 0 := by
    intro hzero
    apply hleft
    unfold Cluster.remaining
    rw [Cluster.members_eq_nil hzero, List.filter_nil]
  obtain ⟨ds, hds, -⟩ := h.measured c hc hsize
  obtain ⟨width, hwidth⟩ := Cluster.exists_width hds
  have hdim : (c.offering available).points.dim = c.points.dim := rfl
  rw [Cluster.ofMembers_eq hwidth hdim, Cluster.candidatesLeft_eq hwidth (h.numbered c hc),
    (h.numbered c hc).rows_offering, List.map_map, List.map_map]
  rfl

theorem isNaN_far {c : Cluster α} (hc : c ∈ clusters) {t : Candidate α}
    (ht : t ∈ c.candidates f.toDistance) : Scalar.isNaN t.far = false := by
  unfold Cluster.candidates at ht
  split at ht
  · rename_i ds hds
    have hsize : c.points.size ≠ 0 := by
      intro hzero
      rw [Cluster.members_eq_nil hzero, List.zipWith_nil_left] at ht
      cases ht
    obtain ⟨es, hes, hnan⟩ := h.measured c hc hsize
    cases hds.symm.trans hes
    obtain ⟨i, hi, rfl⟩ := List.mem_iff_getElem.1 ht
    rw [List.getElem_zipWith]
    exact hnan _ (List.getElem_mem _)
  · cases ht

theorem farthestKey_eq {c : Cluster α} (hc : c ∈ clusters) {available : List Bool}
    (hleft : c.remaining available ≠ []) :
    Strategy.farthestKey f.toDistance (c.offering available) =
      .ok (Scalar.greatest ((c.candidatesLeft f.toDistance available).map (·.far)),
        Scalar.argmax ((c.candidatesLeft f.toDistance available).map (·.far))) :=
  map_eq_ok.2 ⟨_, h.ofMembers_offering hc hleft, rfl⟩

theorem candidates_eq_nil_iff {available : List Bool} :
    clusters.candidates f.toDistance available = [] ↔
      ∀ c ∈ clusters, c.remaining available = [] := by
  unfold candidates
  rw [List.flatMap_eq_nil_iff]
  refine forall₂_congr fun c hc => ?_
  rw [← h.map_candidatesLeft hc, List.map_eq_nil_iff]

theorem length_candidates {available : List Bool} :
    (clusters.candidates f.toDistance available).length = (clusters.remaining available).length := by
  unfold candidates remaining
  rw [List.length_flatMap, List.length_flatMap]
  apply congrArg List.sum
  apply List.map_congr_left
  intro c hc
  rw [← h.map_candidatesLeft hc, List.length_map]

theorem isNaN_left {c : Cluster α} (hc : c ∈ clusters) (available : List Bool) :
    ∀ d ∈ (c.candidatesLeft f.toDistance available).map (·.far), Scalar.isNaN d = false := by
  intro d hd
  obtain ⟨t, ht, rfl⟩ := List.mem_map.1 hd
  exact h.isNaN_far hc (List.mem_filter.1 ht).1

theorem isNaN_offering {c : Cluster α} (hc : c ∈ clusters) {available : List Bool}
    (hleft : c.remaining available ≠ []) {ds : Format × List Float}
    (hds : f.toDistance.ofMembers (c.offering available).points c.center = .ok ds) :
    ∀ d ∈ ds.2, Scalar.isNaN d = false := by
  rw [h.ofMembers_offering hc hleft] at hds
  cases hds
  exact h.isNaN_left hc available

/-- No candidate of any cluster is farther than the one by which a cluster leads. -/
theorem le_of_leads {c : Cluster α} {available : List Bool} {far : Float × Nat}
    (hleads : c.Leads (Strategy.farthestKey f.toDistance) (Scalar.lt ·.1 ·.1) available clusters far)
    (hfar : Scalar.isNaN far.1 = false) {d : Cluster α} (hd : d ∈ clusters) {u : Candidate α}
    (hu : u ∈ d.candidatesLeft f.toDistance available) : Scalar.le u.far far.1 = true := by
  have hleft : d.remaining available ≠ [] := by
    rw [← h.map_candidatesLeft hd]
    exact List.ne_nil_of_mem (List.mem_map_of_mem hu)
  obtain ⟨l, hl, hless⟩ := hleads.not_exceeded (fun _ => Scalar.lt_asymm) hd hleft
  rw [h.farthestKey_eq hd hleft] at hl
  obtain rfl := Except.ok.inj hl
  have hmem : u.far ∈ (d.candidatesLeft f.toDistance available).map (·.far) := List.mem_map_of_mem hu
  have hnan := h.isNaN_left hd available
  have hgreatest := Scalar.greatest_mem (List.ne_nil_of_mem hmem)
  refine Scalar.le_trans (Scalar.le_greatest hnan _ hmem) ?_
  by_contra hnot
  rw [Scalar.lt_of_not_le (hnan _ hgreatest) hfar hnot] at hless
  cases hless

theorem nodup_candidates (available : List Bool) :
    ((clusters.candidates f.toDistance available).map fun t => place? size t.number).Nodup := by
  refine List.Nodup.sublist ?_ h.disjoint
  unfold candidates
  rw [List.map_flatMap]
  refine List.Sublist.flatMap_right _ ?_
  intro c hc
  obtain ⟨numbers, hindices, -⟩ := h.numbered c hc
  have hmembers : c.members.map (·.1) = numbers := by
    unfold Cluster.members
    rw [hindices]
    exact List.map_fst_zip (c.length_indices numbers hindices).le
  have hmap : (c.candidatesLeft f.toDistance available).map (fun t => place? size t.number) =
      ((c.remaining available).map (·.1)).map (place? size) := by
    rw [← h.map_candidatesLeft hc, List.map_map, List.map_map]
    rfl
  rw [hmap, hindices, Option.getD_some, ← hmembers]
  exact (List.filter_sublist.map _).map _

end Separate

end Partition

namespace Strategy

section Calls

variable [Formatted α] [SignKept α] {f : Formula α} {clusters : Partition α} {pool : Pool}
  (h : clusters.Separate f pool.available.length)
include h

/-- Nothing is taken when no member is left. -/
theorem farthest_stops_iff :
    (∃ next, farthestPoint.reseed f.toDistance clusters pool = .error .emptyCluster next) ↔
      clusters.candidates f.toDistance pool.available = [] := by
  rw [farthest_emptyCluster_iff h.accepted h.numbered, h.candidates_eq_nil_iff]
  refine forall₂_congr fun c hc => ?_
  constructor
  · intro hunranked
    by_contra hleft
    obtain ⟨ds, hds, d, hd, hnan⟩ := hunranked hleft
    rw [h.isNaN_offering hc hleft hds d hd] at hnan
    cases hnan
  · intro hnone hleft
    exact absurd hnone hleft

/-- Of all members that are left, one that is farthest from its center is taken. -/
theorem exists_farthest (hleft : clusters.candidates f.toDistance pool.available ≠ []) :
    ∃ t ∈ clusters.candidates f.toDistance pool.available, ∃ place next,
      farthestPoint.reseed f.toDistance clusters pool = .ok t.row next ∧
      place? pool.available.length t.number = some place ∧
      next.available = pool.available.set place false ∧
      ∀ u ∈ clusters.candidates f.toDistance pool.available, Scalar.le u.far t.far = true := by
  cases hreseed : farthestPoint.reseed f.toDistance clusters pool with
  | error e next =>
    have hfails := hreseed
    rw [reseed_farthestPoint] at hfails
    obtain ⟨-, hoffers | ⟨rfl, -⟩⟩ :=
      (reseedBy_error_iff h.numbered (farthest_gives h.numbered)).1 hfails
    · obtain ⟨c, hc, hleft, hfar⟩ := exists_error_of_offers h.numbered hoffers
      rw [h.farthestKey_eq hc hleft] at hfar
      cases hfar
    · exact absurd ((farthest_stops_iff h).1 ⟨next, hreseed⟩) hleft
  | ok row next =>
    obtain ⟨heffect, -⟩ := farthest_effect h.numbered fun c hc hleft ds => h.isNaN_offering hc hleft
    obtain ⟨c, hc, k, ⟨⟨far, hleads, ds, hds, hk, -⟩, -⟩, number, place, hmember, hplace, -, hnext⟩ :=
      heffect row next hreseed
    have hmeasure := h.ofMembers_offering hc hleads.remaining_ne_nil
    cases hmeasure.symm.trans hds
    rw [← h.map_candidatesLeft hc, List.getElem?_map, Option.map_eq_some_iff] at hmember
    obtain ⟨t, ht, hpair⟩ := hmember
    rw [List.getElem?_map, ht] at hk
    cases hk
    cases hpair
    have hmem := List.mem_of_getElem? ht
    refine ⟨t, List.mem_flatMap.2 ⟨c, hc, hmem⟩, place, next, rfl, hplace, hnext, ?_⟩
    intro u hu
    obtain ⟨d, hd, hu⟩ := List.mem_flatMap.1 hu
    exact h.le_of_leads hleads (h.isNaN_far hc (List.mem_filter.1 hmem).1) hd hu

/-- A call takes one candidate and leaves the others. -/
theorem exists_farthest_perm (hleft : clusters.candidates f.toDistance pool.available ≠ []) :
    ∃ t next, farthestPoint.reseed f.toDistance clusters pool = .ok t.row next ∧
      next.available.length = pool.available.length ∧
      (t :: clusters.candidates f.toDistance next.available).Perm
        (clusters.candidates f.toDistance pool.available) ∧
      ∀ u ∈ clusters.candidates f.toDistance pool.available, Scalar.le u.far t.far = true := by
  obtain ⟨t, ht, place, next, hreseed, hplace, hnext, hfarthest⟩ := exists_farthest h hleft
  refine ⟨t, next, hreseed, by rw [hnext, List.length_set], ?_, hfarthest⟩
  rw [hnext, Partition.candidates_set, ← hplace]
  exact perm_cons_filter (h.nodup_candidates _) ht

theorem farthest_run {m : Nat}
    (hm : m ≤ (clusters.candidates f.toDistance pool.available).length) :
    ∃ (taken : List (Candidate α)) (next : Pool),
      (List.replicate m clusters).mapM (farthestPoint.reseed f.toDistance) pool =
        .ok (taken.map (·.row)) next ∧
      taken.length = m ∧ next.available.length = pool.available.length ∧
      (taken ++ clusters.candidates f.toDistance next.available).Perm
        (clusters.candidates f.toDistance pool.available) ∧
      taken.Pairwise (fun t u => Scalar.le u.far t.far = true) ∧
      ∀ t ∈ taken, ∀ u ∈ clusters.candidates f.toDistance next.available,
        Scalar.le u.far t.far = true := by
  induction m generalizing pool with
  | zero => exact ⟨[], pool, rfl, rfl, rfl, .refl _, .nil, by simp⟩
  | succ m ih =>
    obtain ⟨t, middle, hreseed, hlength, hperm, hfarthest⟩ :=
      exists_farthest_perm h (List.ne_nil_of_length_pos (by omega))
    have hcount := hperm.length_eq
    rw [List.length_cons] at hcount
    rw [← hlength] at h
    obtain ⟨taken, next, hrun, hm, hkept, hrest, hpairwise, hleast⟩ := ih h (by omega)
    -- What is taken later, and what is left in the end, was left after the first call.
    have hlater : ∀ u ∈ taken ++ clusters.candidates f.toDistance next.available,
        Scalar.le u.far t.far = true := by
      intro u hu
      exact hfarthest u (hperm.subset (List.mem_cons_of_mem _ (hrest.subset hu)))
    refine ⟨t :: taken, next, ?_, by rw [List.length_cons, hm], hkept.trans hlength,
      (hrest.cons t).trans hperm, ?_, ?_⟩
    · rw [List.replicate_succ, List.mapM_cons, step_bind_of_ok hreseed, step_bind_of_ok hrun]
      rfl
    · exact .cons (fun u hu => hlater u (List.mem_append_left _ hu)) hpairwise
    · intro u hu v hv
      rcases List.mem_cons.1 hu with rfl | hu
      · exact hlater v (List.mem_append_right _ hv)
      · exact hleast u hu v hv

/-- Any number of calls, up to that of the members that are left, take as many different rows, the
farthest first. -/
theorem farthest_selects {m : Nat} (hm : m ≤ (clusters.remaining pool.available).length) :
    ∃ (taken : List (Candidate α)) (next : Pool),
      (List.replicate m clusters).mapM (farthestPoint.reseed f.toDistance) pool =
        .ok (taken.map (·.row)) next ∧
      taken.length = m ∧ (taken.map fun t => place? pool.available.length t.number).Nodup ∧
      (taken ++ clusters.candidates f.toDistance next.available).Perm
        (clusters.candidates f.toDistance pool.available) ∧
      taken.Pairwise (fun t u => Scalar.le u.far t.far = true) ∧
      (∀ t ∈ taken, ∀ u ∈ clusters.candidates f.toDistance next.available,
        Scalar.le u.far t.far = true) ∧
      ((∃ last, farthestPoint.reseed f.toDistance clusters next = .error .emptyCluster last) ↔
        m = (clusters.remaining pool.available).length) := by
  rw [← h.length_candidates] at hm ⊢
  obtain ⟨taken, next, hrun, hlength, hkept, hperm, hpairwise, hleast⟩ := farthest_run h hm
  have hdistinct := (hperm.map fun t => place? pool.available.length t.number).nodup_iff.2
    (h.nodup_candidates _)
  rw [List.map_append] at hdistinct
  refine ⟨taken, next, hrun, hlength, hdistinct.of_append_left, hperm, hpairwise, hleast, ?_⟩
  rw [← hkept] at h
  have hcount := hperm.length_eq
  rw [List.length_append, hlength] at hcount
  rw [farthest_stops_iff h, ← List.length_eq_zero_iff]
  omega

end Calls

instance {ε β : Type} (answer : Except ε β) (p : β → Prop) [DecidablePred p] :
    Decidable (∃ x, answer = .ok x ∧ p x) :=
  match answer with
  | .error _ => .isFalse fun ⟨_, h, _⟩ => nomatch h
  | .ok x => decidable_of_iff (p x) ⟨fun hx => ⟨x, rfl, hx⟩, fun ⟨_, h, hp⟩ => Except.ok.inj h ▸ hp⟩

theorem separate_tied :
    Partition.Separate (.euclidean false : Formula Float32) whole.available.length tied where
  accepted := trivial
  numbered := numbered_tied
  disjoint := by decide
  measured := by decide +kernel

/-- Of four members two are taken, and two more can be. -/
theorem farthest_selects_tied : ∃ (taken : List (Candidate Float32)) (next : Pool),
    (List.replicate 2 tied).mapM
      (farthestPoint.reseed (.euclidean false : Formula Float32).toDistance) whole =
        .ok (taken.map (·.row)) next ∧ taken.map (·.row) = [[3], [13]] ∧
    taken.Pairwise (fun t u => Scalar.le u.far t.far = true) ∧
    ¬ ∃ last, farthestPoint.reseed (.euclidean false : Formula Float32).toDistance tied next =
      .error .emptyCluster last := by
  have hrows : (match (List.replicate 2 tied).mapM
      (farthestPoint.reseed (.euclidean false : Formula Float32).toDistance) whole with
      | .ok rows _ => rows
      | .error _ _ => []) = [[3], [13]] := by decide +kernel
  have hfour : (Partition.remaining whole.available tied).length = 4 := by decide +kernel
  obtain ⟨taken, next, hrun, -, -, -, hpairwise, -, hstops⟩ :=
    farthest_selects (m := 2) separate_tied (by omega)
  rw [hrun] at hrows
  refine ⟨taken, next, hrun, hrows, hpairwise, ?_⟩
  rw [hstops, hfour]
  decide

end Strategy

end Centroids

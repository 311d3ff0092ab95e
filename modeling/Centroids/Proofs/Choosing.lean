import Centroids.Proofs.Offering
import Centroids.Proofs.Ranking

/-! The choice of a donor.  All strategies that take points compare the clusters on offer by a measure
of their own, and take a point from the first that no other exceeds.  What they take, and when they
take nothing, is said once for any measure. -/
namespace Centroids

variable {α : Type}

section Foremost

variable {κ β R : Type} [LinearOrder R] {admitted : κ → Bool} {less : κ → κ → Bool} {rank : κ → R}
  {entries : List (κ × β)} {e : κ × β}

/-- The measures of entries compare by a rank, in which those that are not admitted are the lowest. -/
structure Ordered (admitted : κ → Bool) (less : κ → κ → Bool) (rank : κ → R)
    (entries : List (κ × β)) : Prop where
  less_iff : ∀ x ∈ entries, ∀ y ∈ entries, less x.1 y.1 = true ↔ rank x.1 < rank y.1
  refused : ∀ x ∈ entries, ∀ y ∈ entries, admitted x.1 = false → admitted y.1 = true →
    rank x.1 < rank y.1

/-- The first of the entries with the greatest measure. -/
def Foremost (less : κ → κ → Bool) (entries : List (κ × β)) (e : κ × β) : Prop :=
  ∃ before after, entries = before ++ e :: after ∧
    (∀ x ∈ before, less x.1 e.1 = true) ∧ ∀ x ∈ after, less e.1 x.1 = false

theorem Ordered.init {x : κ × β} (h : Ordered admitted less rank (entries ++ [x])) :
    Ordered admitted less rank entries := by
  constructor
  · intro y hy z hz
    exact h.less_iff y (List.mem_append_left _ hy) z (List.mem_append_left _ hz)
  · intro y hy z hz
    exact h.refused y (List.mem_append_left _ hy) z (List.mem_append_left _ hz)

theorem Foremost.mem (h : Foremost less entries e) : e ∈ entries := by
  obtain ⟨before, after, rfl, -, -⟩ := h
  exact List.mem_append_right _ (List.mem_cons_self ..)

theorem Foremost.rank_le (h : Foremost less entries e) (hordered : Ordered admitted less rank entries) :
    ∀ x ∈ entries, rank x.1 ≤ rank e.1 := by
  have he := h.mem
  obtain ⟨before, after, hsplit, hbefore, hafter⟩ := h
  intro x hx
  have hless := hordered.less_iff x hx e he
  have hgreater := hordered.less_iff e he x hx
  rw [hsplit] at hx
  rcases List.mem_append.1 hx with hx | hx
  · exact (hless.1 (hbefore x hx)).le
  · rcases List.mem_cons.1 hx with rfl | hx
    · exact le_rfl
    · rw [hafter x hx] at hgreater
      exact le_of_not_gt fun hlt => Bool.false_ne_true (hgreater.2 hlt)

theorem Donor.foremost_concat (entries : List (κ × β)) (x : κ × β) :
    foremost admitted less (entries ++ [x]) =
      prefer admitted less (foremost admitted less entries) x := by
  unfold foremost
  rw [List.foldl_append]
  rfl

theorem Donor.foremost_mem (h : foremost admitted less entries = some e) : e ∈ entries := by
  induction entries using List.reverseRecOn generalizing e with
  | nil => cases h
  | append_singleton entries x ih =>
    rw [Donor.foremost_concat] at h
    unfold prefer at h
    cases hbest : foremost admitted less entries with
    | none =>
      rw [hbest] at h
      simp only [Option.ite_none_right_eq_some, Option.some.injEq] at h
      simp [h.2]
    | some b =>
      rw [hbest] at h
      dsimp only at h
      split at h
      · simp [Option.some.inj h]
      · exact List.mem_append_left _ (Option.some.inj h ▸ ih hbest)

/-- The entry that is chosen is admitted, and is the first with the greatest measure. -/
theorem Donor.foremost_of_eq_some (h : Ordered admitted less rank entries)
    (hforemost : foremost admitted less entries = some e) :
    admitted e.1 = true ∧ Foremost less entries e := by
  induction entries using List.reverseRecOn generalizing e with
  | nil => cases hforemost
  | append_singleton entries x ih =>
    have hx : x ∈ entries ++ [x] := List.mem_append_right _ (List.mem_singleton_self x)
    rw [Donor.foremost_concat] at hforemost
    cases hbest : foremost admitted less entries with
    | none =>
      rw [hbest] at hforemost
      simp only [prefer, Option.ite_none_right_eq_some, Option.some.injEq] at hforemost
      obtain ⟨hadmitted, rfl⟩ := hforemost
      refine ⟨hadmitted, entries, [], rfl, ?_, by simp⟩
      intro y hy
      have hy' := List.mem_append_left [x] hy
      have hlowest := h.refused y hy' x hx (Donor.foremost_eq_none.1 hbest y hy) hadmitted
      exact (h.less_iff y hy' x hx).2 hlowest
    | some b =>
      obtain ⟨hadmitted, hbefore⟩ := ih h.init hbest
      have hb := List.mem_append_left [x] hbefore.mem
      rw [hbest] at hforemost
      simp only [prefer] at hforemost
      split at hforemost
      · rename_i hless
        obtain rfl := Option.some.inj hforemost
        have hlt := (h.less_iff b hb x hx).1 hless
        refine ⟨?_, entries, [], rfl, ?_, by simp⟩
        · by_contra hrefused
          have hlow := h.refused x hx b hb (Bool.eq_false_iff.2 hrefused) hadmitted
          exact lt_asymm hlt hlow
        · intro y hy
          have hle := hbefore.rank_le h.init y hy
          exact (h.less_iff y (List.mem_append_left _ hy) x hx).2 (hle.trans_lt hlt)
      · rename_i hless
        obtain rfl := Option.some.inj hforemost
        obtain ⟨before, after, hsplit, hfirst, hafter⟩ := hbefore
        refine ⟨hadmitted, before, after ++ [x], by simp [hsplit], hfirst, ?_⟩
        intro y hy
        rcases List.mem_append.1 hy with hy | hy
        · exact hafter y hy
        · rw [List.mem_singleton.1 hy]
          exact Bool.eq_false_iff.2 hless

end Foremost

/-- Of the clusters with members left, the first whose measure no other exceeds. -/
def Cluster.Leads {κ : Type} (key : Donor α → Except Fault κ) (less : κ → κ → Bool)
    (available : List Bool) (clusters : Partition α) (c : Cluster α) (k : κ) : Prop :=
  ∃ before after, clusters = before ++ c :: after ∧
    c.remaining available ≠ [] ∧ key (c.offering available) = .ok k ∧
    (∀ d ∈ before, d.remaining available ≠ [] →
      ∃ l, key (d.offering available) = .ok l ∧ less l k = true) ∧
    ∀ d ∈ after, d.remaining available ≠ [] →
      ∃ l, key (d.offering available) = .ok l ∧ less k l = false

section Leads

variable {κ : Type} {key : Donor α → Except Fault κ} {less : κ → κ → Bool} {available : List Bool}
  {clusters : Partition α} {c : Cluster α} {k : κ}

theorem Cluster.Leads.remaining_ne_nil (h : c.Leads key less available clusters k) :
    c.remaining available ≠ [] := by
  obtain ⟨-, -, -, hleft, -⟩ := h
  exact hleft

theorem Cluster.Leads.key_eq (h : c.Leads key less available clusters k) :
    key (c.offering available) = .ok k := by
  obtain ⟨-, -, -, -, hkey, -⟩ := h
  exact hkey

/-- No cluster with members left exceeds the one that leads. -/
theorem Cluster.Leads.not_exceeded (h : c.Leads key less available clusters k)
    (hasymm : ∀ l, less l k = true → less k l = false) {d : Cluster α} (hd : d ∈ clusters)
    (hleft : d.remaining available ≠ []) :
    ∃ l, key (d.offering available) = .ok l ∧ less k l = false := by
  have hkey := h.key_eq
  obtain ⟨before, after, rfl, -, -, hbefore, hafter⟩ := h
  rcases List.mem_append.1 hd with hd | hd
  · obtain ⟨l, hl, hless⟩ := hbefore d hd hleft
    exact ⟨l, hl, hasymm l hless⟩
  · rcases List.mem_cons.1 hd with rfl | hd
    · refine ⟨k, hkey, Bool.eq_false_iff.2 ?_⟩
      intro hless
      rw [hasymm k hless] at hless
      cases hless
    · exact hafter d hd hleft

end Leads

theorem exists_of_mapM_eq_error {β γ : Type} {f : β → Except Fault γ} {xs : List β} {e : Fault}
    (h : xs.mapM f = .error e) : ∃ x ∈ xs, f x = .error e := by
  induction xs with
  | nil => cases h
  | cons x xs ih =>
    rw [List.mapM_cons] at h
    cases hx : f x with
    | error e' =>
      rw [hx] at h
      cases h
      exact ⟨x, List.mem_cons_self .., hx⟩
    | ok y =>
      cases hxs : xs.mapM f with
      | ok ys =>
        rw [hx, hxs] at h
        cases h
      | error e' =>
        rw [hx, hxs] at h
        cases h
        obtain ⟨z, hz, hfz⟩ := ih hxs
        exact ⟨z, List.mem_cons_of_mem _ hz, hfz⟩

namespace Strategy

section Offers

variable {κ : Type} {key : Donor α → Except Fault κ} {clusters : Partition α}
  {available : List Bool} {entries : List (κ × Donor α)}

theorem exists_key_of_map_eq {givers : Partition α}
    (h : givers.map (fun c => (key (c.offering available)).map (·, c.offering available)) =
      entries.map .ok) {c : Cluster α} (hc : c ∈ givers) :
    ∃ k, key (c.offering available) = .ok k ∧ (k, c.offering available) ∈ entries := by
  have hmem := List.mem_map_of_mem
    (f := fun c => (key (c.offering available)).map (·, c.offering available)) hc
  rw [h] at hmem
  obtain ⟨e, he, hentry⟩ := List.mem_map.1 hmem
  obtain ⟨k, hk, rfl⟩ := map_eq_ok.1 hentry.symm
  exact ⟨k, hk, he⟩

variable (hnumbered : ∀ c ∈ clusters, c.Numbered available.length)
include hnumbered

/-- The entries are those of the clusters that give, in their order. -/
theorem map_entries (h : offers key clusters available = .ok entries) :
    (clusters.filter (Cluster.gives available)).map
      (fun c => (key (c.offering available)).map (·, c.offering available)) =
        entries.map .ok := by
  rw [offers_eq hnumbered] at h
  exact mapM_eq_ok.1 h

theorem exists_cluster_of_mem (h : offers key clusters available = .ok entries)
    {e : κ × Donor α} (he : e ∈ entries) :
    ∃ c ∈ clusters, c.remaining available ≠ [] ∧ e.2 = c.offering available ∧
      key (c.offering available) = .ok e.1 := by
  have hmem : (.ok e : Except Fault _) ∈ entries.map .ok := List.mem_map_of_mem he
  rw [← map_entries hnumbered h] at hmem
  obtain ⟨c, hc, hentry⟩ := List.mem_map.1 hmem
  obtain ⟨k, hk, rfl⟩ := map_eq_ok.1 hentry
  obtain ⟨hc, hgives⟩ := List.mem_filter.1 hc
  exact ⟨c, hc, Cluster.gives_iff.1 hgives, rfl, hk⟩

theorem exists_mem_of_cluster (h : offers key clusters available = .ok entries) {c : Cluster α}
    (hc : c ∈ clusters) (hgives : c.remaining available ≠ []) :
    ∃ k, key (c.offering available) = .ok k ∧ (k, c.offering available) ∈ entries :=
  exists_key_of_map_eq (map_entries hnumbered h)
    (List.mem_filter.2 ⟨hc, Cluster.gives_iff.2 hgives⟩)

/-- Where the offers fail, so does the measure of a cluster with members left. -/
theorem exists_error_of_offers {f : Fault} (h : offers key clusters available = .error f) :
    ∃ c ∈ clusters, c.remaining available ≠ [] ∧ key (c.offering available) = .error f := by
  rw [offers_eq hnumbered] at h
  obtain ⟨c, hc, hkey⟩ := exists_of_mapM_eq_error h
  obtain ⟨hc, hgives⟩ := List.mem_filter.1 hc
  refine ⟨c, hc, Cluster.gives_iff.1 hgives, ?_⟩
  cases hvalue : key (c.offering available) with
  | ok k =>
    rw [hvalue] at hkey
    cases hkey
  | error e =>
    rw [hvalue] at hkey
    exact congrArg Except.error (Except.error.inj hkey)

theorem exists_leads {less : κ → κ → Bool} {e : κ × Donor α}
    (h : offers key clusters available = .ok entries) (hforemost : Foremost less entries e) :
    ∃ c ∈ clusters, e.2 = c.offering available ∧ c.Leads key less available clusters e.1 := by
  obtain ⟨before, after, rfl, hbefore, hafter⟩ := hforemost
  have hentries := map_entries hnumbered h
  rw [List.map_append, List.map_cons, List.map_eq_append_iff] at hentries
  obtain ⟨first, others, hsplit, hfirst, hothers⟩ := hentries
  obtain ⟨c, rest, rfl, hentry, hrest⟩ := List.map_eq_cons_iff.1 hothers
  obtain ⟨k, hk, rfl⟩ := map_eq_ok.1 hentry
  -- The clusters that do not give stand between those that do.
  obtain ⟨u, v, rfl, hu, hv⟩ := List.filter_eq_append_iff.1 hsplit
  obtain ⟨w, x, rfl, hw, hgives, hx⟩ := List.filter_eq_cons_iff.1 hv
  refine ⟨c, by simp, rfl, u ++ w, x, by simp, Cluster.gives_iff.1 hgives, hk, ?_, ?_⟩
  · intro d hd hleft
    have hgives := Cluster.gives_iff.2 hleft
    rcases List.mem_append.1 hd with hd | hd
    · have hmem := List.mem_filter.2 ⟨hd, hgives⟩
      rw [hu] at hmem
      obtain ⟨l, hl, hentry⟩ := exists_key_of_map_eq hfirst hmem
      exact ⟨l, hl, hbefore _ hentry⟩
    · exact absurd hgives (hw d hd)
  · intro d hd hleft
    have hmem := List.mem_filter.2 ⟨hd, Cluster.gives_iff.2 hleft⟩
    rw [hx] at hmem
    obtain ⟨l, hl, hentry⟩ := exists_key_of_map_eq hrest hmem
    exact ⟨l, hl, hafter _ hentry⟩

end Offers

variable {κ : Type}

/-- Takes a point from the donor that is foremost by a measure. -/
def reseedBy (key : Donor α → Except Fault κ) (admitted : κ → Bool) (less : κ → κ → Bool)
    (give : κ × Donor α → Taking (List α)) (clusters : Partition α) : Taking (List α) := do
  let offers ← offers key clusters (← get).available
  match Donor.foremost admitted less offers with
  | some e => give e
  | none => throw .emptyCluster

/-- The number of members that are left. -/
def countKey (donor : Donor α) : Except Fault Nat := .ok donor.points.size

section Measures

variable {ω : Type} [Scalar α] [Sampled ω] [Widening α ω] (distance : Distance α ω)
  (clusters : Partition α)

theorem reseed_largestVariance : reseed .largestVariance distance clusters =
    reseedBy (varianceKey distance) Scalar.isBounded Scalar.lt (·.2.takeAny) clusters := by
  unfold reseed reseedBy
  refine bind_congr fun pool => bind_congr fun entries => ?_
  rcases Donor.foremost Scalar.isBounded Scalar.lt entries with _ | ⟨k, donor⟩ <;> rfl

theorem reseed_largestCount : reseed .largestCount distance clusters =
    reseedBy countKey (0 < ·) (· < ·) (·.2.takeAny) clusters := by
  unfold reseed reseedBy
  refine bind_congr fun pool => bind_congr fun entries => ?_
  rcases Donor.foremost _ _ entries with _ | ⟨k, donor⟩ <;> rfl

theorem reseed_farthestPoint : reseed .farthestPoint distance clusters =
    reseedBy (farthestKey distance) (Scalar.isBounded ·.1) (Scalar.lt ·.1 ·.1)
      (fun e => e.2.take e.1.2) clusters := by
  unfold reseed reseedBy
  refine bind_congr fun pool => bind_congr fun entries => ?_
  rcases Donor.foremost _ _ entries with _ | ⟨⟨v, k⟩, donor⟩ <;> rfl

end Measures

section Outcome

variable {key : Donor α → Except Fault κ} {admitted : κ → Bool} {less : κ → κ → Bool}
  {give : κ × Donor α → Taking (List α)} {clusters : Partition α} {pool next : Pool}

theorem reseedBy_eq : reseedBy key admitted less give clusters pool =
    match offers key clusters pool.available with
    | .error f => .error f pool
    | .ok entries =>
      match Donor.foremost admitted less entries with
      | some e => give e pool
      | none => .error .emptyCluster pool := by
  have hget : (get : Taking Pool) pool = .ok pool pool := rfl
  unfold reseedBy
  rw [step_bind_of_ok hget]
  cases hoffers : offers key clusters pool.available with
  | error f => exact step_bind_of_error rfl
  | ok entries =>
    rw [step_bind_of_ok (step_lift_eq_ok.2 ⟨rfl, rfl⟩)]
    dsimp only
    cases Donor.foremost admitted less entries <;> rfl

theorem reseedBy_eq_ok {row : List α} :
    reseedBy key admitted less give clusters pool = .ok row next ↔
      ∃ entries e, offers key clusters pool.available = .ok entries ∧
        Donor.foremost admitted less entries = some e ∧ give e pool = .ok row next := by
  rw [reseedBy_eq]
  cases offers key clusters pool.available with
  | error f => simp
  | ok entries =>
    cases hforemost : Donor.foremost admitted less entries <;> simp [hforemost, -Prod.exists]

/-- The choice fails before anything is drawn, unless the donor does not give. -/
theorem reseedBy_eq_error {f : Fault} :
    reseedBy key admitted less give clusters pool = .error f next ↔
      offers key clusters pool.available = .error f ∧ next = pool ∨
      ∃ entries, offers key clusters pool.available = .ok entries ∧
        (Donor.foremost admitted less entries = none ∧ f = .emptyCluster ∧ next = pool ∨
          ∃ e, Donor.foremost admitted less entries = some e ∧ give e pool = .error f next) := by
  rw [reseedBy_eq]
  cases offers key clusters pool.available with
  | error e => simp [eq_comm]
  | ok entries =>
    cases hforemost : Donor.foremost admitted less entries <;>
      simp [hforemost, eq_comm, -Prod.exists]

/-- Where clusters with members left can be measured, one of them gives, or none has a measure that
counts. -/
theorem reseedBy_cases (admitted : κ → Bool) (less : κ → κ → Bool)
    (give : κ × Donor α → Taking (List α)) (hnumbered : ∀ c ∈ clusters, c.Numbered pool.available.length)
    (hkey : ∀ c ∈ clusters, c.remaining pool.available ≠ [] →
      ∃ k, key (c.offering pool.available) = .ok k) :
    (∃ c ∈ clusters, ∃ k, c.remaining pool.available ≠ [] ∧
        key (c.offering pool.available) = .ok k ∧
        reseedBy key admitted less give clusters pool = give (k, c.offering pool.available) pool) ∨
      reseedBy key admitted less give clusters pool = .error .emptyCluster pool ∧
        ∀ c ∈ clusters, c.remaining pool.available ≠ [] → ∀ k,
          key (c.offering pool.available) = .ok k → admitted k = false := by
  rw [reseedBy_eq]
  cases hoffers : offers key clusters pool.available with
  | error f =>
    obtain ⟨c, hc, hleft, hfail⟩ := exists_error_of_offers hnumbered hoffers
    obtain ⟨k, hk⟩ := hkey c hc hleft
    rw [hk] at hfail
    cases hfail
  | ok entries =>
    dsimp only
    cases hforemost : Donor.foremost admitted less entries with
    | none =>
      refine .inr ⟨rfl, ?_⟩
      intro c hc hleft k hk
      obtain ⟨l, hl, hmem⟩ := exists_mem_of_cluster hnumbered hoffers hc hleft
      cases hk.symm.trans hl
      exact Donor.foremost_eq_none.1 hforemost _ hmem
    | some e =>
      obtain ⟨k, donor⟩ := e
      obtain ⟨c, hc, hleft, rfl, hk⟩ :=
        exists_cluster_of_mem hnumbered hoffers (Donor.foremost_mem hforemost)
      exact .inl ⟨c, hc, k, hleft, hk, rfl⟩

end Outcome

end Strategy

end Centroids

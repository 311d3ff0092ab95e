import Centroids.Proofs.Choosing
import Centroids.Proofs.Measuring

/-! What a reseed does.  It takes one member of the first cluster that leads by the measure of the
strategy, or it leaves everything as it is; and it takes none exactly when no cluster with members
left has a measure that counts. -/
namespace Centroids

variable {α : Type}

namespace Strategy

section By

variable {κ R : Type} [LinearOrder R] {key : Donor α → Except Fault κ} {admitted : κ → Bool}
  {less : κ → κ → Bool} {rank : κ → R} {give : κ × Donor α → Taking (List α)}
  {clusters : Partition α} {pool next : Pool}
  (hnumbered : ∀ c ∈ clusters, c.Numbered pool.available.length)
include hnumbered

theorem exists_leader {row : List α}
    (hordered : ∀ entries, offers key clusters pool.available = .ok entries →
      Ordered admitted less rank entries)
    (h : reseedBy key admitted less give clusters pool = .ok row next) :
    ∃ c ∈ clusters, ∃ k, c.Leads key less pool.available clusters k ∧
      give (k, c.offering pool.available) pool = .ok row next := by
  obtain ⟨entries, ⟨k, donor⟩, hoffers, hforemost, hgive⟩ := reseedBy_eq_ok.1 h
  obtain ⟨-, hforemost⟩ := Donor.foremost_of_eq_some (hordered entries hoffers) hforemost
  obtain ⟨c, hc, rfl, hleads⟩ := exists_leads hnumbered hoffers hforemost
  exact ⟨c, hc, k, hleads, hgive⟩

variable (hgive : ∀ c ∈ clusters, c.remaining pool.available ≠ [] → ∀ k,
    key (c.offering pool.available) = .ok k → ∃ i row next,
      give (k, c.offering pool.available) pool = .ok row next ∧ c.Yields pool i row next)
include hgive

/-- Where every donor gives, only the choice of one can fail. -/
theorem reseedBy_error_iff {f : Fault} :
    reseedBy key admitted less give clusters pool = .error f next ↔ next = pool ∧
      (offers key clusters pool.available = .error f ∨
        f = .emptyCluster ∧ ∃ entries, offers key clusters pool.available = .ok entries ∧
          Donor.foremost admitted less entries = none) := by
  rw [reseedBy_eq_error]
  constructor
  · rintro (⟨hoffers, rfl⟩ | ⟨entries, hoffers, ⟨hnone, rfl, rfl⟩ | ⟨⟨k, donor⟩, hsome, hfail⟩⟩)
    · exact ⟨rfl, .inl hoffers⟩
    · exact ⟨rfl, .inr ⟨rfl, entries, hoffers, hnone⟩⟩
    · obtain ⟨c, hc, hleft, rfl, hk⟩ :=
        exists_cluster_of_mem hnumbered hoffers (Donor.foremost_mem hsome)
      obtain ⟨i, row, taken, hgives, -⟩ := hgive c hc hleft k hk
      rw [hgives] at hfail
      cases hfail
  · rintro ⟨rfl, hoffers | ⟨rfl, entries, hoffers, hnone⟩⟩
    · exact .inl ⟨hoffers, rfl⟩
    · exact .inr ⟨entries, hoffers, .inl ⟨hnone, rfl, rfl⟩⟩

/-- No point is taken, for want of a donor, when no cluster with members left has a measure that
counts. -/
theorem reseedBy_emptyCluster_iff (hkey : ∀ donor, key donor ≠ .error .emptyCluster) :
    (∃ next, reseedBy key admitted less give clusters pool = .error .emptyCluster next) ↔
      ∀ c ∈ clusters, c.remaining pool.available ≠ [] →
        ∃ k, key (c.offering pool.available) = .ok k ∧ admitted k = false := by
  simp only [reseedBy_error_iff hnumbered hgive, exists_eq_left, true_and]
  constructor
  · rintro (hoffers | ⟨entries, hoffers, hnone⟩) c hc hleft
    · obtain ⟨d, -, -, hfail⟩ := exists_error_of_offers hnumbered hoffers
      exact absurd hfail (hkey _)
    · obtain ⟨k, hk, hmem⟩ := exists_mem_of_cluster hnumbered hoffers hc hleft
      exact ⟨k, hk, Donor.foremost_eq_none.1 hnone _ hmem⟩
  · intro hrefused
    cases hoffers : offers key clusters pool.available with
    | error f =>
      obtain ⟨c, hc, hleft, hfail⟩ := exists_error_of_offers hnumbered hoffers
      obtain ⟨k, hk, -⟩ := hrefused c hc hleft
      rw [hk] at hfail
      cases hfail
    | ok entries =>
      refine .inr ⟨entries, rfl, Donor.foremost_eq_none.2 ?_⟩
      rintro ⟨k, donor⟩ hmem
      obtain ⟨c, hc, hleft, -, hk⟩ := exists_cluster_of_mem hnumbered hoffers hmem
      obtain ⟨l, hl, hadmitted⟩ := hrefused c hc hleft
      rw [hk] at hl
      rwa [Except.ok.inj hl]

end By

section Donors

variable {κ : Type} {key : Donor α → Except Fault κ} {clusters : Partition α} {pool : Pool}
  (hnumbered : ∀ c ∈ clusters, c.Numbered pool.available.length)
include hnumbered

/-- Where a random member is taken, it is one of the cluster that leads. -/
theorem takeAny_effect {R : Type} [LinearOrder R] {admitted : κ → Bool} {less : κ → κ → Bool}
    {rank : κ → R} (hordered : ∀ entries, offers key clusters pool.available = .ok entries →
      Ordered admitted less rank entries) :
    (∀ row next, reseedBy key admitted less (·.2.takeAny) clusters pool = .ok row next →
      ∃ c ∈ clusters, ∃ k, ((∃ v, c.Leads key less pool.available clusters v) ∧
        Random.below (c.remaining pool.available).length pool.generator = .ok k next.generator) ∧
        c.Yields pool k row next) ∧
    ∀ f next, reseedBy key admitted less (·.2.takeAny) clusters pool = .error f next →
      next = pool := by
  constructor
  · intro row next h
    obtain ⟨c, hc, v, hleads, hgive⟩ := exists_leader hnumbered hordered h
    obtain ⟨k, row, taken, htake, hdraw, hyields⟩ :=
      Donor.exists_takeAny_offering (hnumbered c hc) hleads.remaining_ne_nil
    cases htake.symm.trans hgive
    exact ⟨c, hc, k, ⟨⟨v, hleads⟩, hdraw⟩, hyields⟩
  · intro f next h
    exact ((reseedBy_error_iff hnumbered (any_gives hnumbered)).1 h).1

end Donors

section Comparable

variable {κ β : Type} {entries : List (κ × β)}

/-- Measures that are not NaN compare by their ranks. -/
theorem ordered_of_isNaN (measure : κ → Float)
    (h : ∀ e ∈ entries, Scalar.isNaN (measure e.1) = false) :
    Ordered (fun k => Scalar.isBounded (measure k)) (fun k l => Scalar.lt (measure k) (measure l))
      (fun k => Ranked.rank (measure k)) entries := by
  constructor
  · intro x hx y hy
    rw [Ranked.lt_iff]
    simp [h x hx, h y hy]
  · intro x hx y hy hrefused hadmitted
    rw [isBounded_iff] at hadmitted
    rw [Bool.eq_false_iff, Ne, isBounded_iff] at hrefused
    refine lt_of_le_of_lt ?_ hadmitted.2
    exact le_of_not_gt fun hlow => hrefused ⟨h x hx, hlow⟩

theorem ordered_counts {entries : List (Nat × β)} :
    Ordered (fun n => decide (0 < n)) (fun n m => decide (n < m)) (id : Nat → Nat) entries := by
  constructor
  · simp
  · intro x _ y _ hrefused hadmitted
    simp only [decide_eq_false_iff_not, decide_eq_true_eq, id] at hrefused hadmitted ⊢
    omega

end Comparable

section Reseed

variable [Scalar α] [Widening α Float] {distance : Distance α Float} {clusters : Partition α}
  {strategy : Strategy} {pool : Pool}

/-- The member at a place is the first of those that are farthest from the center. -/
def FirstFarthest (distance : Distance α Float) (donor : Donor α) (k : Nat) (far : Float) : Prop :=
  ∃ ds, distance.ofMembers donor.points donor.center = .ok ds ∧ ds.2[k]? = some far ∧
    (∀ d ∈ ds.2, Scalar.le d far = true) ∧
    ∀ j d, j < k → ds.2[j]? = some d → Scalar.lt d far = true

/-- The cluster from which a strategy takes a point, the place of that point among the members that
are left, and the generator after the choice. -/
def Chooses (strategy : Strategy) (distance : Distance α Float) (clusters : Partition α) (pool : Pool)
    (c : Cluster α) (k : Nat) (g : Generator) : Prop :=
  match strategy with
  | largestVariance =>
    (∃ v, c.Leads (varianceKey distance) Scalar.lt pool.available clusters v) ∧
      Random.below (c.remaining pool.available).length pool.generator = .ok k g
  | largestCount =>
    (∃ n, c.Leads countKey (· < ·) pool.available clusters n) ∧
      Random.below (c.remaining pool.available).length pool.generator = .ok k g
  | farthestPoint =>
    (∃ far, c.Leads (farthestKey distance) (Scalar.lt ·.1 ·.1) pool.available clusters (far, k) ∧
      FirstFarthest distance (c.offering pool.available) k far) ∧ g = pool.generator
  | refuse => False

/-- No distance from a member to the center is a NaN, nor is the variance of the distances. -/
structure Comparable (distance : Distance α Float) (donor : Donor α) : Prop where
  distances : ∀ ds, distance.ofMembers donor.points donor.center = .ok ds →
    ∀ d ∈ ds.2, Scalar.isNaN d = false
  variance : ∀ v, distanceVariance distance donor.points donor.center = .ok v →
    Scalar.isNaN v = false

instance {ε β : Type} (answer : Except ε β) (p : β → Prop) [DecidablePred p] :
    Decidable (∀ x, answer = .ok x → p x) :=
  match answer with
  | .error _ => .isTrue fun _ h => nomatch h
  | .ok x => decidable_of_iff (p x) ⟨fun hx _ h => Except.ok.inj h ▸ hx, fun h => h x rfl⟩

instance (donor : Donor α) : Decidable (Comparable distance donor) :=
  decidable_of_iff (_ ∧ _) ⟨fun h => ⟨h.1, h.2⟩, fun h => ⟨h.distances, h.variance⟩⟩

theorem firstFarthest_of_farthestKey {donor : Donor α} {far : Float × Nat}
    (hpos : donor.points.size ≠ 0)
    (hnan : ∀ ds, distance.ofMembers donor.points donor.center = .ok ds →
      ∀ d ∈ ds.2, Scalar.isNaN d = false)
    (h : farthestKey distance donor = .ok far) : FirstFarthest distance donor far.2 far.1 := by
  obtain ⟨ds, hds, rfl⟩ := map_eq_ok.1 h
  have hne := Distance.ofMembers_ne_nil hpos hds
  refine ⟨ds, hds, Scalar.getElem?_argmax hne, Scalar.le_greatest (hnan ds hds), ?_⟩
  intro j d hj hd
  exact Scalar.lt_greatest_of_lt_argmax (hnan ds hds) hj hd

section Effect

variable (hnumbered : ∀ c ∈ clusters, c.Numbered pool.available.length)
include hnumbered

theorem ordered_variances
    (hnan : ∀ c ∈ clusters, c.remaining pool.available ≠ [] → ∀ v,
      varianceKey distance (c.offering pool.available) = .ok v → Scalar.isNaN v = false)
    {entries : List (Float × Donor α)}
    (h : offers (varianceKey distance) clusters pool.available = .ok entries) :
    Ordered Scalar.isBounded Scalar.lt Ranked.rank entries := by
  refine ordered_of_isNaN id ?_
  intro e he
  obtain ⟨c, hc, hleft, -, hkey⟩ := exists_cluster_of_mem hnumbered h he
  exact hnan c hc hleft _ hkey

variable (hnan : ∀ c ∈ clusters, c.remaining pool.available ≠ [] → ∀ ds,
  distance.ofMembers (c.offering pool.available).points c.center = .ok ds →
    ∀ d ∈ ds.2, Scalar.isNaN d = false)
include hnan

theorem ordered_farthest {entries : List ((Float × Nat) × Donor α)}
    (h : offers (farthestKey distance) clusters pool.available = .ok entries) :
    Ordered (Scalar.isBounded ·.1) (Scalar.lt ·.1 ·.1) (fun k => Ranked.rank k.1) entries := by
  refine ordered_of_isNaN Prod.fst ?_
  intro e he
  obtain ⟨c, hc, hleft, -, hkey⟩ := exists_cluster_of_mem hnumbered h he
  obtain ⟨ds, hds, hfar⟩ := map_eq_ok.1 hkey
  rw [← hfar]
  have hpos := (hnumbered c hc).size_offering_ne_zero hleft
  exact hnan c hc hleft ds hds _ (Scalar.greatest_mem (Distance.ofMembers_ne_nil hpos hds))

/-- Where the farthest point is taken, it is the first such member of the cluster that leads. -/
theorem farthest_effect :
    (∀ row next, farthestPoint.reseed distance clusters pool = .ok row next →
      ∃ c ∈ clusters, ∃ k, ((∃ far,
        c.Leads (farthestKey distance) (Scalar.lt ·.1 ·.1) pool.available clusters (far, k) ∧
          FirstFarthest distance (c.offering pool.available) k far) ∧
        next.generator = pool.generator) ∧ c.Yields pool k row next) ∧
    ∀ f next, farthestPoint.reseed distance clusters pool = .error f next → next = pool := by
  rw [reseed_farthestPoint]
  constructor
  · intro row next h
    obtain ⟨c, hc, far, hleads, hgive⟩ := exists_leader hnumbered
      (fun _ => ordered_farthest hnumbered hnan) h
    have hleft := hleads.remaining_ne_nil
    have hplace := place_of_farthestKey hnumbered hc hleft hleads.key_eq
    obtain ⟨row, taken, htake, hdraw, hyields⟩ :=
      Donor.exists_take_offering (hnumbered c hc) hplace pool.generator
    cases htake.symm.trans hgive
    have hpos := (hnumbered c hc).size_offering_ne_zero hleft
    have hfirst := firstFarthest_of_farthestKey hpos (hnan c hc hleft) hleads.key_eq
    exact ⟨c, hc, far.2, ⟨⟨far.1, hleads, hfirst⟩, hdraw⟩, hyields⟩
  · intro f next h
    exact ((reseedBy_error_iff hnumbered (farthest_gives hnumbered)).1 h).1

end Effect

/-- A reseed takes a member of the first cluster that leads by the measure of the strategy, and only
that row is available no longer; where it fails, nothing has changed. -/
theorem reseed_effect (hnumbered : ∀ c ∈ clusters, c.Numbered pool.available.length)
    (hclear : ∀ c ∈ clusters, c.remaining pool.available ≠ [] →
      Comparable distance (c.offering pool.available)) :
    (∀ row next, strategy.reseed distance clusters pool = .ok row next →
      ∃ c ∈ clusters, ∃ k, strategy.Chooses distance clusters pool c k next.generator ∧
        c.Yields pool k row next) ∧
    ∀ f next, strategy.reseed distance clusters pool = .error f next → next = pool := by
  cases strategy with
  | largestVariance =>
    rw [reseed_largestVariance]
    exact takeAny_effect hnumbered fun _ => ordered_variances hnumbered
      fun c hc hleft => (hclear c hc hleft).variance
  | largestCount =>
    rw [reseed_largestCount]
    exact takeAny_effect hnumbered fun _ _ => ordered_counts
  | farthestPoint =>
    exact farthest_effect hnumbered fun c hc hleft => (hclear c hc hleft).distances
  | refuse =>
    have hrefuse : refuse.reseed distance clusters pool = .error .emptyCluster pool := rfl
    rw [hrefuse]
    constructor
    · intro row next h
      cases h
    · intro f next h
      cases h
      rfl

/-- Two clusters with members equally far from their centers.  The last row has a negative number. -/
def tied : Partition Float32 :=
  [⟨[0], ⟨1, [[1], [3]], by simp⟩, some [0, 1], by simp, fun _ h => by cases h; rfl⟩,
    ⟨[10], ⟨1, [[9], [13]], by simp⟩, some [2, -1], by simp, fun _ h => by cases h; rfl⟩]

/-- Nothing has been taken from them. -/
def whole : Pool := .full (.ofSeed 0) 4

theorem numbered_tied : ∀ c ∈ tied, c.Numbered whole.available.length := by
  simp only [tied, List.forall_mem_cons]
  exact ⟨⟨_, rfl, by decide⟩, ⟨_, rfl, by decide⟩, by simp⟩

/-- Of two rows that are equally far, the one in the earlier cluster is taken. -/
theorem reseed_effect_tied : ∃ next, farthestPoint.reseed
      (.metric (.formula (.euclidean false)) : Distance Float32 Float) tied whole = .ok [3] next ∧
    next.available = [true, false, true, true] ∧
    ∃ c ∈ tied, ∃ k, farthestPoint.Chooses (.metric (.formula (.euclidean false))) tied whole c k
      next.generator ∧ c.Yields whole k [3] next := by
  have hclear : ∀ c ∈ tied, c.remaining whole.available ≠ [] →
      Comparable (.metric (.formula (.euclidean false))) (c.offering whole.available) := by
    decide +kernel
  have hrun : (match farthestPoint.reseed
      (.metric (.formula (.euclidean false)) : Distance Float32 Float) tied whole with
      | .ok row next => some (row, next.available)
      | .error _ _ => none) = some ([3], [true, false, true, true]) := by decide +kernel
  split at hrun
  · rename_i row next hreseed
    obtain ⟨rfl, havailable⟩ := Prod.mk.inj (Option.some.inj hrun)
    exact ⟨next, hreseed, havailable, (reseed_effect numbered_tied hclear).1 _ _ hreseed⟩
  · cases hrun

end Reseed

section Failure

variable [Scalar α] [Widening α Float]

/-- The measure by which a strategy would choose a donor does not count. -/
def Unranked (strategy : Strategy) (distance : Distance α Float) (donor : Donor α) : Prop :=
  match strategy with
  | largestVariance =>
    ∃ v, distanceVariance distance donor.points donor.center = .ok v ∧ Scalar.isNaN v = true
  | largestCount => False
  | farthestPoint => ∃ ds, distance.ofMembers donor.points donor.center = .ok ds ∧
    ∃ d ∈ ds.2, Scalar.isNaN d = true
  | refuse => True

variable {f : Formula α} {clusters : Partition α} {strategy : Strategy} {pool : Pool}

theorem map_ne_error {β γ : Type} {answer : Except Fault β} {g : β → γ} {e : Fault}
    (h : answer ≠ .error e) : answer.map g ≠ .error e := by
  cases answer with
  | error e' =>
    intro hmap
    exact h (congrArg Except.error (Except.error.inj hmap))
  | ok x => exact nofun

theorem ofMembers_ne_emptyCluster (points : Points α) (center : List α) :
    (Distance.metric (.formula f) : Distance α Float).ofMembers points center ≠
      .error .emptyCluster := by
  change ((f.distances points center).bind fun ds => _) ≠ _
  unfold Formula.distances
  cases f.width? points.dim center.length <;> exact nofun

theorem varianceKey_ne_emptyCluster (donor : Donor α) :
    varianceKey (.metric (.formula f) : Distance α Float) donor ≠ .error .emptyCluster := by
  unfold varianceKey distanceVariance
  split
  · exact nofun
  · exact map_ne_error (ofMembers_ne_emptyCluster _ _)

theorem farthestKey_ne_emptyCluster (donor : Donor α) :
    farthestKey (.metric (.formula f) : Distance α Float) donor ≠ .error .emptyCluster :=
  map_ne_error (ofMembers_ne_emptyCluster _ _)

theorem not_bounded_variance_iff {donor : Donor α} {distance : Distance α Float} :
    (∃ v, varianceKey distance donor = .ok v ∧ Scalar.isBounded v = false) ↔
      largestVariance.Unranked distance donor := by
  apply exists_congr
  intro v
  apply and_congr_right
  intro hv
  have hbounded := (notNegative_distanceVariance hv).isBounded_iff
  rw [Bool.eq_false_iff, Ne, hbounded, Bool.not_eq_false]

theorem not_bounded_farthest_iff [Formatted α] [SignKept α] (hf : f.Accepted) {donor : Donor α}
    (hpos : donor.points.size ≠ 0) :
    (∃ far, farthestKey (.metric (.formula f) : Distance α Float) donor = .ok far ∧
        Scalar.isBounded far.1 = false) ↔
      farthestPoint.Unranked (.metric (.formula f)) donor := by
  have hgreatest : ∀ ds : Format × List Float,
      (Distance.metric (.formula f)).ofMembers donor.points donor.center = .ok ds →
        (Scalar.isBounded (Scalar.greatest ds.2) = false ↔ ∃ d ∈ ds.2, Scalar.isNaN d = true) := by
    intro ds hds
    have hne := Distance.ofMembers_ne_nil hpos hds
    have hbounded := (notNegative_ofMembers hf hds _ (Scalar.greatest_mem hne)).isBounded_iff
    rw [← Scalar.isNaN_greatest hne, Bool.eq_false_iff, Ne, hbounded, Bool.not_eq_false]
  constructor
  · rintro ⟨far, hfar, hrefused⟩
    obtain ⟨ds, hds, rfl⟩ := map_eq_ok.1 hfar
    exact ⟨ds, hds, (hgreatest ds hds).1 hrefused⟩
  · rintro ⟨ds, hds, hnan⟩
    exact ⟨_, map_eq_ok.2 ⟨ds, hds, rfl⟩, (hgreatest ds hds).2 hnan⟩

theorem farthest_emptyCluster_iff [Formatted α] [SignKept α] (hf : f.Accepted)
    (hnumbered : ∀ c ∈ clusters, c.Numbered pool.available.length) :
    (∃ next, farthestPoint.reseed (.metric (.formula f) : Distance α Float) clusters pool =
        .error .emptyCluster next) ↔
      ∀ c ∈ clusters, c.remaining pool.available ≠ [] →
        farthestPoint.Unranked (.metric (.formula f)) (c.offering pool.available) := by
  rw [reseed_farthestPoint, reseedBy_emptyCluster_iff hnumbered (farthest_gives hnumbered)
    farthestKey_ne_emptyCluster]
  exact forall₃_congr fun c hc hleft =>
    not_bounded_farthest_iff hf ((hnumbered c hc).size_offering_ne_zero hleft)

/-- With a formula, a reseed fails for want of a donor exactly when the measures of all clusters with
members left are NaNs. -/
theorem reseed_emptyCluster_iff [Formatted α] [SignKept α] (hf : f.Accepted)
    (hnumbered : ∀ c ∈ clusters, c.Numbered pool.available.length) :
    (∃ next, strategy.reseed (.metric (.formula f) : Distance α Float) clusters pool =
        .error .emptyCluster next) ↔
      ∀ c ∈ clusters, c.remaining pool.available ≠ [] →
        strategy.Unranked (.metric (.formula f)) (c.offering pool.available) := by
  cases strategy with
  | largestVariance =>
    rw [reseed_largestVariance, reseedBy_emptyCluster_iff hnumbered (any_gives hnumbered)
      varianceKey_ne_emptyCluster]
    simp only [not_bounded_variance_iff]
  | largestCount =>
    have hkey : ∀ donor : Donor α, countKey donor ≠ .error .emptyCluster := fun _ => nofun
    rw [reseed_largestCount, reseedBy_emptyCluster_iff hnumbered (any_gives hnumbered) hkey]
    refine forall₃_congr fun c hc hleft => ?_
    have hpos := (hnumbered c hc).size_offering_ne_zero hleft
    simp [countKey, Unranked, hpos]
  | farthestPoint => exact farthest_emptyCluster_iff hf hnumbered
  | refuse =>
    have hrefuse : refuse.reseed (.metric (.formula f) : Distance α Float) clusters pool =
        .error .emptyCluster pool := rfl
    rw [hrefuse]
    simp [Unranked]

/-- The distances from the center are 0, 0 and infinity, as the last difference has no finite square;
so their variance is a NaN. -/
def apart : Partition Float32 :=
  [⟨[1e20], ⟨1, [[1e20], [1e20], [-1e20]], by simp⟩, some [0, 1, 2], by simp,
    fun _ h => by cases h; rfl⟩]

theorem reseed_apart :
    ∃ next, largestVariance.reseed (.metric (.formula (.euclidean false)) : Distance Float32 Float)
      apart (.full (.ofSeed 0) 3) = .error .emptyCluster next := by
  have hfails : (match largestVariance.reseed
      (.metric (.formula (.euclidean false)) : Distance Float32 Float) apart (.full (.ofSeed 0) 3) with
      | .error .emptyCluster _ => true
      | _ => false) = true := by decide +kernel
  split at hfails
  · rename_i next hreseed
    exact ⟨next, hreseed⟩
  · cases hfails

theorem reseed_emptyCluster_apart :
    (∃ c ∈ apart, (c.remaining (Pool.full (.ofSeed 0) 3).available).length = 3) ∧
    ∀ c ∈ apart, c.remaining (Pool.full (.ofSeed 0) 3).available ≠ [] →
      largestVariance.Unranked (.metric (.formula (.euclidean false)))
        (c.offering (Pool.full (.ofSeed 0) 3).available) := by
  have hnumbered : ∀ c ∈ apart, c.Numbered (Pool.full (.ofSeed 0) 3).available.length := by
    simp only [apart, List.forall_mem_singleton]
    exact ⟨_, rfl, by decide⟩
  have haccepted : (Formula.euclidean false : Formula Float32).Accepted := trivial
  exact ⟨by decide +kernel, (reseed_emptyCluster_iff haccepted hnumbered).1 reseed_apart⟩

/-- Of three finite members that are left, none is taken. -/
theorem reseed_fails_apart :
    (∀ c ∈ apart, ∀ row ∈ c.points.rows, ∀ x ∈ row, Scalar.isFinite x = true) ∧
    (∃ c ∈ apart, c.remaining (Pool.full (.ofSeed 0) 3).available ≠ []) ∧
    ∃ next, largestVariance.reseed (.metric (.formula (.euclidean false)) : Distance Float32 Float)
      apart (.full (.ofSeed 0) 3) = .error .emptyCluster next :=
  ⟨by decide +kernel, by decide +kernel, reseed_apart⟩

end Failure

end Strategy

end Centroids

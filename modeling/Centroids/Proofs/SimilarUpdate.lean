import Centroids.Proofs.Similarity

/-! The next centers of similar clusters.  What is measured of a donor is multiplied by a factor, so the
same donor is foremost, and the same member of it is taken; means and taken rows are images, and so
are the next centers. -/
namespace Centroids

/-- A donor with points left has a center of their dimension, as its cluster has. -/
theorem Donor.length_center {α : Type} {available : List Bool} {c : Cluster α} {d : Donor α}
    (h : ofCluster available c = .ok d) (hsize : d.points.size ≠ 0) :
    d.center.length = d.points.dim := by
  unfold ofCluster at h
  split at h
  · obtain ⟨mask, -, h⟩ := bind_eq_ok.1 h
    cases h
    refine (c.dim_eq ?_).symm
    intro hzero
    apply hsize
    have hnil : c.points.rows = [] := List.length_eq_zero_iff.1 hzero
    change (((c.points.rows.zip mask).filter (·.2)).map (·.1)).length = 0
    rw [hnil]
    rfl
  · cases h

namespace Similarity

variable {F : Type} [Field F] [LinearOrder F] {m : Similarity F}

section Clusters

variable (m)

theorem ofCluster_cluster (available : List Bool) (c : Cluster F) :
    Donor.ofCluster available (m.cluster c) = m.donor <$> Donor.ofCluster available c := by
  have hindices : (m.cluster c).indices = c.indices := rfl
  unfold Donor.ofCluster
  rw [hindices, size_cluster]
  cases c.indices with
  | none => rfl
  | some indices =>
    apply bind_image_right
    intro mask _
    change Except.ok (⟨_, (m.points c.points).filter mask, _⟩ : Donor F) = _
    rw [m.filter_points]
    rfl

theorem take_donor (d : Donor F) (i : Nat) (pool : Pool) :
    (m.donor d).take i pool = (m.row <$> d.take i) pool := by
  have hrow : (m.donor d).points.rows[i]? = d.points.rows[i]?.map m.row := List.getElem?_map
  have hindices : (m.donor d).indices = d.indices := rfl
  rw [step_map_eq]
  unfold Donor.take
  rw [hrow, hindices]
  cases d.points.rows[i]? with
  | none => rfl
  | some row =>
    cases d.indices[i]?.bind (place? pool.available.length) with
    | none => rfl
    | some place => rfl

theorem takeAny_donor (d : Donor F) (pool : Pool) :
    (m.donor d).takeAny pool = (m.row <$> d.takeAny) pool := by
  have hsize : (m.donor d).points.size = d.points.size := m.size_points d.points
  unfold Donor.takeAny
  rw [hsize]
  apply step_bind_image_right
  intro i next _
  exact m.take_donor d i next

theorem members_cluster {c : Cluster F} {indices : List Int} (hc : c.indices = some indices)
    (available : List Bool) :
    Update.members available (m.cluster c) = m.points <$> Update.members available c := by
  have himage : (m.cluster c).indices = some indices := hc
  unfold Update.members
  rw [himage, hc]
  dsimp only
  cases Donor.mask available indices with
  | error e => rfl
  | ok mask => exact congrArg Except.ok (m.filter_points c.points mask)

theorem total_partition (clusters : Partition F) :
    Update.total (m.partition clusters) = Update.total clusters := by
  unfold Update.total partition
  rw [List.foldr_map]
  simp only [size_cluster]

theorem isUniform_partition (clusters : Partition F) (rows : List (List F)) :
    Update.isUniform (m.partition clusters) (rows.map m.row) = Update.isUniform clusters rows := by
  have hlevel : ∀ n c, Update.isLevel n (m.cluster c) = Update.isLevel n c := by
    intro n c
    unfold Update.isLevel
    rw [size_cluster]
    rfl
  have hhead : ((rows.map m.row).headD []).length = (rows.headD []).length := by
    cases rows with
    | nil => rfl
    | cons row rows => exact m.length_row row
  unfold Update.isUniform Update.isFlat
  rw [total_partition, hhead]
  simp only [partition, List.all_map, List.any_map, Function.comp_def, hlevel, length_row]

variable {κ : Type} {u : κ → κ} (key : Donor F → Except Fault κ)
  (hkey : ∀ d : Donor F, d.points.size ≠ 0 → d.center.length = d.points.dim →
    key (m.donor d) = u <$> key d)
include hkey

theorem offer_cluster (available : List Bool) (c : Cluster F) :
    Strategy.offer key available (m.cluster c) =
      Option.map (Prod.map u m.donor) <$> Strategy.offer key available c := by
  unfold Strategy.offer
  apply bind_image (m.ofCluster_cluster available c)
  intro d hd
  have hsize : (m.donor d).points.size = d.points.size := m.size_points d.points
  rw [hsize]
  split
  · rfl
  · rename_i hleft
    apply bind_image (hkey d hleft (Donor.length_center hd hleft))
    intro x _
    rfl

/-- The same clusters are on offer, each with its image. -/
theorem offers_partition (clusters : Partition F) (available : List Bool) :
    Strategy.offers key (m.partition clusters) available =
      List.map (Prod.map u m.donor) <$> Strategy.offers key clusters available := by
  unfold Strategy.offers partition
  rw [mapM_image fun c _ => offer_cluster m key hkey available c]
  cases clusters.mapM (Strategy.offer key available) with
  | error e => rfl
  | ok answers =>
    apply congrArg Except.ok
    simp [List.map_filterMap, List.filterMap_map]

end Clusters

variable [Analytic F] {f : Formula F} {k : F} (hk : m.Scales f k)
include hk

theorem ofMembers_points {p : Points F} {center : List F} (hcenter : center.length = p.dim) :
    (Distance.metric (.formula f) : Distance F F).ofMembers (m.points p) (m.row center) =
      Prod.map id (List.map (k * ·)) <$>
        (Distance.metric (.formula f) : Distance F F).ofMembers p center := by
  unfold Distance.ofMembers
  dsimp only
  rw [distances_points hk hcenter]
  cases f.distances p center with
  | error e => rfl
  | ok ds =>
    have hwiden : ∀ xs : List F, xs.map Widening.widen = xs := List.map_id
    apply congrArg Except.ok
    change (Format.native, (ds.map (k * ·)).map Widening.widen) =
      (Format.native, (ds.map Widening.widen).map (k * ·))
    rw [hwiden, hwiden]

/-- Variances of distances grow with the square of their factor. -/
theorem distanceVariance_points {p : Points F} {center : List F}
    (hcenter : center.length = p.dim) :
    distanceVariance (.metric (.formula f) : Distance F F) (m.points p) (m.row center) =
      (k ^ 2 * ·) <$> distanceVariance (.metric (.formula f) : Distance F F) p center := by
  unfold distanceVariance
  rw [size_points]
  split
  · exact congrArg Except.ok (mul_zero (k ^ 2)).symm
  · rw [ofMembers_points hk hcenter]
    cases (Distance.metric (.formula f) : Distance F F).ofMembers p center with
    | error e => rfl
    | ok ds => exact congrArg Except.ok (Exact.sampleVariance_mul k ds.2)

variable [IsStrictOrderedRing F]

theorem farthestKey_donor {d : Donor F} (hd : d.center.length = d.points.dim) :
    Strategy.farthestKey (.metric (.formula f) : Distance F F) (m.donor d) =
      Prod.map (k * ·) id <$> Strategy.farthestKey (.metric (.formula f) : Distance F F) d := by
  unfold Strategy.farthestKey
  change Except.map _ (Distance.ofMembers _ (m.points d.points) (m.row d.center)) = _
  rw [ofMembers_points hk hd]
  cases (Distance.metric (.formula f) : Distance F F).ofMembers d.points d.center with
  | error e => rfl
  | ok ds =>
    apply congrArg Except.ok
    change (Scalar.greatest (ds.2.map (k * ·)), Scalar.argmax (ds.2.map (k * ·))) =
      (k * Scalar.greatest ds.2, Scalar.argmax ds.2)
    rw [Exact.greatest_mul hk.pos, Exact.argmax_mul hk.pos]

/-- The image of the row is taken that was taken before. -/
theorem reseed_partition (strategy : Strategy) (clusters : Partition F) (pool : Pool) :
    strategy.reseed (.metric (.formula f) : Distance F F) (m.partition clusters) pool =
      (m.row <$> strategy.reseed (.metric (.formula f) : Distance F F) clusters) pool := by
  unfold Strategy.reseed
  apply step_bind_image_right
  intro now next _
  cases strategy with
  | largestVariance =>
    have hoffers := offers_partition m (Strategy.varianceKey _)
      (fun d _ hd => distanceVariance_points hk hd) clusters now.available
    apply step_bind_image (step_lift_image hoffers next)
    intro entries t _
    rw [Donor.foremost_map (fun _ => rfl) (Exact.lt_mul (pow_pos hk.pos 2))]
    cases Donor.foremost Scalar.isBounded Scalar.lt entries with
    | none => rfl
    | some e => exact m.takeAny_donor e.2 t
  | largestCount =>
    have hoffers := offers_partition m (u := id) (fun donor => return donor.points.size)
      (fun d _ _ => congrArg Except.ok (m.size_points d.points)) clusters now.available
    apply step_bind_image (step_lift_image hoffers next)
    intro entries t _
    have hforemost : Donor.foremost (0 < ·) (· < ·) (entries.map (Prod.map id m.donor)) =
        (Donor.foremost (0 < ·) (· < ·) entries).map (Prod.map id m.donor) :=
      Donor.foremost_map (fun _ => rfl) (fun _ _ => rfl) entries
    rw [hforemost]
    cases Donor.foremost (fun n : Nat => decide (0 < n)) (fun a b => decide (a < b)) entries with
    | none => rfl
    | some e => exact m.takeAny_donor e.2 t
  | farthestPoint =>
    have hoffers := offers_partition m (Strategy.farthestKey _)
      (fun d _ hd => farthestKey_donor hk hd) clusters now.available
    apply step_bind_image (step_lift_image hoffers next)
    intro entries t _
    rw [Donor.foremost_map (fun _ => rfl) (fun x y => Exact.lt_mul hk.pos x.1 y.1)]
    cases Donor.foremost (fun x : F × Nat => Scalar.isBounded x.1)
      (fun x y => Scalar.lt x.1 y.1) entries with
    | none => rfl
    | some e => exact m.take_donor e.2 e.1.2 t
  | refuse => rfl

theorem center_cluster (strategy : Strategy) (clusters : Partition F) {c : Cluster F}
    {indices : List Int} (hc : c.indices = some indices) (pool : Pool) :
    Update.center strategy (.metric (.formula f) : Distance F F) (m.partition clusters)
        (m.cluster c) pool =
      (Prod.map m.row id <$>
        Update.center strategy (.metric (.formula f) : Distance F F) clusters c) pool := by
  unfold Update.center
  apply step_bind_image_right
  intro now next _
  apply step_bind_image (step_lift_image (m.members_cluster hc now.available) next)
  intro members t _
  rw [size_points]
  split
  · apply step_bind_image (reseed_partition hk strategy clusters t)
    intro row t' _
    rfl
  · apply step_bind_image (step_lift_image (m.mean_points members) t)
    intro row t' _
    rfl

/-- The next centers of similar clusters are the images of theirs. -/
theorem centers_partition (strategy : Strategy) {clusters : Partition F}
    (hnumbered : ∀ c ∈ clusters, ∃ indices, c.indices = some indices) (g : Generator) :
    Update.centers strategy (.metric (.formula f) : Distance F F) (m.partition clusters) g =
      (Prod.map (List.map m.row) id <$>
        Update.centers strategy (.metric (.formula f) : Distance F F) clusters) g := by
  have hanswers := step_mapM_image (v := Prod.map m.row id) (fun c hc pool =>
    center_cluster hk strategy clusters (hnumbered c hc).choose_spec pool)
    ⟨g, List.replicate (Update.total clusters) true⟩
  rw [step_map_eq] at hanswers ⊢
  unfold Update.centers
  rw [total_partition]
  unfold partition at hanswers ⊢
  rw [List.isEmpty_map]
  split
  · rfl
  · dsimp only
    rw [hanswers]
    cases clusters.mapM (Update.center strategy (.metric (.formula f) : Distance F F) clusters)
        ⟨g, List.replicate (Update.total clusters) true⟩ with
    | error e pool => rfl
    | ok answers pool =>
      have hrows : (answers.map (Prod.map m.row id)).map (·.1) = (answers.map (·.1)).map m.row := by
        rw [List.map_map, List.map_map]
        rfl
      have hflags : (answers.map (Prod.map m.row id)).any (·.2) = answers.any (·.2) := by
        rw [List.any_map]
        rfl
      have huniform := m.isUniform_partition clusters (answers.map (·.1))
      unfold partition at huniform
      dsimp only
      rw [hrows, hflags, huniform]
      split <;> rfl

end Similarity

end Centroids

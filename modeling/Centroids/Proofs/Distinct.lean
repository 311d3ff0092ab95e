import Centroids.Proofs.Apart
import Centroids.Proofs.Similarity

/-! Centers that are different points.  In exact arithmetic only equal points have no distance, so as
long as there are points that differ from all chosen ones they have the weights, and one of them
is drawn; then each center is nearest to itself, and its cluster is not empty. -/
namespace Centroids

namespace Formula

variable {F : Type} [Field F] [LinearOrder F] [Analytic F] [IsStrictOrderedRing F] {f : Formula F}
  {x c xs : List F}

theorem IsNorm.part_eq_zero (hf : f.IsNorm) (y z : F) :
    0 ≤ f.part y z ∧ (f.part y z = 0 ↔ y = z) := by
  cases f with
  | weighted weights squared => exact hf.elim
  | canberra => exact hf.elim
  | euclidean squared =>
    exact ⟨mul_self_nonneg _, mul_self_eq_zero.trans sub_eq_zero⟩
  | manhattan | chebyshev => exact ⟨abs_nonneg (y - z), abs_eq_zero.trans sub_eq_zero⟩

theorem gather_eq_zero (f : Formula F) (hnonneg : ∀ y ∈ xs, 0 ≤ y) :
    0 ≤ f.gather xs ∧ (f.gather xs = 0 ↔ ∀ y ∈ xs, y = 0) := by
  have htotal : 0 ≤ Scalar.total xs ∧ (Scalar.total xs = 0 ↔ ∀ y ∈ xs, y = 0) := by
    rw [Exact.total_eq_sum]
    refine ⟨List.sum_nonneg hnonneg, fun hzero y hy => ?_, fun hall => List.sum_eq_zero hall⟩
    exact List.all_zero_of_le_zero_le_of_sum_eq_zero hnonneg hzero hy
  cases f with
  | chebyshev =>
    obtain rfl | hne := eq_or_ne xs []
    · exact ⟨le_rfl, by simp [gather, Scalar.greatest]⟩
    · have hmem := Scalar.greatest_mem hne
      refine ⟨hnonneg _ hmem, fun hzero y hy => le_antisymm ?_ (hnonneg y hy), fun hall => hall _ hmem⟩
      have hle := Scalar.le_greatest (fun y _ => Exact.isNaN_eq_false y) y hy
      rw [Exact.le_iff] at hle
      exact hle.trans hzero.le
  | _ => exact htotal

/-- Only equal points have no distance. -/
theorem IsNorm.between_eq_zero (hf : f.IsNorm) (hroots : f = .euclidean false →
      ∀ y : F, 0 ≤ y → 0 ≤ Scalar.sqrt y ∧ Scalar.sqrt y ^ 2 = y) (hlength : x.length = c.length) :
    0 ≤ f.between c.length x c ∧ (f.between c.length x c = 0 ↔ x = c) := by
  rw [between_of_length hf hlength]
  have hparts : ∀ y ∈ List.zipWith f.part x c, 0 ≤ y := by
    intro y hy
    obtain ⟨i, hi, rfl⟩ := List.mem_iff_getElem.1 hy
    rw [List.getElem_zipWith]
    exact (hf.part_eq_zero _ _).1
  have hsame : (∀ y ∈ List.zipWith f.part x c, y = 0) ↔ x = c := by
    rw [List.forall_mem_iff_getElem]
    constructor
    · intro hall
      apply List.ext_getElem hlength
      intro i hi hi'
      have hzero := hall i (by simpa using ⟨hi, hi'⟩)
      rw [List.getElem_zipWith] at hzero
      exact (hf.part_eq_zero _ _).2.1 hzero
    · rintro rfl i hi
      rw [List.getElem_zipWith]
      exact (hf.part_eq_zero _ _).2.2 rfl
  obtain ⟨hnonneg, hzero⟩ := gather_eq_zero f hparts
  rw [hsame] at hzero
  cases f with
  | weighted weights squared => exact hf.elim
  | canberra => exact hf.elim
  | manhattan | chebyshev => exact ⟨hnonneg, hzero⟩
  | euclidean squared =>
    cases squared with
    | true => exact ⟨hnonneg, hzero⟩
    | false =>
      obtain ⟨hroot, hsquare⟩ := hroots rfl _ hnonneg
      refine ⟨hroot, Iff.trans ?_ hzero⟩
      change Scalar.sqrt _ = 0 ↔ _
      rw [← pow_eq_zero_iff two_ne_zero, hsquare]

end Formula

section Points

variable {F : Type} [Field F] [LinearOrder F] [Analytic F] [IsStrictOrderedRing F] {f : Formula F}
  (hf : f.IsNorm)
  (hroots : f = .euclidean false → ∀ y : F, 0 ≤ y → 0 ≤ Scalar.sqrt y ∧ Scalar.sqrt y ^ 2 = y)
  {points : Points F}
include hf hroots

theorem Points.between_rows_eq_zero {i j : Nat} (hi : i < points.size) (hj : j < points.size) :
    0 ≤ f.between points.dim (points.row i) (points.row j) ∧
      (f.between points.dim (points.row i) (points.row j) = 0 ↔ points.row i = points.row j) := by
  have hlength := length_row_of_lt hj
  have hbetween := hf.between_eq_zero hroots ((length_row_of_lt hi).trans hlength.symm)
  rwa [hlength] at hbetween

theorem Spread.squares_eq_zero_iff {row i : Nat} {ds : List F} {d : F}
    (h : squares (.formula f) points row = .ok ds) (hd : ds[i]? = some d) :
    d = 0 ↔ points.row i = points.row row := by
  have hrow := lt_of_squares_eq_ok h
  have hi : i < points.size := by
    rw [← length_squares h]
    exact (List.getElem?_eq_some_iff.1 hd).1
  have hdistances : f.distances points (points.row row) = .ok _ :=
    Formula.distances_eq_ok (hf.fit points.dim) (Points.length_row_of_lt hrow)
  have hbetween := (Points.between_rows_eq_zero hf hroots hi hrow).2
  unfold squares at h
  rw [Points.getElem?_rows hrow] at h
  change (f.distances points (points.row row)).map _ = _ at h
  rw [hdistances] at h
  obtain rfl := Except.ok.inj h
  simp only [List.getElem?_map, Points.getElem?_rows hi, Option.map_some, Option.some.injEq] at hd
  rw [← hbetween, ← hd]
  exact mul_self_eq_zero

namespace Spread.Chosen

variable {s : Spread F} (h : s.Chosen (.formula f) points)
include h

omit [IsStrictOrderedRing F] hf hroots in
theorem measures_exactly : s.Measures (.formula f) points :=
  h.measures fun _ _ _ d _ => Exact.isNaN_eq_false d

/-- What is away from all chosen rows is another point than each of them. -/
theorem row_not_mem {row : Nat} {w : F} (hw : s.nearest[row]? = some w) (hpos : 0 < w) :
    points.row row ∉ s.chosen.map points.row := by
  intro hmem
  obtain ⟨r, hr, hsame⟩ := List.mem_map.1 hmem
  obtain ⟨ds, v, hds, hv, hle⟩ := (h.measures_exactly.2 row w hw).2 r hr
  rw [Exact.le_iff] at hle
  exact (hpos.trans_le hle).ne' ((squares_eq_zero_iff hf hroots hds hv).2 hsame.symm)

/-- As long as there are more points than have been chosen, one has a weight. -/
theorem weight_pos (hfew : s.chosen.length < points.rows.dedup.length) :
    Scalar.lt 0 (Scalar.total s.weights) = true := by
  by_contra hnone
  rw [Exact.lt_iff, not_lt, Exact.total_eq_sum] at hnone
  have hzero : ∀ w ∈ s.weights, w = 0 := by
    intro w hw
    exact List.all_zero_of_le_zero_le_of_sum_eq_zero h.weights_nonneg
      (le_antisymm hnone (List.sum_nonneg h.weights_nonneg)) hw
  have hall : points.rows.dedup ⊆ s.chosen.map points.row := by
    intro x hx
    obtain ⟨i, hi, rfl⟩ := List.mem_iff_getElem.1 (List.mem_dedup.1 hx)
    have hrow : points.row i = points.rows[i] := by
      simpa [List.getElem?_eq_getElem hi] using (Points.getElem?_rows hi).symm
    have hlength := h.length_nearest
    have hnearest := List.getElem?_eq_getElem (hlength.symm ▸ hi : i < s.nearest.length)
    have hweight := hzero _ (List.mem_of_getElem? (getElem?_weights hnearest))
    rw [← hrow]
    by_cases hmem : i ∈ s.chosen
    · exact List.mem_map_of_mem hmem
    · rw [if_neg hmem] at hweight
      obtain ⟨r, hr, ds, hds, hd⟩ := (h.measures_exactly.2 i _ hnearest).1
      rw [(squares_eq_zero_iff hf hroots hds hd).1 hweight]
      exact List.mem_map_of_mem hr
  have hle := ((List.nodup_dedup points.rows).subperm hall).length_le
  rw [List.length_map] at hle
  omega

omit hf hroots in
/-- In exact arithmetic, draws are fair where clocks do not stand still. -/
theorem fair_of_clocks (hclocks : ∀ k, Random.IsGrain k → 0 < (Analytic.exponential k : F))
    (hpos : Scalar.lt 0 (Scalar.total s.weights) = true) : s.Fair := by
  rw [Exact.lt_iff] at hpos
  refine ⟨Exact.fair_of_whole hclocks (Exact.sampleable_shares h.weights_nonneg hpos) ?_
    (Exact.total_shares hpos.ne'), ?_⟩
  · intro w hw
    obtain ⟨x, hx, rfl⟩ := List.mem_map.1 hw
    exact div_nonneg (h.weights_nonneg x hx) hpos.le
  · intro w hw hmoves
    rw [Exact.lt_iff] at hmoves ⊢
    exact (div_pos_iff_of_pos_right hpos).1 hmoves

end Spread.Chosen

/-- Where the centers are points of the data, no two of them equal, each has the points that equal it in
its cluster. -/
theorem Assignment.exists_labels_of_nodup {rows : List Nat} (hne : rows ≠ [])
    (hbound : ∀ row ∈ rows, row < points.size) (hnodup : (rows.map points.row).Nodup) :
    ∃ ls, labels (.formula f) points (points.select rows).rows = .ok ls ∧
      ∀ k < rows.length, members ls k ≠ [] := by
  rw [Points.rows_select hbound]
  have hcenters : ∀ center ∈ rows.map points.row, center.length = points.dim := by
    intro center hcenter
    obtain ⟨row, hrow, rfl⟩ := List.mem_map.1 hcenter
    exact Points.length_row_of_lt (hbound row hrow)
  have hcolumns := Formula.mapM_distances (hf.fit points.dim) hcenters
  obtain ⟨ls, hls⟩ := exists_labels (by simpa using hne) hcolumns
  refine ⟨ls, hls, fun k hk => ?_⟩
  have hi := hbound rows[k] (List.getElem_mem hk)
  have hlabel := List.getElem?_eq_getElem ((length_labels hls).symm ▸ hi : rows[k] < ls.length)
  obtain ⟨hnonneg, -⟩ := labels_lt hls _ (List.mem_of_getElem? hlabel)
  obtain ⟨l, hl⟩ := Int.eq_ofNat_of_zero_le hnonneg
  rw [hl] at hlabel
  obtain ⟨nearest, hnearest, hleast, -⟩ := le_of_label hcolumns hls
    (fun d _ => Exact.isNaN_eq_false d) hlabel
  -- No center is nearer than the point itself, so that of its label equals it.
  obtain ⟨r, hr, rfl⟩ : ∃ r, rows[l]? = some r ∧
      points.rows.map (f.between points.dim · (points.row r)) = nearest := by
    simpa using hnearest
  have hself := hleast (points.rows.map (f.between points.dim · (points.row rows[k])))
    (by simp only [List.mem_map]; exact ⟨_, ⟨_, List.getElem_mem hk, rfl⟩, rfl⟩)
  have hrow := hbound r (List.mem_of_getElem? hr)
  obtain ⟨hnonneg, hsame⟩ := Points.between_rows_eq_zero hf hroots hi hrow
  rw [Points.getD_map_rows hi, Points.getD_map_rows hi, Exact.le_iff,
    (Points.between_rows_eq_zero hf hroots hi hi).2.2 rfl] at hself
  have hsame := hsame.1 (le_antisymm hself hnonneg)
  obtain rfl : k = l :=
    (List.getElem?_inj (by simpa using hk) hnodup).1 (by simp [hk, hr, hsame])
  exact List.ne_nil_of_mem (mem_members.2 ⟨_, rfl, hlabel⟩)

end Points

namespace Seeding

theorem exists_takes_of_finite {α : Type} [Scalar α] [Widening α Float] [Formatted α] [SignKept α]
    {metric : Metric α} {points : Points α} {clusters : Int} {g : Generator} {count : Nat}
    (hpos : 0 < clusters) (hle : clusters ≤ points.size) (hcount : 0 < count)
    (hfinite : ∀ row < points.size, ∃ ds : List Float,
      Spread.squares metric points row = .ok ds ∧ ∀ d ∈ ds, Scalar.isFinite d = true)
    (htotal : ∀ i s h, Spread.Head metric points count clusters g i s h →
      Scalar.isFinite (Scalar.total s.weights) = true)
    (hlively : Lively metric points count clusters g) :
    ∃ rows, (spread count).Takes metric points clusters g rows := by
  obtain ⟨rows, htakes, -⟩ := exists_takes_spread id hpos hle
    (fun row hrow => (hfinite row hrow).imp fun _ hds => hds.1) fun i s h hhead => by
      obtain ⟨hchosen, hlt⟩ := hhead.chosen_lt
      have hfair := hchosen.fair (Spread.amounts_of_finite hfinite) (htotal i s h hhead)
      obtain ⟨rows, u, hdraw, hne, hrows⟩ :=
        hchosen.exists_apart hlt hcount hfair (hlively i s h hhead)
      refine ⟨rows, u, hdraw, hne, fun row hrow => ?_⟩
      simpa using ⟨(hrows row hrow).1, (hrows row hrow).2.1⟩
  exact ⟨rows, htakes⟩

theorem exists_takes_of_points {F : Type} [Field F] [LinearOrder F] [IsStrictOrderedRing F]
    [Analytic F] {f : Formula F} {points : Points F} {clusters : Int} {g : Generator} {count : Nat}
    (hf : f.IsNorm)
    (hroots : f = .euclidean false → ∀ y : F, 0 ≤ y → 0 ≤ Scalar.sqrt y ∧ Scalar.sqrt y ^ 2 = y)
    (hclocks : ∀ k, Random.IsGrain k → 0 < (Analytic.exponential k : F)) (hpos : 0 < clusters)
    (hmany : clusters ≤ points.rows.dedup.length) (hcount : 0 < count)
    (hlively : Lively (.formula f) points count clusters g) :
    ∃ rows, (spread count).Takes (.formula f) points clusters g rows ∧
      (rows.map points.row).Nodup := by
  have hsize := (List.dedup_sublist points.rows).length_le
  refine exists_takes_spread points.row hpos (hmany.trans (Int.ofNat_le.2 hsize))
    (fun row hrow => Spread.exists_squares (hf.fit points.dim) hrow) ?_
  intro i s h hhead
  obtain ⟨hchosen, hlt⟩ := hhead.chosen_lt
  have hsome : Scalar.lt 0 (Scalar.total s.weights) = true := by
    have hlength := hhead.chosen.2.1
    have hmore := hhead.2.1
    exact hchosen.weight_pos hf hroots (by omega)
  obtain ⟨rows, u, hdraw, hne, hrows⟩ :=
    hchosen.exists_apart hlt hcount (hchosen.fair_of_clocks hclocks) (hlively i s h hhead)
  refine ⟨rows, u, hdraw, hne, fun row hrow => ?_⟩
  obtain ⟨hbound, -, haway⟩ := hrows row hrow
  obtain ⟨w, hw, hwpos⟩ := haway hsome
  exact ⟨hbound, hchosen.row_not_mem hf hroots hw ((Exact.lt_iff 0 w).1 hwpos)⟩

/-- Seedings take rows at different places: a permutation always does, and rows drawn one by one are
different where the squared distances and their sums are finite and no number that is drawn is
zero; there is always a row left to be drawn.  In exact arithmetic they are different points, if
there are enough of these, and no cluster around them is empty. -/
theorem takes_different {α : Type} [Scalar α] [Widening α Float] [Formatted α] [SignKept α]
    {F : Type} [Field F] [LinearOrder F] [IsStrictOrderedRing F] [Analytic F] :
    (∀ (metric : Metric α) (points : Points α) (clusters : Int) (g : Generator),
      0 < clusters → clusters ≤ points.size →
      (∃ rows, random.Takes metric points clusters g rows) ∧
      ∀ count, 0 < count →
        (∀ row < points.size, ∃ ds : List Float, Spread.squares metric points row = .ok ds ∧
          ∀ d ∈ ds, Scalar.isFinite d = true) →
        (∀ i s h, Spread.Head metric points count clusters g i s h →
          Scalar.isFinite (Scalar.total s.weights) = true) →
        Lively metric points count clusters g →
        (∃ rows, (spread count).Takes metric points clusters g rows) ∧
          ∀ (i : Nat) (s : Spread Float) (h : Generator),
            Spread.Head metric points count clusters g i s h → s.remaining ≠ []) ∧
    ∀ (f : Formula F) (points : Points F) (clusters : Int) (g : Generator) (count : Nat),
      f.IsNorm →
      (f = .euclidean false → ∀ y : F, 0 ≤ y → 0 ≤ Scalar.sqrt y ∧ Scalar.sqrt y ^ 2 = y) →
      (∀ k, Random.IsGrain k → 0 < (Analytic.exponential k : F)) →
      0 < clusters → clusters ≤ points.rows.dedup.length → 0 < count →
      Lively (.formula f) points count clusters g →
      ∃ rows, (spread count).Takes (.formula f) points clusters g rows ∧
        (points.select rows).rows.Nodup ∧
        ∃ ls, Assignment.labels (.formula f) points (points.select rows).rows = .ok ls ∧
          ∀ k < rows.length, Assignment.members ls k ≠ [] := by
  constructor
  · intro metric points clusters g hpos hle
    refine ⟨exists_takes_random hpos hle metric g, fun count hcount hfinite htotal hlively => ?_⟩
    refine ⟨exists_takes_of_finite hpos hle hcount hfinite htotal hlively, fun i s h hhead => ?_⟩
    obtain ⟨hchosen, hlt⟩ := hhead.chosen_lt
    exact hchosen.remaining_ne_nil hlt
  · intro f points clusters g count hf hroots hclocks hpos hmany hcount hlively
    obtain ⟨rows, htakes, hnodup⟩ :=
      exists_takes_of_points hf hroots hclocks hpos hmany hcount hlively
    obtain ⟨-, hlength, hbound, -⟩ := id htakes
    have hne : rows ≠ [] := List.ne_nil_of_length_pos (by omega)
    refine ⟨rows, htakes, ?_, Assignment.exists_labels_of_nodup hf hroots hne hbound hnodup⟩
    rwa [Points.rows_select hbound]

section Repeated

/-- Not needed where distances are squared and two candidates are drawn at a time. -/
local instance untimed : Analytic ℚ := ⟨Rat.sqrt, fun _ => 1⟩

/-- Two points, each twice. -/
def twice : Points Float32 := ⟨1, [[0], [4], [4], [0]], by decide⟩

def spaced : Points ℚ := ⟨1, [[0], [4], [4], [20]], by decide⟩

def steady : Generator := ⟨Vector.replicate 624 1, 0⟩

/-- All rows are taken where two of them have no weight when they are; different points are taken where
there are as many. -/
theorem takes_different_repeated :
    (∃ rows, random.Takes (.formula .manhattan) twice 4 steady rows) ∧
    (∃ rows, (spread 1).Takes (.formula .manhattan) twice 4 steady rows) ∧
    (∀ (i : Nat) (s : Spread Float) (h : Generator),
      Spread.Head (.formula .manhattan) twice 1 4 steady i s h → s.remaining ≠ []) ∧
    ∃ rows, (spread 2).Takes (.formula (.euclidean true)) spaced 3 steady rows ∧
      (spaced.select rows).rows.Nodup ∧ ∃ ls, Assignment.labels (.formula (.euclidean true)) spaced
        (spaced.select rows).rows = .ok ls ∧ ∀ k < rows.length, Assignment.members ls k ≠ [] := by
  have hsquares : (List.range 4).all (fun row =>
      match Spread.squares (.formula .manhattan) twice row with
      | .ok ds => (ds : List Float).all Scalar.isFinite
      | .error _ => false) = true := by decide +kernel
  have hfinite : ∀ row < twice.size, ∃ ds : List Float,
      Spread.squares (.formula .manhattan) twice row = .ok ds ∧
        ∀ d ∈ ds, Scalar.isFinite d = true := by
    intro row hrow
    have hall := List.all_eq_true.1 hsquares row (List.mem_range.2 hrow)
    split at hall
    · rename_i ds hds
      exact ⟨ds, hds, List.all_eq_true.1 hall⟩
    · cases hall
  have htotal : ∀ i s h, Spread.Head (.formula .manhattan) twice 1 4 steady i s h →
      Scalar.isFinite (Scalar.total (s.weights : List Float)) = true :=
    Spread.Head.of_all (P := fun s _ => Scalar.isFinite (Scalar.total s.weights)) (by decide +kernel)
  have hlively : Lively (.formula .manhattan) twice 1 4 steady := by
    intro i s h hhead hpos
    have hdraws := Spread.Head.of_all (P := fun (s : Spread Float) h =>
      !Scalar.lt 0 (Scalar.total s.weights) || Random.lively (Random.grains twice.size 1) h)
      (by decide +kernel) i s h hhead
    simpa [hpos] using hdraws
  have hexact : Lively (.formula (.euclidean true)) spaced 2 3 steady := by
    intro i s h hhead hpos
    have hdraws := Spread.Head.of_all (P := fun (s : Spread ℚ) h =>
      !Scalar.lt 0 (Scalar.total s.weights) || Random.lively (Random.grains spaced.size 2) h)
      (by decide +kernel) i s h hhead
    simpa [hpos] using hdraws
  obtain ⟨hdoubles, hpoints⟩ := takes_different (α := Float32) (F := ℚ)
  obtain ⟨hrandom, hspread⟩ :=
    hdoubles (.formula .manhattan) twice 4 steady (by decide) (by decide)
  obtain ⟨hrows, hleft⟩ := hspread 1 one_pos hfinite htotal hlively
  exact ⟨hrandom, hrows, hleft, hpoints (.euclidean true) spaced 3 steady 2 trivial nofun
    (fun _ _ => one_pos) (by decide) (by decide +kernel) two_pos hexact⟩

end Repeated

end Seeding

end Centroids

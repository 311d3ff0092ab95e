import Centroids.Proofs.Fitting
import Centroids.Proofs.Scaling

/-! Similarities.  Rows are multiplied by a factor above zero and shifted; points, clusters and
partitions have images whose rows and centers are the images, and whose row numbers are the same.
What is picked from an image is the image of what is picked, the mean of an image is the image of the
mean, and distances are multiplied by a power of the factor. -/
namespace Centroids

structure Similarity (F : Type) [Zero F] [LT F] where
  factor : F
  shift : Nat → F
  pos : 0 < factor

namespace Similarity

variable {F : Type} [Field F] [LinearOrder F] (m : Similarity F)

def row (x : List F) : List F := x.mapIdx fun i y => m.factor * y + m.shift i

@[simp] theorem length_row (x : List F) : (m.row x).length = x.length := List.length_mapIdx

theorem getElem?_row (x : List F) (i : Nat) :
    (m.row x)[i]? = x[i]?.map fun y => m.factor * y + m.shift i := List.getElem?_mapIdx

theorem getD_row {x : List F} {i : Nat} (hi : i < x.length) :
    (m.row x).getD i 0 = m.factor * x.getD i 0 + m.shift i := by
  rw [List.getD_eq_getElem?_getD, List.getD_eq_getElem?_getD, getElem?_row,
    List.getElem?_eq_getElem hi]
  rfl

def points (p : Points F) : Points F :=
  ⟨p.dim, p.rows.map m.row, by
    intro row h
    obtain ⟨x, hx, rfl⟩ := List.mem_map.1 h
    rw [length_row]
    exact p.length_row x hx⟩

@[simp] theorem dim_points (p : Points F) : (m.points p).dim = p.dim := rfl

@[simp] theorem rows_points (p : Points F) : (m.points p).rows = p.rows.map m.row := rfl

@[simp] theorem size_points (p : Points F) : (m.points p).size = p.size := List.length_map _

def cluster (c : Cluster F) : Cluster F :=
  ⟨m.row c.center, m.points c.points, c.indices, by simpa using c.dim_eq,
    by simpa using c.length_indices⟩

@[simp] theorem size_cluster (c : Cluster F) : (m.cluster c).size = c.size := m.size_points c.points

def partition (clusters : Partition F) : Partition F := clusters.map m.cluster

def donor (d : Donor F) : Donor F := ⟨m.row d.center, m.points d.points, d.indices⟩

section Picking

variable (p : Points F)

theorem select_points (places : List Nat) :
    (m.points p).select places = m.points (p.select places) := by
  apply Points.eq_of_rows
  · rfl
  · simp [Points.select, List.map_filterMap]

theorem pick_points (numbers : List Int) :
    (m.points p).pick numbers = m.points <$> p.pick numbers := by
  unfold Points.pick
  rw [size_points]
  cases numbers.mapM (place? p.size) with
  | none => rfl
  | some places => exact congrArg Except.ok (m.select_points p places)

theorem filter_points (mask : List Bool) :
    (m.points p).filter mask = m.points (p.filter mask) := by
  apply Points.eq_of_rows
  · rfl
  · simp [Points.filter, List.zip_map_left, List.filter_map, Function.comp_def]

theorem make_cluster (center : List F) (indices : Option (List Int)) :
    Cluster.make (m.row center) (m.points p) indices = m.cluster <$> Cluster.make center p indices := by
  unfold Cluster.make
  simp only [size_points, dim_points, length_row]
  split
  · split <;> rfl
  · rfl

theorem clusters_points (centers : List (List F)) (ls : List Int) :
    Assignment.clusters (m.points p) (centers.map m.row) ls =
      m.partition <$> Assignment.clusters p centers ls := by
  unfold Assignment.clusters
  rw [List.zipIdx_map]
  apply mapM_image
  rintro ⟨center, i⟩ -
  apply bind_image (m.pick_points p _)
  intro members _
  exact m.make_cluster members center _

end Picking

section Exact

variable [Analytic F] [IsStrictOrderedRing F]

theorem mean_points (p : Points F) : (m.points p).mean = m.row <$> p.mean := by
  unfold Points.mean
  rw [size_points]
  split
  · rfl
  · rename_i hsize
    have hne : ∀ i, p.rows.map (·.getD i 0) ≠ [] := fun i hnil =>
      hsize (List.length_eq_zero_iff.2 (List.map_eq_nil_iff.1 hnil))
    apply congrArg Except.ok
    apply List.ext_getElem?
    intro i
    rw [getElem?_row, List.getElem?_map, List.getElem?_map]
    by_cases hi : i < p.dim
    · have himage : (p.rows.map m.row).map (·.getD i 0) =
          (p.rows.map (·.getD i 0)).map fun y => m.factor * y + m.shift i := by
        rw [List.map_map, List.map_map]
        apply List.map_congr_left
        intro x hx
        exact m.getD_row ((p.length_row x hx).symm ▸ hi)
      unfold Points.columns
      rw [getElem?_transpose p.length_row hi 0, getElem?_transpose (m.points p).length_row hi 0,
        rows_points, himage]
      simp only [Option.map_some]
      rw [Exact.average_affine (hne i)]
    · have hnone : ∀ q : Points F, q.dim = p.dim → q.columns[i]? = none := by
        intro q hq
        rw [List.getElem?_eq_none_iff, Points.length_columns, hq]
        omega
      rw [hnone p rfl, hnone (m.points p) rfl]
      rfl

/-- Distances between rows grow by a factor above zero when the rows are replaced by their images. -/
structure Scales (f : Formula F) (k : F) : Prop where
  pos : 0 < k
  fit : ∀ dim, f.width? dim dim = some dim
  between_eq : ∀ x c : List F, x.length = c.length →
    f.between c.length (m.row x) (m.row c) = k * f.between c.length x c

end Exact

end Similarity

namespace Formula

variable {F : Type} [Field F] [LinearOrder F]

/-- The formulas that measure by differences of coordinates alone, each in the same way. -/
def IsNorm : Formula F → Prop
  | euclidean _ | manhattan | chebyshev => True
  | _ => False

omit [Field F] [LinearOrder F] in
theorem IsNorm.fit {f : Formula F} (hf : f.IsNorm) (dim : Nat) : f.width? dim dim = some dim := by
  cases f with
  | weighted weights squared => exact hf.elim
  | canberra => exact hf.elim
  | euclidean | manhattan | chebyshev => exact Grid.joinLength?_self dim

/-- The power of the scale by which distances grow. -/
def order : Formula F → Nat
  | euclidean true => 2
  | _ => 1

variable {f : Formula F} (m : Similarity F)

theorem zipWith_row {g h : F → F → F} {k : F}
    (hg : ∀ t y z, g (m.factor * y + t) (m.factor * z + t) = k * h y z) (x c : List F) :
    List.zipWith g (m.row x) (m.row c) = (List.zipWith h x c).map (k * ·) := by
  apply List.ext_getElem
  · simp
  · intro i hi hi'
    simp [Similarity.row, hg]

variable [Analytic F]

theorem between_of_length (hf : f.IsNorm) {x c : List F} (hlength : x.length = c.length) :
    f.between c.length x c = f.finish (f.gather (List.zipWith f.part x c)) := by
  unfold between parts
  rw [stretchRow_of_length hlength, stretchRow_of_length rfl]
  cases f with
  | weighted weights squared => exact hf.elim
  | euclidean | manhattan | chebyshev | canberra => rfl

variable [IsStrictOrderedRing F]

theorem abs_part (t y z : F) :
    Scalar.abs (m.factor * y + t - (m.factor * z + t)) = m.factor * Scalar.abs (y - z) := by
  change |m.factor * y + t - (m.factor * z + t)| = m.factor * |y - z|
  rw [add_sub_add_right_eq_sub, ← mul_sub, abs_mul, abs_of_pos m.pos]

/-- Where roots are those of the field, the root of a square times a number is taken by parts. -/
theorem sqrt_mul (hroots : ∀ y : F, 0 ≤ y → 0 ≤ Scalar.sqrt y ∧ Scalar.sqrt y ^ 2 = y) {k y : F}
    (hk : 0 ≤ k) (hy : 0 ≤ y) : Scalar.sqrt (k ^ 2 * y) = k * Scalar.sqrt y := by
  have hroot := hroots y hy
  have himage := hroots (k ^ 2 * y) (mul_nonneg (sq_nonneg k) hy)
  apply (sq_eq_sq₀ himage.1 (mul_nonneg hk hroot.1)).1
  rw [himage.2, mul_pow, hroot.2]

theorem total_part_nonneg (squared : Bool) (x c : List F) :
    0 ≤ Scalar.total (List.zipWith (euclidean squared : Formula F).part x c) := by
  rw [Exact.total_eq_sum]
  apply List.sum_nonneg
  intro y hy
  obtain ⟨i, hi, rfl⟩ := List.mem_iff_getElem.1 hy
  rw [List.getElem_zipWith]
  exact mul_self_nonneg _

/-- A similarity scales these formulas, the squared one by the square of its factor. -/
theorem scales (hf : f.IsNorm) (hroots : f = .euclidean false →
    ∀ y : F, 0 ≤ y → 0 ≤ Scalar.sqrt y ∧ Scalar.sqrt y ^ 2 = y) :
    m.Scales f (m.factor ^ f.order) := by
  have hsquare : ∀ squared t y z, (euclidean squared : Formula F).part (m.factor * y + t)
      (m.factor * z + t) = m.factor ^ 2 * (euclidean squared : Formula F).part y z := by
    intro squared t y z
    simp only [part]
    ring
  refine ⟨pow_pos m.pos _, hf.fit, ?_⟩
  intro x c hlength
  have himage : (m.row x).length = (m.row c).length := by simpa using hlength
  have hbetween := between_of_length hf himage
  rw [m.length_row] at hbetween
  rw [hbetween, between_of_length hf hlength]
  cases f with
  | weighted weights squared => exact hf.elim
  | canberra => exact hf.elim
  | euclidean squared =>
    rw [zipWith_row m (hsquare squared)]
    simp only [gather]
    rw [Exact.total_mul]
    cases squared with
    | true => rfl
    | false =>
      simp only [finish, order, pow_one]
      exact sqrt_mul (hroots rfl) m.pos.le (total_part_nonneg false x c)
  | manhattan =>
    rw [zipWith_row m (abs_part m)]
    simp only [gather, finish, order, id, pow_one]
    exact Exact.total_mul _ _
  | chebyshev =>
    rw [zipWith_row m (abs_part m)]
    simp only [gather, finish, order, id, pow_one]
    exact Exact.greatest_mul m.pos _

end Formula

namespace Similarity

variable {F : Type} [Field F] [LinearOrder F] [Analytic F] {m : Similarity F} {f : Formula F} {k : F}
  (hk : m.Scales f k) {p : Points F}
include hk

theorem distances_points {center : List F} (hcenter : center.length = p.dim) :
    f.distances (m.points p) (m.row center) = List.map (k * ·) <$> f.distances p center := by
  have hfit := hk.fit p.dim
  have hcenterimage : (m.row center).length = (m.points p).dim := (m.length_row center).trans hcenter
  have himage : f.distances (m.points p) (m.row center) = .ok _ :=
    Formula.distances_eq_ok hfit hcenterimage
  rw [Formula.distances_eq_ok hfit hcenter, himage]
  apply congrArg Except.ok
  rw [rows_points, List.map_map, List.map_map]
  apply List.map_congr_left
  intro x hx
  have hbetween := hk.between_eq x center ((p.length_row x hx).trans hcenter.symm)
  rwa [hcenter] at hbetween

variable [IsStrictOrderedRing F]

theorem labels_points {centers : List (List F)} (hcenters : ∀ c ∈ centers, c.length = p.dim) :
    Assignment.labels (.formula f) (m.points p) (centers.map m.row) =
      Assignment.labels (.formula f) p centers := by
  have hcolumns := mapM_image fun c hc => distances_points hk (hcenters c hc)
  change (centers.map m.row).mapM ((Metric.formula f).distances (m.points p)) =
    List.map (List.map (k * ·)) <$> centers.mapM ((Metric.formula f).distances p) at hcolumns
  unfold Assignment.labels
  rw [List.isEmpty_map, hcolumns, size_points]
  split
  · rfl
  · cases centers.mapM ((Metric.formula f).distances p) with
    | error e => rfl
    | ok columns =>
      apply congrArg Except.ok
      dsimp only
      rw [transpose_map, List.map_map]
      apply List.map_congr_left
      intro row _
      exact congrArg Int.ofNat (Exact.argmin_mul hk.pos row)

theorem assign_points {plan : Trial.Plan F} (hmetric : plan.metric = .formula f)
    {centers : List (List F)} (hcenters : ∀ c ∈ centers, c.length = p.dim) :
    Trial.assign plan (m.points p) (centers.map m.row) =
      Prod.map m.partition id <$> Trial.assign plan p centers := by
  unfold Trial.assign
  rw [hmetric, labels_points hk hcenters]
  cases Assignment.labels (.formula f) p centers with
  | error e => rfl
  | ok ls =>
    apply bind_image (m.clusters_points p centers ls)
    intro clusters _
    rfl

end Similarity

end Centroids

import Centroids.Proofs.Similarity

/-! Seedings of similar points.  Squared distances, and with them the weights of the rows, are all
multiplied by one factor, which the weights in relation to their sum do not show: the same rows are
drawn, so the centers are the images. -/
namespace Centroids

variable {F : Type} [Field F] [LinearOrder F] [Analytic F]

namespace Spread

/-- The same choice of rows, at distances multiplied by a factor. -/
def scale (k : F) (s : Spread F) : Spread F := ⟨s.chosen, s.nearest.map (k * ·)⟩

variable (k : F) (s : Spread F)

theorem potential_scale : (s.scale k).potential = k * s.potential := Exact.total_mul k s.nearest

theorem weights_scale : (s.scale k).weights = s.weights.map (k * ·) := by
  unfold weights scale
  rw [List.zipIdx_map, List.map_map, List.map_map]
  apply List.map_congr_left
  rintro ⟨x, i⟩ -
  simp only [Function.comp_apply, Prod.map_apply, id]
  split
  · exact (mul_zero k).symm
  · rfl

theorem remaining_scale : (s.scale k).remaining = s.remaining := by
  unfold remaining scale
  rw [List.length_map]

variable [IsStrictOrderedRing F] {k} (hk : 0 < k)
include hk

theorem best_scale (continuations : List (Spread F)) :
    best (continuations.map (scale k)) = (best continuations).map (scale k) := by
  cases continuations with
  | nil => rfl
  | cons s rest =>
    apply congrArg some
    induction rest generalizing s with
    | nil => rfl
    | cons t rest ih =>
      rw [List.map_cons, List.foldl_cons, List.foldl_cons, potential_scale, potential_scale,
        Exact.lt_mul hk, ← ih]
      split <;> rfl

/-- Weights in relation to their sum are what they were. -/
theorem candidates_scale (count : Nat) : (s.scale k).candidates count = s.candidates count := by
  have hshares : (s.weights.map (k * ·)).map (· / (k * Scalar.total s.weights)) =
      s.weights.map (· / Scalar.total s.weights) := by
    rw [List.map_map]
    apply List.map_congr_left
    intro w _
    exact mul_div_mul_left w _ hk.ne'
  unfold candidates
  dsimp only
  rw [weights_scale, Exact.total_mul, Exact.lt_zero_mul hk, hshares, remaining_scale]

end Spread

namespace Similarity

variable {m : Similarity F} {f : Formula F} {k : F} (hk : m.Scales f k) {p : Points F}
include hk

theorem squares_points (row : Nat) : Spread.squares (.formula f) (m.points p) row =
    List.map (k ^ 2 * ·) <$> Spread.squares (.formula f) p row := by
  unfold Spread.squares
  rw [rows_points, List.getElem?_map]
  cases hrow : p.rows[row]? with
  | none => rfl
  | some center =>
    have hdistances := distances_points hk (Points.length_of_getElem? hrow)
    change (f.distances (m.points p) (m.row center)).map _ = _ <$> (f.distances p center).map _
    rw [hdistances]
    cases f.distances p center with
    | error e => rfl
    | ok ds =>
      apply congrArg Except.ok
      dsimp only
      rw [List.map_map, List.map_map]
      apply List.map_congr_left
      intro d _
      change k * d * (k * d) = k ^ 2 * (d * d)
      ring

theorem start_points (g : Generator) : Spread.start (.formula f) (m.points p) g =
    (Spread.scale (k ^ 2) <$> Spread.start (.formula f) p) g := by
  unfold Spread.start
  rw [size_points]
  apply step_bind_image_right
  intro row g' _
  apply step_bind_image (step_lift_image (squares_points hk row) g')
  intro ds g'' _
  rfl

variable [IsStrictOrderedRing F]

theorem add_points (s : Spread F) (row : Nat) :
    (s.scale (k ^ 2)).add (.formula f) (m.points p) row =
      Spread.scale (k ^ 2) <$> s.add (.formula f) p row := by
  unfold Spread.add
  rw [squares_points hk]
  cases Spread.squares (.formula f) p row with
  | error e => rfl
  | ok ds =>
    have hleast : ∀ x y : F, Scalar.least (k ^ 2 * x) (k ^ 2 * y) = k ^ 2 * Scalar.least x y :=
      Exact.least_mul (pow_pos hk.pos 2)
    apply congrArg Except.ok
    simp only [Spread.scale, List.zipWith_map, hleast, List.map_zipWith]

theorem grow_points (count rounds : Nat) (s : Spread F) (g : Generator) :
    Spread.grow (.formula f) (m.points p) count rounds (s.scale (k ^ 2)) g =
      (Spread.scale (k ^ 2) <$> Spread.grow (.formula f) p count rounds s) g := by
  have hpos := pow_pos hk.pos 2
  induction rounds generalizing s g with
  | zero => rfl
  | succ rounds ih =>
    unfold Spread.grow
    rw [Spread.candidates_scale s hpos]
    apply step_bind_image_right
    intro rows g' _
    refine step_bind_image (step_mapM_image_right (v := Spread.scale (k ^ 2)) ?_ g') ?_
    · intro row _ g''
      exact step_lift_image (add_points hk s row) g''
    · intro continuations g'' _
      rw [Spread.best_scale hpos]
      cases Spread.best continuations with
      | none => rfl
      | some next => exact ih next g''

theorem centers_points (seeding : Seeding) (clusters : Int) (g : Generator) :
    seeding.centers (.formula f) (m.points p) clusters g =
      (List.map m.row <$> seeding.centers (.formula f) p clusters) g := by
  unfold Seeding.centers
  rw [size_points]
  split
  · rfl
  · cases seeding with
    | spread count =>
      apply step_bind_image (start_points hk g)
      intro first g' _
      apply step_bind_image (grow_points hk count (clusters.toNat - 1) first g')
      intro all g'' _
      rw [m.select_points]
      rfl
    | random =>
      apply step_bind_image_right
      intro rows g' _
      rw [m.select_points]
      rfl

end Similarity

end Centroids

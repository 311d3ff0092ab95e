import Centroids.Proofs.Batches

/-! Relative differences in exact arithmetic.  A Canberra distance adds up what coordinates differ in
relation to their sizes, but relates it to no less than a least denominator: where coordinates
differ and are smaller than that, a part is too small, and a common factor changes it. -/
namespace Centroids

namespace Canberra

section Parts

variable {F : Type} [Field F] [LinearOrder F]

/-- A difference in relation to the sizes of both coordinates; zeros do not differ. -/
def relative (x c : F) : F := if x = 0 ∧ c = 0 then 0 else |x - c| / (|x| + |c|)

/-- The same in relation to no less than a given number. -/
def quotient (least x c : F) : F := if x = 0 ∧ c = 0 then 0 else |x - c| / max least (|x| + |c|)

/-- A given number is not needed as a denominator: there is no difference, or the sizes reach it. -/
def Reaches (least x c : F) : Prop := x = c ∨ least ≤ |x| + |c|

instance (least x c : F) : Decidable (Reaches least x c) :=
  inferInstanceAs (Decidable (x = c ∨ least ≤ |x| + |c|))

/-- All coordinates of a point and a center, added up. -/
def sum (part : F → F → F) (row center : List F) : F :=
  ((row.zip center).map fun q => part q.1 q.2).sum

variable [IsStrictOrderedRing F] {least less x c k : F}

theorem size_pos (h : ¬(x = 0 ∧ c = 0)) : 0 < |x| + |c| := by
  rcases not_and_or.1 h with hx | hc
  · exact add_pos_of_pos_of_nonneg (abs_pos.2 hx) (abs_nonneg c)
  · exact add_pos_of_nonneg_of_pos (abs_nonneg x) (abs_pos.2 hc)

theorem relative_eq_quotient (x c : F) : relative x c = quotient 0 x c := by
  unfold relative quotient
  rw [max_eq_right (by positivity)]

theorem quotient_nonneg (least x c : F) : 0 ≤ quotient least x c := by
  unfold quotient
  split
  · exact le_rfl
  · rename_i hne
    have hdenominator : 0 < max least (|x| + |c|) := lt_max_of_lt_right (size_pos hne)
    positivity

theorem quotient_le_one (least x c : F) : quotient least x c ≤ 1 := by
  unfold quotient
  split
  · exact zero_le_one
  · rename_i hne
    rw [div_le_one (lt_max_of_lt_right (size_pos hne))]
    exact (abs_sub x c).trans (le_max_right _ _)

/-- Parts become smaller as the least denominator grows, unless it is not needed. -/
theorem quotient_antitone (h : less ≤ least) : quotient least x c ≤ quotient less x c := by
  unfold quotient
  split
  · exact le_rfl
  · rename_i hne
    have hdenominator : 0 < max less (|x| + |c|) := lt_max_of_lt_right (size_pos hne)
    gcongr

theorem quotient_eq_iff (h : less ≤ least) :
    quotient least x c = quotient less x c ↔ least = less ∨ Reaches least x c := by
  unfold quotient Reaches
  by_cases hsame : x = c
  · simp [hsame]
  have hne : ¬(x = 0 ∧ c = 0) := fun hzero => hsame (hzero.1.trans hzero.2.symm)
  have hdifference : |x - c| ≠ 0 := abs_ne_zero.2 (sub_ne_zero.2 hsame)
  rw [if_neg hne, if_neg hne, div_eq_mul_inv, div_eq_mul_inv, mul_right_inj' hdifference, inv_inj]
  constructor
  · intro hmax
    by_contra hneither
    obtain ⟨hdiffer, hsize⟩ := not_or.1 hneither
    have hsmall : |x| + |c| < least := not_le.1 fun hle => hsize (.inr hle)
    have hlt : max less (|x| + |c|) < least := max_lt (h.lt_of_ne' hdiffer) hsmall
    rw [max_eq_left hsmall.le] at hmax
    exact hlt.ne' hmax
  · rintro (rfl | rfl | hreach)
    · rfl
    · exact absurd rfl hsame
    · rw [max_eq_right hreach, max_eq_right (h.trans hreach)]

/-- A common factor is as good as a smaller denominator. -/
theorem quotient_mul (hk : k ≠ 0) :
    quotient least (k * x) (k * c) = quotient (least / |k|) x c := by
  have hpos : 0 < |k| := abs_pos.2 hk
  have hleast : least = |k| * (least / |k|) := (mul_div_cancel₀ _ hpos.ne').symm
  unfold quotient
  simp only [mul_eq_zero, hk, false_or]
  split
  · rfl
  · rw [← mul_sub, abs_mul, abs_mul, abs_mul, ← mul_add]
    conv_lhs => rw [hleast]
    rw [← mul_max_of_nonneg _ _ hpos.le, mul_div_mul_left _ _ hpos.ne']

theorem reaches_mul (hk : k ≠ 0) : Reaches least (k * x) (k * c) ↔ Reaches (least / |k|) x c := by
  unfold Reaches
  rw [mul_right_inj' hk, abs_mul, abs_mul, ← mul_add, div_le_iff₀' (abs_pos.2 hk)]

/-- A common factor changes a part unless both denominators are reached. -/
theorem quotient_mul_eq_iff (hleast : 0 < least) (hk : k ≠ 0) :
    quotient least (k * x) (k * c) = quotient least x c ↔
      |k| = 1 ∨ Reaches least x c ∧ Reaches least (k * x) (k * c) := by
  have hpos : 0 < |k| := abs_pos.2 hk
  have hone : least / |k| = least ↔ |k| = 1 := by
    rw [div_eq_iff hpos.ne', left_eq_mul₀ hleast.ne']
  rw [quotient_mul hk, reaches_mul hk]
  rcases le_total |k| 1 with hsmall | hlarge
  · have hle : least ≤ least / |k| := le_div_self hleast.le hpos hsmall
    have hweaken : Reaches (least / |k|) x c → Reaches least x c := Or.imp_right hle.trans
    rw [quotient_eq_iff hle, hone]
    tauto
  · have hle : least / |k| ≤ least := div_le_self hleast.le hlarge
    have hweaken : Reaches least x c → Reaches (least / |k|) x c := Or.imp_right hle.trans
    rw [eq_comm, quotient_eq_iff hle, eq_comm, hone]
    tauto

/-- Sums of numbers that are at most as great are equal if all the numbers are. -/
theorem sum_map_eq_iff_of_le {β : Type} {f g : β → F} {xs : List β} (h : ∀ q ∈ xs, f q ≤ g q) :
    (xs.map f).sum = (xs.map g).sum ↔ ∀ q ∈ xs, f q = g q := by
  induction xs with
  | nil => simp
  | cons q xs ih =>
    have hrest : ∀ r ∈ xs, f r ≤ g r := fun r hr => h r (List.mem_cons_of_mem _ hr)
    rw [List.map_cons, List.map_cons, List.sum_cons, List.sum_cons,
      add_eq_add_iff_eq_and_eq (h q (List.mem_cons_self ..)) (List.sum_le_sum hrest), ih hrest,
      List.forall_mem_cons]

variable {row center : List F}

theorem sum_quotient_eq_relative_iff (hleast : 0 < least) :
    sum (quotient least) row center = sum relative row center ↔
      ∀ q ∈ row.zip center, Reaches least q.1 q.2 := by
  have hrelative : (relative : F → F → F) = quotient 0 :=
    funext fun x => funext fun c => relative_eq_quotient x c
  unfold sum
  rw [hrelative, sum_map_eq_iff_of_le fun q _ => quotient_antitone hleast.le]
  simp only [quotient_eq_iff hleast.le, hleast.ne', false_or]

theorem zip_replicate_length {β γ : Type} (row : List β) (c : γ) :
    row.zip (List.replicate row.length c) = row.map (·, c) := by
  induction row with
  | nil => rfl
  | cons x row ih => rw [List.length_cons, List.replicate_succ, List.zip_cons_cons, ih, List.map_cons]

/-- From the origin, a point is as far as it has coordinates other than zero. -/
theorem sum_relative_origin (row : List F) :
    sum relative row (List.replicate row.length 0) = row.countP (· ≠ 0) := by
  have hpart : ∀ x : F, relative x 0 = if x = 0 then 0 else 1 := by
    intro x
    by_cases hx : x = 0 <;> simp [relative, hx]
  unfold sum
  rw [zip_replicate_length, List.map_map]
  induction row with
  | nil => simp
  | cons x row ih =>
    rw [List.map_cons, List.sum_cons, ih, List.countP_cons, Function.comp_apply, hpart]
    by_cases hx : x = 0 <;> simp [hx, add_comm]

theorem sum_quotient_mul_eq_iff (hleast : 0 < least) (hk : k ≠ 0) :
    sum (quotient least) (row.map (k * ·)) (center.map (k * ·)) = sum (quotient least) row center ↔
      |k| = 1 ∨ ∀ q ∈ row.zip center,
        Reaches least q.1 q.2 ∧ Reaches least (k * q.1) (k * q.2) := by
  have hzip : sum (quotient least) (row.map (k * ·)) (center.map (k * ·)) =
      ((row.zip center).map fun q => quotient least (k * q.1) (k * q.2)).sum := by
    unfold sum
    rw [List.zip_map, List.map_map]
    rfl
  -- A factor makes all parts greater or all parts smaller.
  have hparts : sum (quotient least) (row.map (k * ·)) (center.map (k * ·)) =
      sum (quotient least) row center ↔ ∀ q ∈ row.zip center,
        quotient least (k * q.1) (k * q.2) = quotient least q.1 q.2 := by
    have hpos : 0 < |k| := abs_pos.2 hk
    rw [hzip]
    simp only [quotient_mul hk]
    rcases le_total |k| 1 with hsmall | hlarge
    · exact sum_map_eq_iff_of_le fun q _ =>
        quotient_antitone (le_div_self hleast.le hpos hsmall)
    · simp only [eq_comm (b := quotient least _ _)]
      rw [eq_comm]
      exact sum_map_eq_iff_of_le fun q _ => quotient_antitone (div_le_self hleast.le hlarge)
  rw [hparts]
  simp only [quotient_mul_eq_iff hleast hk, forall_or_left]

end Parts

end Canberra

theorem Grid.ofList_inj {α : Type} {xs ys : List α} : ofList xs = ofList ys ↔ xs = ys := by
  refine ⟨fun h => ?_, congrArg ofList⟩
  rw [← toList_ofList xs, h, toList_ofList]

/-- All coordinates times one factor. -/
def Points.scaled {F : Type} [Mul F] (k : F) (p : Points F) : Points F :=
  ⟨p.dim, p.rows.map (·.map (k * ·)), by simpa using p.length_row⟩

namespace Formula

open Canberra

variable {F : Type} [Field F] [LinearOrder F] [IsStrictOrderedRing F] [Analytic F]

theorem part_canberra (x c : F) : canberra.part x c = quotient (1 / 10 ^ 30) x c := by
  have hzero : ((|x| + |c| == 0) = true) ↔ x = 0 ∧ c = 0 := by
    refine decide_eq_true_iff.trans ?_
    rw [add_eq_zero_iff_of_nonneg (abs_nonneg x) (abs_nonneg c), abs_eq_zero, abs_eq_zero]
  have hfloor : Scalar.atLeast Scalar.tiny (|x| + |c|) = max (1 / 10 ^ 30) (|x| + |c|) := by
    unfold Scalar.atLeast
    split
    · rename_i hlt
      exact (max_eq_left ((Exact.lt_iff _ _).1 hlt).le).symm
    · rename_i hlt
      exact (max_eq_right (not_lt.1 fun h => hlt ((Exact.lt_iff _ _).2 h))).symm
  unfold quotient
  change (if (|x| + |c| == 0) = true then 0 else
    |x - c| / Scalar.atLeast Scalar.tiny (|x| + |c|)) = _
  rw [hfloor]
  simp only [hzero]

theorem compute_canberra_eq {p : Points F} {center : List F} (hdim : center.length = p.dim) :
    canberra.compute p.toGrid (.ofList center) =
      .ok (.ofList (p.rows.map (sum (quotient (1 / 10 ^ 30)) · center))) := by
  have hwidth : (canberra : Formula F).width? p.dim center.length = some p.dim := by
    rw [hdim]
    exact Grid.joinLength?_self p.dim
  rw [compute_toGrid, distances, hwidth]
  refine congrArg (Except.ok ∘ Grid.ofList) (List.map_congr_left fun row hrow => ?_)
  change Scalar.total (List.zipWith canberra.part (stretchRow p.dim row) (stretchRow p.dim center)) = _
  rw [stretchRow_of_length (p.length_row row hrow), stretchRow_of_length hdim, Exact.total_eq_sum,
    ← List.map_uncurry_zip_eq_zipWith]
  exact congrArg List.sum (List.map_congr_left fun q _ => part_canberra q.1 q.2)

/-- The distance of each point adds up quotients between zero and one, none greater than the relative
difference of its coordinates.  They are the relative differences, count the coordinates other
than zero when the center is the origin, and stay as they are when everything is multiplied by a
factor, exactly where each sum of sizes reaches the least denominator. -/
theorem compute_canberra (p : Points F) (center : List F) (hdim : center.length = p.dim) :
    canberra.compute p.toGrid (.ofList center) =
      .ok (.ofList (p.rows.map (sum (quotient (1 / 10 ^ 30)) · center))) ∧
    (∀ row ∈ p.rows, ∀ q ∈ row.zip center, 0 ≤ quotient (1 / 10 ^ 30) q.1 q.2 ∧
      quotient (1 / 10 ^ 30) q.1 q.2 ≤ relative q.1 q.2 ∧ relative q.1 q.2 ≤ 1) ∧
    (canberra.compute p.toGrid (.ofList center) =
        .ok (.ofList (p.rows.map (sum relative · center))) ↔
      ∀ row ∈ p.rows, ∀ q ∈ row.zip center, Reaches (1 / 10 ^ 30) q.1 q.2) ∧
    (canberra.compute p.toGrid (.ofList (List.replicate p.dim 0)) =
        .ok (.ofList (p.rows.map fun row => (row.countP (· ≠ 0) : F))) ↔
      ∀ row ∈ p.rows, ∀ x ∈ row, x = 0 ∨ 1 / 10 ^ 30 ≤ |x|) ∧
    ∀ k : F, k ≠ 0 →
      (canberra.compute (p.scaled k).toGrid (.ofList (center.map (k * ·))) =
          canberra.compute p.toGrid (.ofList center) ↔
        ∀ row ∈ p.rows, |k| = 1 ∨ ∀ q ∈ row.zip center,
          Reaches (1 / 10 ^ 30) q.1 q.2 ∧ Reaches (1 / 10 ^ 30) (k * q.1) (k * q.2)) := by
  have hleast : (0 : F) < 1 / 10 ^ 30 := by positivity
  have hvalues : ∀ xs ys : List F, (Except.ok (Grid.ofList xs) : Except Fault (Grid F)) =
      .ok (.ofList ys) ↔ xs = ys := by
    intro xs ys
    rw [Except.ok.injEq]
    exact Grid.ofList_inj
  refine ⟨compute_canberra_eq hdim, ?_, ?_, ?_, ?_⟩
  · intro row _ q _
    rw [relative_eq_quotient]
    exact ⟨quotient_nonneg _ _ _, quotient_antitone hleast.le, quotient_le_one _ _ _⟩
  · rw [compute_canberra_eq hdim, hvalues, List.map_inj_left]
    exact forall₂_congr fun row _ => sum_quotient_eq_relative_iff hleast
  · rw [compute_canberra_eq (List.length_replicate), hvalues, List.map_inj_left]
    refine forall₂_congr fun row hrow => ?_
    have hreaches : (∀ x ∈ row, x = 0 ∨ 1 / 10 ^ 30 ≤ |x|) ↔
        ∀ q ∈ row.zip (List.replicate row.length 0), Reaches (1 / 10 ^ 30) q.1 q.2 := by
      rw [zip_replicate_length, List.forall_mem_map]
      simp only [Reaches, abs_zero, add_zero]
    rw [← p.length_row row hrow, ← sum_relative_origin, sum_quotient_eq_relative_iff hleast, hreaches]
  · intro k hk
    have hscaled : (center.map (k * ·)).length = (p.scaled k).dim := by
      rw [List.length_map]
      exact hdim
    rw [compute_canberra_eq hdim, compute_canberra_eq hscaled, hvalues]
    simp only [Points.scaled, List.map_map]
    rw [List.map_inj_left]
    exact forall₂_congr fun row _ => sum_quotient_mul_eq_iff hleast hk

section Coordinates

/-- Neither roots nor clocks count in relative differences. -/
local instance undrawn : Analytic ℚ := ⟨Rat.sqrt, fun _ => 1⟩

def spots : Points ℚ := ⟨2, [[1, 0], [3, 0], [-1, 2]], by simp⟩

theorem compute_canberra_spots :
    canberra.compute spots.toGrid (.ofList [1, 0]) = .ok (.ofList [(0 : ℚ), 1 / 2, 2]) ∧
      canberra.compute (spots.scaled (-3)).toGrid (.ofList [-3, 0]) =
        .ok (.ofList [(0 : ℚ), 1 / 2, 2]) := by
  have hreached : ∀ row ∈ spots.rows, ∀ q ∈ row.zip [1, 0],
      Reaches (1 / 10 ^ 30) q.1 q.2 ∧ Reaches (1 / 10 ^ 30) (-3 * q.1) (-3 * q.2) := by
    decide +kernel
  have hvalues : spots.rows.map (Canberra.sum relative · [1, 0]) = [0, 1 / 2, 2] := by
    decide +kernel
  have hcenter : ([1, 0] : List ℚ).map (-3 * ·) = [-3, 0] := by decide +kernel
  obtain ⟨-, -, hrelative, -, hscaled⟩ := compute_canberra spots [1, 0] rfl
  have hcompute := hrelative.2 fun row hrow q hq => (hreached row hrow q hq).1
  have hsame := (hscaled (-3) (by decide +kernel)).2 fun row hrow => .inr (hreached row hrow)
  rw [hvalues] at hcompute
  rw [hcenter, hcompute] at hsame
  exact ⟨hcompute, hsame⟩

/-- A coordinate below the least denominator: a tenth of what its relative difference is, and of what
the distance becomes when everything is ten times as great. -/
theorem compute_canberra_shrinks :
    canberra.compute (Points.lone [(1 / 10 ^ 31 : ℚ)]).toGrid (.ofList [0]) =
        .ok (.ofList [1 / 10]) ∧
      relative (1 / 10 ^ 31 : ℚ) 0 = 1 ∧
      canberra.compute ((Points.lone [(1 / 10 ^ 31 : ℚ)]).scaled 10).toGrid (.ofList [0]) =
        .ok (.ofList [1]) := by
  rw [compute_canberra_eq rfl, compute_canberra_eq rfl]
  decide +kernel

end Coordinates

end Formula

end Centroids

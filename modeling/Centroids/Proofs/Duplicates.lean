import Centroids.Proofs.Availability
import Centroids.Proofs.Coverage
import Centroids.Proofs.Nearest

/-! Equal rows.  Numbers that compare as equal are the same up to the sign of a zero, which no distance
shows; so equal rows get equal distances from every center, and one label.  There are no more
clusters with members than distinct rows. -/
namespace Centroids

open Float.Model (UnpackedFloat)
open Float.Model.UnpackedFloat (Sign)

section Number

/-- The same number, up to the sign of a zero. -/
inductive Same : UnpackedFloat → UnpackedFloat → Prop
  | refl (x : UnpackedFloat) : Same x x
  | zero (s t : Sign) : Same (.zero s) (.zero t)

theorem same_of_beq {a b : UnpackedFloat} (h : a.beq b = true) : Same a b := by
  rw [unpacked_beq_iff] at h
  rcases a with (_ | _) | _ | s | ⟨_ | _, m, e, hm⟩ <;>
    rcases b with (_ | _) | _ | t | ⟨_ | _, n, f, hn⟩ <;>
    simp [UnpackedFloat.isNaN, standing, Sign.apply] at h
  · exact .refl _
  · exact .refl _
  · exact .zero s t
  all_goals
    obtain ⟨rfl, rfl⟩ := h
    exact .refl _

variable {a b c : UnpackedFloat}

theorem Same.sub (h : Same a b) (c : UnpackedFloat) :
    Same (.sub .binary32 a c) (.sub .binary32 b c) := by
  cases h with
  | refl => exact .refl _
  | zero s t =>
    rcases c with u | _ | u | ⟨u, n, f, hn⟩
    · exact .refl _
    · exact .refl _
    · cases s <;> cases t <;> cases u <;> exact .zero _ _
    · exact .refl _

theorem Same.store (h : Same a b) : Same (.unpack .binary32 (UnpackedFloat.pack .binary32 a))
    (.unpack .binary32 (UnpackedFloat.pack .binary32 b)) := by
  cases h with
  | refl => exact .refl _
  | zero s t => cases s <;> cases t <;> exact .zero _ _

theorem Same.mul_self (h : Same a b) : UnpackedFloat.mul .binary32 a a = .mul .binary32 b b := by
  cases h with
  | refl => rfl
  | zero s t => cases s <;> cases t <;> rfl

theorem Same.abs_eq (h : Same a b) : a.abs = b.abs := by
  cases h <;> rfl

/-- A weight times a difference twice does not show the sign of a zero. -/
theorem Same.weigh (h : Same a b) (c : UnpackedFloat) :
    UnpackedFloat.mul .binary32 (.unpack .binary32 (UnpackedFloat.pack .binary32
        (.mul .binary32 c a))) a =
      .mul .binary32 (.unpack .binary32 (UnpackedFloat.pack .binary32 (.mul .binary32 c b))) b := by
  cases h with
  | refl => rfl
  | zero s t =>
    have hnan : ∀ x, UnpackedFloat.mul .binary32
        (.unpack .binary32 (UnpackedFloat.pack .binary32 .notANumber)) x = .notANumber :=
      fun _ => rfl
    have hzero : ∀ r s, UnpackedFloat.mul .binary32
        (.unpack .binary32 (UnpackedFloat.pack .binary32 (.zero r))) (.zero s) = .zero (r * s) := by
      intro r s
      cases r <;> rfl
    have hsign : ∀ u : Sign, u * s * s = u * t * t := by
      intro u
      cases s <;> cases t <;> cases u <;> rfl
    rcases c with u | _ | u | ⟨u, n, f, hn⟩
    · exact (hnan _).trans (hnan _).symm
    · exact (hnan _).trans (hnan _).symm
    · exact (hzero (u * s) s).trans ((congrArg _ (hsign u)).trans (hzero (u * t) t).symm)
    · exact (hzero (u * s) s).trans ((congrArg _ (hsign u)).trans (hzero (u * t) t).symm)

end Number

section Lists

variable {β γ δ : Type}

theorem list_beq_iff [BEq β] {xs ys : List β} :
    (xs == ys) = true ↔ List.Forall₂ (fun x y => (x == y) = true) xs ys := by
  induction xs generalizing ys with
  | nil => cases ys <;> simp
  | cons x xs ih =>
    cases ys with
    | nil => simp
    | cons y ys => rw [List.cons_beq_cons, Bool.and_eq_true, List.forall₂_cons, ih]

instance instPartialEquivBEqList [BEq β] [PartialEquivBEq β] : PartialEquivBEq (List β) where
  symm h := by
    rw [list_beq_iff] at h ⊢
    exact (h.imp fun _ _ hxy => BEq.symm hxy).flip
  trans {xs ys zs} hxy hyz := by
    rw [list_beq_iff] at hxy hyz ⊢
    induction hxy generalizing zs with
    | nil => exact hyz
    | cons hfirst _ ih =>
      cases hyz with
      | cons hnext hrest => exact .cons (BEq.trans hfirst hnext) (ih hrest)

theorem forall₂_zipWith {R : β → β → Prop} {S : δ → δ → Prop} {g : β → γ → δ}
    (h : ∀ x y z, R x y → S (g x z) (g y z)) {xs ys : List β} (hxy : List.Forall₂ R xs ys)
    (zs : List γ) : List.Forall₂ S (List.zipWith g xs zs) (List.zipWith g ys zs) := by
  induction hxy generalizing zs with
  | nil => exact .nil
  | cons hfirst _ ih =>
    cases zs with
    | nil => exact .nil
    | cons z zs => exact .cons (h _ _ z hfirst) (ih zs)

theorem forall₂_replicate {R : β → β → Prop} {x y : β} (h : R x y) (n : Nat) :
    List.Forall₂ R (List.replicate n x) (List.replicate n y) := by
  induction n with
  | zero => exact .nil
  | succ n ih => exact .cons h ih

theorem forall₂_stretchRow [Scalar β] {R : β → β → Prop} (hzero : R 0 0) {xs ys : List β}
    (h : List.Forall₂ R xs ys) (width : Nat) :
    List.Forall₂ R (Formula.stretchRow width xs) (Formula.stretchRow width ys) := by
  unfold Formula.stretchRow
  rw [h.length_eq]
  split
  · exact h
  · have hhead : R (xs.headD 0) (ys.headD 0) := by
      cases h with
      | nil => exact hzero
      | cons hfirst _ => exact hfirst
    exact forall₂_replicate hhead width

end Lists

instance instPartialEquivBEqSingle : PartialEquivBEq Float32 where
  symm h := by
    rw [single_beq_iff] at h ⊢
    exact ⟨h.2.1, h.1, h.2.2.symm⟩
  trans hxy hyz := by
    rw [single_beq_iff] at hxy hyz ⊢
    exact ⟨hxy.1, hyz.2.1, hxy.2.2.trans hyz.2.2⟩

namespace Formula

variable {x y : Float32} {xs ys : List Float32}

theorem same_sub (h : (x == y) = true) (c : Float32) :
    Same (Single.unpack (x - c)) (Single.unpack (y - c)) :=
  ((same_of_beq h).sub (Single.unpack c)).store

theorem mul_self_congr (h : Same (Single.unpack x) (Single.unpack y)) : x * x = y * y :=
  congrArg (fun u => Float32.ofModel (Float32.Model.pack u)) h.mul_self

theorem abs_congr (h : Same (Single.unpack x) (Single.unpack y)) : x.abs = y.abs :=
  congrArg (fun u => Float32.ofModel (Float32.Model.pack u)) h.abs_eq

theorem weigh_congr (h : Same (Single.unpack x) (Single.unpack y)) (weight : Float32) :
    weigh weight x = weigh weight y :=
  congrArg (fun u => Float32.ofModel (Float32.Model.pack u)) (h.weigh (Single.unpack weight))

/-- Equal coordinates contribute the same, unless their difference is still to be weighed. -/
theorem part_congr {f : Formula Float32} (hf : ∀ weights squared, f ≠ .weighted weights squared)
    (h : (x == y) = true) (c : Float32) : f.part x c = f.part y c := by
  have hdifference := same_sub h c
  cases f with
  | euclidean squared => exact mul_self_congr hdifference
  | weighted weights squared => exact absurd rfl (hf weights squared)
  | manhattan => exact abs_congr hdifference
  | chebyshev => exact abs_congr hdifference
  | canberra =>
    have hsize : Scalar.abs x = Scalar.abs y := abs_congr (same_of_beq h)
    have hdistance : Scalar.abs (x - c) = Scalar.abs (y - c) := abs_congr hdifference
    unfold part
    dsimp only
    rw [hsize, hdistance]

theorem zero_beq_zero : ((0 : Float32) == 0) = true := by decide

theorem parts_congr (f : Formula Float32) (width : Nat) (h : (xs == ys) = true)
    (center : List Float32) : f.parts width xs center = f.parts width ys center := by
  have hrows := forall₂_stretchRow zero_beq_zero (list_beq_iff.1 h) width
  by_cases hf : ∃ weights squared, f = .weighted weights squared
  · obtain ⟨weights, squared, rfl⟩ := hf
    have hdifferences := forall₂_zipWith (S := fun d e => Same (Single.unpack d) (Single.unpack e))
      (g := (weighted weights squared).part) (fun _ _ c hxy => same_sub hxy c) hrows
      (stretchRow width center)
    have hweighed := forall₂_zipWith (S := Eq) (g := fun d w => weigh w d)
      (fun _ _ w hsame => weigh_congr hsame w) hdifferences (stretchRow width weights)
    rw [List.forall₂_eq_eq_eq] at hweighed
    unfold parts
    dsimp only
    rw [List.zipWith_comm, List.zipWith_comm (f := weigh)]
    exact hweighed
  · have hplain : ∀ weights squared, f ≠ .weighted weights squared :=
      fun weights squared heq => hf ⟨weights, squared, heq⟩
    have hparts := forall₂_zipWith (S := Eq) (g := f.part)
      (fun _ _ c hxy => part_congr hplain hxy c) hrows (stretchRow width center)
    rw [List.forall₂_eq_eq_eq] at hparts
    unfold parts
    split
    · rename_i weights squared
      exact absurd rfl (hplain weights squared)
    · exact hparts

/-- Equal rows are equally far from every center. -/
theorem between_congr (f : Formula Float32) (width : Nat) (h : (xs == ys) = true)
    (center : List Float32) : f.between width xs center = f.between width ys center := by
  unfold between
  rw [f.parts_congr width h]

end Formula

section Labels

variable {α : Type} [Scalar α] {metric : Metric α} {points : Points α} {centers : List (List α)}
  {labels : List Int}

/-- Rows that are equally far from every center get one label. -/
theorem Assignment.label_congr (h : Assignment.labels metric points centers = .ok labels)
    {i j : Nat} (hi : i < points.size) (hj : j < points.size)
    (hsame : ∀ center ∈ centers, ∀ ds, metric.distances points center = .ok ds →
      ds.getD i 0 = ds.getD j 0) : labels[i]? = labels[j]? := by
  obtain ⟨-, columns, hcolumns, rfl⟩ := labels_eq_ok.1 h
  have hlength := length_of_mem_columns hcolumns
  have hrow : columns.map (·.getD i 0) = columns.map (·.getD j 0) := by
    apply List.map_congr_left
    intro column hcolumn
    have hmem : (.ok column : Except Fault (List α)) ∈ centers.map (metric.distances points) := by
      rw [mapM_eq_ok.1 hcolumns]
      exact List.mem_map_of_mem hcolumn
    obtain ⟨center, hcenter, hdistances⟩ := List.mem_map.1 hmem
    exact hsame center hcenter column hdistances
  rw [List.getElem?_map, List.getElem?_map, getElem?_transpose hlength hi 0,
    getElem?_transpose hlength hj 0, hrow]

/-- Where each point has the label of one of a few rows, there are no more clusters with members than
these. -/
theorem Trial.Assigned.countP_le {count : Nat} {clusters : Partition α} {reps : List Nat}
    (h : Trial.Assigned metric points count clusters labels)
    (hreps : ∀ i < points.size, ∃ j ∈ reps, labels[j]? = labels[i]?) :
    clusters.countP (fun c => !c.isEmpty) ≤ reps.length := by
  have hwithin := h.divides.toShares.within
  have hmembers : ∀ c ∈ clusters, (!c.isEmpty) = true ↔ decide (c.places ≠ []) = true := by
    intro c hc
    rw [Bool.not_eq_true', ← Bool.not_eq_true, (hwithin c hc).isEmpty_iff, decide_eq_true_iff]
  have hfilled : clusters.countP (fun c => !c.isEmpty) =
      ((List.range count).filter fun k => Assignment.places labels k ≠ []).length := by
    have hplaces := h.groups.map_places
    rw [List.length_map, h.length_eq] at hplaces
    rw [List.countP_congr hmembers, ← List.countP_eq_length_filter]
    change clusters.countP ((fun places => decide (places ≠ [])) ∘ Cluster.places) = _
    rw [← List.countP_map, hplaces, List.countP_map]
    rfl
  have hsubset : (List.range count).filter (fun k => Assignment.places labels k ≠ []) ⊆
      reps.map fun j => (labels.getD j 0).toNat := by
    intro k hk
    have hne := of_decide_eq_true (List.mem_filter.1 hk).2
    obtain ⟨i, hi⟩ := List.exists_mem_of_ne_nil _ hne
    rw [Assignment.mem_places] at hi
    have hlt := (List.getElem?_eq_some_iff.1 hi).1
    rw [h.length_labels] at hlt
    obtain ⟨j, hj, hsame⟩ := hreps i hlt
    refine List.mem_map.2 ⟨j, hj, ?_⟩
    rw [List.getD_eq_getElem?_getD, hsame, hi]
    rfl
  have hnodup : ((List.range count).filter fun k => Assignment.places labels k ≠ []).Nodup :=
    List.nodup_range.filter _
  calc clusters.countP (fun c => !c.isEmpty)
      = ((List.range count).filter fun k => Assignment.places labels k ≠ []).length := hfilled
    _ ≤ (reps.map fun j => (labels.getD j 0).toNat).length :=
      (List.subperm_of_subset hnodup hsubset).length_le
    _ = reps.length := List.length_map _

end Labels

namespace Points

variable {α : Type} [BEq α]

/-- One row of each kind, where rows with equal numbers are of one kind. -/
def distinct (p : Points α) : List (List α) := p.rows.pwFilter fun x y => (x == y) = false

theorem exists_beq_of_mem [PartialEquivBEq α] {p : Points α} {row : List α} (hrow : row ∈ p.rows)
    (hself : (row == row) = true) : ∃ kind ∈ p.distinct, (row == kind) = true := by
  by_contra hnone
  have hdiffers : ∀ {x y z : List α}, (x == z) = false → (x == y) = false ∨ (y == z) = false := by
    intro x y z hxz
    by_contra hboth
    rw [not_or, Bool.not_eq_false, Bool.not_eq_false] at hboth
    rw [BEq.trans hboth.1 hboth.2] at hxz
    cases hxz
  have hkinds : ∀ kind ∈ p.distinct, (row == kind) = false := by
    intro kind hkind
    rw [← Bool.not_eq_true]
    exact fun hsame => hnone ⟨kind, hkind, hsame⟩
  have hrows := (List.forall_mem_pwFilter (R := fun x y => (x == y) = false) hdiffers row p.rows).1
    hkinds
  rw [hrows row hrow] at hself
  cases hself

end Points

/-- The distances of equal rows from a center stand at the places of both rows. -/
theorem Formula.getD_distances {f : Formula Float32} {points : Points Float32}
    {center ds : List Float32} (h : f.distances points center = .ok ds) {i j : Nat}
    (hi : i < points.size) (hj : j < points.size)
    (hsame : (points.row i == points.row j) = true) : ds.getD i 0 = ds.getD j 0 := by
  unfold Formula.distances at h
  split at h
  · rename_i width _
    cases h
    rw [Points.getD_map_rows hi, Points.getD_map_rows hj, f.between_congr width hsame]
  · cases h

/-- There are no more clusters with members than distinct rows. -/
theorem Trial.Assigned.countP_le_distinct {f : Formula Float32} {metric : Metric Float32}
    {points : Points Float32} {count : Nat} {clusters : Partition Float32} {labels : List Int}
    (hmetric : metric = .formula f) (hself : ∀ row ∈ points.rows, (row == row) = true)
    (h : Trial.Assigned metric points count clusters labels) :
    clusters.countP (fun c => !c.isEmpty) ≤ points.distinct.length := by
  have hreps : ∀ i < points.size,
      ∃ j ∈ points.distinct.map fun kind => points.rows.findIdx (· == kind),
        labels[j]? = labels[i]? := by
    intro i hi
    have hrow := List.mem_of_getElem? (Points.getElem?_rows hi)
    obtain ⟨kind, hkind, hsame⟩ := Points.exists_beq_of_mem hrow (hself _ hrow)
    have hj : points.rows.findIdx (· == kind) < points.size :=
      List.findIdx_lt_length_of_exists ⟨_, hrow, hsame⟩
    refine ⟨_, List.mem_map_of_mem hkind, ?_⟩
    refine Assignment.label_congr h.labelled hj hi ?_
    intro center _ ds hds
    rw [hmetric] at hds
    apply Formula.getD_distances hds hj hi
    have hfirst : (points.row (points.rows.findIdx (· == kind)) == kind) = true := by
      have hat := Points.getElem?_rows hj
      rw [List.getElem?_eq_getElem hj] at hat
      rw [← Option.some.inj hat]
      exact List.findIdx_getElem (p := (· == kind))
    exact BEq.trans hfirst (BEq.symm hsame)
  have hle := h.countP_le hreps
  rwa [List.length_map] at hle

end Centroids

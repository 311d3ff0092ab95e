import Centroids.Proofs.Batches
import Centroids.Proofs.Opposites

/-! Laws of the built-in metrics in single precision.  Between points with finite coordinates a distance
is the same both ways, not negative, and zero from a point to itself, unless it is a NaN; which
pairs of points that happens to can be read off their coordinates and the weights.  What a metric
gives a point does not depend on the points beside it. -/
namespace Centroids

open Float.Model (UnpackedFloat)
open Float.Model.UnpackedFloat (Sign)

namespace Scalar

variable {x y c : Float32} {xs : List Float32}

theorem isNaN_eq (x : Float32) : isNaN x = (Single.unpack x).isNaN := by
  cases hx : (Single.unpack x).isNaN with
  | true =>
    have hne : (x == x) ≠ true := fun h => Bool.false_ne_true (((single_beq_iff x x).1 h).1.symm.trans hx)
    simp [isNaN, hne]
  | false =>
    have heq : (x == x) = true := (single_beq_iff x x).2 ⟨hx, hx, rfl⟩
    simp [isNaN, heq]

theorem isFinite_eq (x : Float32) : isFinite x = (Single.unpack x).isFinite := rfl

theorem isNaN_difference (hx : isFinite x = true) (hc : isFinite c = true) : isNaN (x - c) = false := by
  rw [isNaN_eq]
  exact (isNaN_stored _).trans (isNaN_sub hx hc)

theorem isNaN_square (hx : isNaN x = false) : isNaN (x * x) = false := by
  rw [isNaN_eq] at hx ⊢
  exact (isNaN_stored _).trans (isNaN_mul_self hx)

theorem isNaN_size (x : Float32) : isNaN (abs x) = isNaN x := by
  rw [isNaN_eq, isNaN_eq]
  exact (isNaN_stored _).trans (isNaN_abs _)

theorem isNaN_sum (hx : NotNegative x) (hy : NotNegative y) : isNaN (x + y) = (isNaN x || isNaN y) := by
  rw [notNegative_iff] at hx hy
  rw [isNaN_eq, isNaN_eq, isNaN_eq]
  exact (isNaN_stored _).trans (isNaN_add hx hy)

theorem isNaN_root (hx : NotNegative x) : isNaN (sqrt x) = isNaN x := by
  rw [notNegative_iff] at hx
  rw [isNaN_eq, isNaN_eq]
  exact (isNaN_stored _).trans (isNaN_sqrt hx)

theorem beq_zero_iff (x : Float32) : (x == 0) = true ↔ isZero (Single.unpack x) = true := by
  refine (unpacked_beq_iff (Single.unpack x) (.zero .positive)).trans ?_
  rcases Single.unpack x with (_ | _) | _ | s | ⟨_ | _, m, e, hm⟩ <;>
    simp [standing, isZero, UnpackedFloat.isNaN, Sign.apply]

/-- Infinite, or a NaN. -/
theorem isFinite_eq_false_iff (x : Float32) : isFinite x = false ↔
    (Single.unpack x).isInf = true ∨ isNaN x = true := by
  rw [isFinite_eq, isNaN_eq]
  cases Single.unpack x <;> simp [UnpackedFloat.isFinite, UnpackedFloat.isInf, UnpackedFloat.isNaN]

/-- Sizes are stored as they are. -/
theorem unpack_size (x : Float32) : Single.unpack (abs x) = (Single.unpack x).abs := by
  have hself : UnpackedFloat.unpack .binary32 (UnpackedFloat.pack .binary32 (Single.unpack x)) =
      Single.unpack x :=
    congrArg (UnpackedFloat.unpack .binary32) (UnpackedFloat.pack_unpack_of_valid x.toModel.valid)
  have hsign : (Single.unpack x).abs = Single.unpack x ∨
      (Single.unpack x).abs = (Single.unpack x).neg := by
    rcases Single.unpack x with (_ | _) | _ | (_ | _) | ⟨_ | _, m, e, hm⟩ <;>
      first | exact .inl rfl | exact .inr rfl
  change UnpackedFloat.unpack .binary32 (UnpackedFloat.pack .binary32 (Single.unpack x).abs) = _
  rcases hsign with hsign | hsign
  · rw [hsign, hself]
  · rw [hsign, neg_store, hself]

theorem isFinite_size (x : Float32) : isFinite (abs x) = isFinite x := by
  rw [isFinite_eq, isFinite_eq, unpack_size]
  cases Single.unpack x <;> rfl

/-- Nothing infinite is below a number, if it is not negative. -/
theorem isFinite_of_lt (hx : NotNegative x) (hlt : lt x y = true) : isFinite x = true := by
  rw [isFinite_eq]
  rw [notNegative_iff] at hx
  have hlt := (Formatted.lt_iff x y).1 hlt
  change Leans .positive (Single.unpack x) at hx
  change (Single.unpack x).lt _ = true at hlt
  generalize Single.unpack x = u at hx hlt ⊢
  generalize Formatted.unpack y = v at hlt
  rcases u with s | _ | s | ⟨s, m, e, hm⟩
  · cases hx
    rcases v with (_ | _) | _ | (_ | _) | ⟨_ | _, n, f, hn⟩ <;> cases hlt
  · cases hlt
  · rfl
  · rfl

theorem isNaN_of_isFinite (hx : isFinite x = true) : isNaN x = false := by
  rw [isNaN_eq]
  rw [isFinite_eq] at hx
  generalize Single.unpack x = u at hx ⊢
  cases u <;> first | rfl | cases hx

theorem isNaN_ratio (hx : isNaN x = false) (hy : isNaN y = false) (hlt : lt y tiny = false) :
    isNaN (x / y) = true ↔ isFinite x = false ∧ isFinite y = false := by
  have hratio : isNaN (x / y) = (isNaN x || isNaN y ||
      (Single.unpack x).isInf && (Single.unpack y).isInf) := by
    rw [isNaN_eq, isNaN_eq, isNaN_eq]
    exact (isNaN_stored _).trans (isNaN_div (notNegative_of_not_lt hlt).2)
  rw [hratio, isFinite_eq_false_iff, isFinite_eq_false_iff, hx, hy]
  simp

/-- A sum of numbers that are not negative is a NaN only of one. -/
theorem isNaN_total (h : ∀ x ∈ xs, NotNegative x) :
    isNaN (total xs) = true ↔ ∃ x ∈ xs, isNaN x = true := by
  induction xs using List.reverseRecOn with
  | nil => simpa using by decide
  | append_singleton xs x ih =>
    rw [List.forall_mem_append, List.forall_mem_singleton] at h
    rw [total_concat, isNaN_sum (notNegative_total h.1) h.2, Bool.or_eq_true, ih h.1]
    simp [or_and_right, exists_or]

/-- Zero in relation to a denominator. -/
theorem zero_ratio (hy : isNaN y = false) (hlt : lt y tiny = false) : 0 / y = 0 := by
  obtain ⟨hpositive, hne⟩ := notNegative_of_not_lt hlt
  rw [notNegative_iff] at hpositive
  rw [isNaN_eq] at hy
  change Float32.ofModel (Float32.Model.pack
    (.div .binary32 (.zero .positive) (Single.unpack y))) = 0
  change ∀ sign, Single.unpack y ≠ .zero sign at hne
  change Leans .positive (Single.unpack y) at hpositive
  generalize Single.unpack y = u at hpositive hne hy ⊢
  rcases u with s | _ | s | ⟨s, m, e, hm⟩ <;> cases hpositive
  · rfl
  · cases hy
  · exact absurd rfl (hne s)
  · rfl

/-- Zeros add up to zero, whatever their signs. -/
theorem total_eq_zero (h : ∀ x ∈ xs, isZero (Single.unpack x) = true) : total xs = 0 := by
  induction xs using List.reverseRecOn with
  | nil => rfl
  | append_singleton xs x ih =>
    rw [List.forall_mem_append, List.forall_mem_singleton] at h
    rw [total_concat, ih h.1]
    change Float32.ofModel (Float32.Model.pack
      (.add .binary32 (.zero .positive) (Single.unpack x))) = 0
    cases hx : Single.unpack x with
    | zero s => cases s <;> rfl
    | infinity | notANumber | finite =>
      rw [hx] at h
      cases h.2

/-- A finite number differs from itself by zero. -/
theorem difference_self (hx : isFinite x = true) : x - x = 0 := by
  rw [isFinite_eq] at hx
  change Float32.ofModel (Float32.Model.pack (.sub .binary32 (Single.unpack x) (Single.unpack x))) = 0
  rw [sub_self_unpacked hx]
  rfl

end Scalar

namespace Formula

variable {f : Formula Float32} {width : Nat} {x c : List Float32}

/-- A weight that is a NaN, or zero and infinity as weight and difference. -/
def Spoils (weight d : Float32) : Prop :=
  Scalar.isNaN weight = true ∨ (weight == 0) = true ∧ Scalar.isFinite d = false ∨
    Scalar.isFinite weight = false ∧ (d == 0) = true

instance (weight d : Float32) : Decidable (Spoils weight d) :=
  inferInstanceAs (Decidable (_ ∨ _ ∧ _ ∨ _ ∧ _))

/-- Coordinates whose difference and sizes overflow. -/
def Overflow (x c : Float32) : Prop :=
  Scalar.isFinite (x - c) = false ∧ Scalar.isFinite (Scalar.abs x + Scalar.abs c) = false

instance (x c : Float32) : Decidable (Overflow x c) := inferInstanceAs (Decidable (_ ∧ _))

/-- Points for which a formula has no value, as a contribution is a product of zero and infinity or a
quotient of infinities, or a weight is a NaN. -/
def Undefined (f : Formula Float32) (width : Nat) (x c : List Float32) : Prop :=
  match f with
  | weighted weights _ => ∃ q ∈ (stretchRow width weights).zip
      (List.zipWith (· - ·) (stretchRow width x) (stretchRow width c)), Spoils q.1 q.2
  | canberra => ∃ q ∈ (stretchRow width x).zip (stretchRow width c), Overflow q.1 q.2
  | _ => False

instance instDecidableUndefined :
    (f : Formula Float32) → (width : Nat) → (x c : List Float32) → Decidable (f.Undefined width x c)
  | weighted weights _, width, x, c => inferInstanceAs (Decidable (∃ q ∈ (stretchRow width weights).zip
      (List.zipWith (· - ·) (stretchRow width x) (stretchRow width c)), Spoils q.1 q.2))
  | canberra, width, x, c => inferInstanceAs (Decidable
      (∃ q ∈ (stretchRow width x).zip (stretchRow width c), Overflow q.1 q.2))
  | euclidean _, _, _, _ | manhattan, _, _, _ | chebyshev, _, _, _ => inferInstanceAs (Decidable False)

section Symmetry

theorem part_swap (hf : ∀ weights squared, f ≠ .weighted weights squared) (x c : Float32) :
    f.part c x = f.part x c := by
  have hdifference := mirrored_difference x c
  cases f with
  | euclidean squared => exact mul_self_mirror hdifference
  | weighted weights squared => exact absurd rfl (hf weights squared)
  | manhattan => exact abs_mirror hdifference
  | chebyshev => exact abs_mirror hdifference
  | canberra =>
    have hdistance : Scalar.abs (c - x) = Scalar.abs (x - c) := abs_mirror hdifference
    unfold part
    dsimp only
    rw [single_add_comm, hdistance]

/-- All contributions are the same both ways. -/
theorem parts_swap (f : Formula Float32) (width : Nat) (x c : List Float32) :
    f.parts width c x = f.parts width x c := by
  cases f with
  | weighted weights squared =>
    apply List.ext_getElem
    · simp [parts, length_stretchRow]
    intro i hi hi'
    simp only [parts, List.getElem_zipWith]
    exact weigh_mirror (mirrored_difference _ _) _
  | euclidean squared | manhattan | chebyshev | canberra =>
    unfold parts
    dsimp only
    rw [List.zipWith_comm]
    congr 1
    funext x c
    refine part_swap ?_ x c
    rintro _ _ ⟨⟩

theorem between_swap (f : Formula Float32) (width : Nat) (x c : List Float32) :
    f.between width c x = f.between width x c := by
  unfold between
  rw [parts_swap]

end Symmetry

section Values

theorem exists_mem_zipWith {g : Float32 → Float32 → Float32} {P : Float32 → Prop}
    {xs ys : List Float32} : (∃ z ∈ List.zipWith g xs ys, P z) ↔ ∃ q ∈ xs.zip ys, P (g q.1 q.2) := by
  rw [← List.map_uncurry_zip_eq_zipWith]
  simp [Function.uncurry]

theorem isNaN_weighed {weight d : Float32} (hd : Scalar.isNaN d = false) :
    Scalar.isNaN (weigh weight d) = true ↔ Spoils weight d := by
  have hd' : (Single.unpack d).isNaN = false := by rwa [← Scalar.isNaN_eq]
  have hweigh : Scalar.isNaN (weigh weight d) = (Scalar.isNaN weight ||
      isZero (Single.unpack weight) && (Single.unpack d).isInf ||
      (Single.unpack weight).isInf && isZero (Single.unpack d)) := by
    rw [Scalar.isNaN_eq, Scalar.isNaN_eq]
    exact (isNaN_stored _).trans (isNaN_weigh hd')
  unfold Spoils
  rw [hweigh, Scalar.beq_zero_iff, Scalar.beq_zero_iff, Scalar.isFinite_eq_false_iff,
    Scalar.isFinite_eq_false_iff, hd]
  simp only [Bool.or_eq_true, Bool.and_eq_true, Bool.false_eq_true, or_false]
  tauto

/-- A denominator is a number, is not below the least one, and is infinite if the sizes add up to
infinity. -/
theorem denominator {x c : Float32} (hx : Scalar.isFinite x = true) (hc : Scalar.isFinite c = true) :
    let y := Scalar.atLeast Scalar.tiny (Scalar.abs x + Scalar.abs c)
    Scalar.isNaN y = false ∧ Scalar.lt y Scalar.tiny = false ∧
      Scalar.isFinite y = Scalar.isFinite (Scalar.abs x + Scalar.abs c) := by
  have hpositive := (Scalar.notNegative_abs x).add (Scalar.notNegative_abs c)
  have hsize : Scalar.isNaN (Scalar.abs x + Scalar.abs c) = false := by
    rw [Scalar.isNaN_sum (Scalar.notNegative_abs x) (Scalar.notNegative_abs c), Scalar.isNaN_size,
      Scalar.isNaN_size, Scalar.isNaN_of_isFinite hx, Scalar.isNaN_of_isFinite hc]
    rfl
  have htiny : Scalar.isFinite (Scalar.tiny : Float32) = true := by decide +kernel
  unfold Scalar.atLeast
  dsimp only
  split
  · rename_i hlt
    exact ⟨Scalar.isNaN_of_isFinite htiny, Scalar.lt_self _,
      htiny.trans (Scalar.isFinite_of_lt hpositive hlt).symm⟩
  · rename_i hlt
    exact ⟨hsize, Bool.eq_false_iff.2 hlt, rfl⟩

theorem isNaN_quotient {x c : Float32} (hx : Scalar.isFinite x = true)
    (hc : Scalar.isFinite c = true) : Scalar.isNaN (canberra.part x c) = true ↔ Overflow x c := by
  have hdistance : Scalar.isNaN (Scalar.abs (x - c)) = false :=
    (Scalar.isNaN_size _).trans (Scalar.isNaN_difference hx hc)
  change Scalar.isNaN (if (Scalar.abs x + Scalar.abs c == 0) = true then 0 else
    Scalar.abs (x - c) / Scalar.atLeast Scalar.tiny (Scalar.abs x + Scalar.abs c)) = true ↔ _
  split
  · rename_i hzero
    have hfinite : Scalar.isFinite (Scalar.abs x + Scalar.abs c) = true := by
      rw [Scalar.beq_zero_iff] at hzero
      rw [Scalar.isFinite_eq]
      generalize Single.unpack (Scalar.abs x + Scalar.abs c) = u at hzero ⊢
      cases u <;> first | rfl | cases hzero
    unfold Overflow
    rw [hfinite]
    simp only [Bool.true_eq_false, and_false, iff_false]
    decide
  · obtain ⟨hnan, hlt, hfinite⟩ := denominator hx hc
    rw [Scalar.isNaN_ratio hdistance hnan hlt, Scalar.isFinite_size, hfinite]
    rfl

theorem isFinite_stretchRow (hx : ∀ a ∈ x, Scalar.isFinite a = true) :
    ∀ a ∈ stretchRow width x, Scalar.isFinite a = true := by
  refine forall_stretchRow (P := fun a => Scalar.isFinite a = true) ?_ hx
  decide

variable (hx : ∀ a ∈ x, Scalar.isFinite a = true) (hc : ∀ a ∈ c, Scalar.isFinite a = true)
include hx hc

theorem isFinite_of_mem_zip : ∀ q ∈ (stretchRow width x).zip (stretchRow width c),
    Scalar.isFinite q.1 = true ∧ Scalar.isFinite q.2 = true := by
  intro q hq
  obtain ⟨hleft, hright⟩ := List.of_mem_zip hq
  exact ⟨isFinite_stretchRow hx _ hleft, isFinite_stretchRow hc _ hright⟩

theorem isNaN_parts :
    (∃ p ∈ f.parts width x c, Scalar.isNaN p = true) ↔ f.Undefined width x c := by
  have hdifference : ∀ q ∈ (stretchRow width x).zip (stretchRow width c),
      Scalar.isNaN (q.1 - q.2) = false := by
    intro q hq
    obtain ⟨hleft, hright⟩ := isFinite_of_mem_zip hx hc q hq
    exact Scalar.isNaN_difference hleft hright
  cases f with
  | euclidean squared =>
    refine exists_mem_zipWith.trans (iff_of_false ?_ id)
    rintro ⟨q, hq, hnan⟩
    exact Bool.false_ne_true ((Scalar.isNaN_square (hdifference q hq)).symm.trans hnan)
  | weighted weights squared =>
    refine exists_mem_zipWith.trans (exists_congr fun q => and_congr_right fun hq => ?_)
    obtain ⟨r, hr, hsame⟩ := exists_mem_zipWith.1 ⟨q.2, (List.of_mem_zip hq).2, rfl⟩
    exact isNaN_weighed (hsame ▸ hdifference r hr)
  | manhattan | chebyshev =>
    refine exists_mem_zipWith.trans (iff_of_false ?_ id)
    rintro ⟨q, hq, hnan⟩
    exact Bool.false_ne_true
      (((Scalar.isNaN_size _).trans (hdifference q hq)).symm.trans hnan)
  | canberra =>
    refine exists_mem_zipWith.trans (exists_congr fun q => and_congr_right fun hq => ?_)
    obtain ⟨hleft, hright⟩ := isFinite_of_mem_zip hx hc q hq
    exact isNaN_quotient hleft hright

/-- A distance is a NaN exactly where it is undefined. -/
theorem isNaN_between (hf : f.Accepted) :
    Scalar.isNaN (f.between width x c) = true ↔ f.Undefined width x c := by
  have hparts := notNegative_parts hf width x c
  have htotal : Scalar.isNaN (Scalar.total (f.parts width x c)) = true ↔ f.Undefined width x c :=
    (Scalar.isNaN_total hparts).trans (isNaN_parts hx hc)
  have hroot : Scalar.isNaN (Scalar.sqrt (Scalar.total (f.parts width x c))) =
      Scalar.isNaN (Scalar.total (f.parts width x c)) :=
    Scalar.isNaN_root (Scalar.notNegative_total hparts)
  cases f with
  | euclidean squared | weighted weights squared =>
    cases squared with
    | false => exact (congrArg (· = true) hroot).to_iff.trans htotal
    | true => exact htotal
  | manhattan | canberra => exact htotal
  | chebyshev =>
    refine Iff.trans ?_ (isNaN_parts hx hc)
    change Scalar.isNaN (Scalar.greatest _) = true ↔ _
    by_cases hne : chebyshev.parts width x c = []
    · rw [hne]
      simpa using by decide
    · exact Scalar.isNaN_greatest hne

end Values

section Origin

theorem part_self {a : Float32} (hf : ∀ weights squared, f ≠ .weighted weights squared)
    (ha : Scalar.isFinite a = true) : f.part a a = 0 := by
  have hdifference := Scalar.difference_self ha
  cases f with
  | euclidean squared =>
    change (a - a) * (a - a) = 0
    rw [hdifference]
    rfl
  | weighted weights squared => exact absurd rfl (hf weights squared)
  | manhattan | chebyshev =>
    change Scalar.abs (a - a) = 0
    rw [hdifference]
    rfl
  | canberra =>
    obtain ⟨hnan, hlt, -⟩ := denominator ha ha
    unfold part
    dsimp only
    rw [hdifference]
    split
    · rfl
    · exact Scalar.zero_ratio hnan hlt

theorem isZero_weighed {weight : Float32} (hw : Scalar.isFinite weight = true) :
    isZero (Single.unpack (weigh weight 0)) = true := by
  change isZero (.unpack .binary32 (UnpackedFloat.pack .binary32 (.mul .binary32
    (.unpack .binary32 (UnpackedFloat.pack .binary32
      (.mul .binary32 (Single.unpack weight) (.zero .positive)))) (.zero .positive)))) = true
  rw [Scalar.isFinite_eq] at hw
  generalize Single.unpack weight = u at hw ⊢
  cases u with
  | infinity | notANumber => cases hw
  | zero s => cases s <;> rfl
  | finite s m e hm =>
    have hproduct : UnpackedFloat.mul .binary32 (.finite s m e hm) (.zero .positive) =
        .zero (s * .positive) := rfl
    rw [hproduct]
    cases s <;> rfl

variable (hc : ∀ a ∈ c, Scalar.isFinite a = true)
include hc

theorem zipWith_self_eq {g : Float32 → Float32 → Float32}
    (hg : ∀ a, Scalar.isFinite a = true → g a a = 0) :
    List.zipWith g (stretchRow width c) (stretchRow width c) = List.replicate width 0 := by
  rw [List.zipWith_self, List.map_congr_left fun a ha => hg a (isFinite_stretchRow hc a ha),
    List.map_const', length_stretchRow]

/-- From a point to itself the distance is zero, if it is defined. -/
theorem between_self_eq_zero (hdefined : ¬f.Undefined width c c) : f.between width c c = 0 := by
  have htotal : Scalar.total (List.replicate width (0 : Float32)) = 0 := by
    apply Scalar.total_eq_zero
    intro p hp
    rw [List.eq_of_mem_replicate hp]
    rfl
  cases f with
  | weighted weights squared =>
    have hzero : ∀ p ∈ (weighted weights squared).parts width c c,
        isZero (Single.unpack p) = true := by
      intro p hp
      obtain ⟨q, hq, rfl⟩ := exists_mem_zipWith.1 ⟨p, hp, rfl⟩
      have hmem := (List.of_mem_zip hq).2
      rw [zipWith_self_eq (g := (weighted weights squared).part) hc
        fun a ha => Scalar.difference_self ha] at hmem
      have hdifference := List.eq_of_mem_replicate hmem
      have hweight : Scalar.isFinite q.1 = true := by
        by_contra hinfinite
        refine hdefined ⟨q, hq, .inr (.inr ⟨Bool.eq_false_iff.2 hinfinite, ?_⟩)⟩
        rw [hdifference]
        decide
      rw [hdifference]
      exact isZero_weighed hweight
    change (weighted weights squared).finish (Scalar.total _) = 0
    rw [Scalar.total_eq_zero hzero]
    cases squared <;> rfl
  | euclidean squared =>
    change (euclidean squared).finish (Scalar.total (List.zipWith _ _ _)) = 0
    rw [zipWith_self_eq hc fun a ha => part_self (by rintro _ _ ⟨⟩) ha, htotal]
    cases squared <;> rfl
  | manhattan | canberra =>
    change Scalar.total (List.zipWith _ _ _) = 0
    rw [zipWith_self_eq hc fun a ha => part_self (by rintro _ _ ⟨⟩) ha, htotal]
  | chebyshev =>
    change Scalar.greatest (List.zipWith _ _ _) = 0
    rw [zipWith_self_eq hc fun a ha => part_self (by rintro _ _ ⟨⟩) ha]
    by_cases hne : List.replicate width (0 : Float32) = []
    · rw [hne]
      rfl
    · exact List.eq_of_mem_replicate (Scalar.greatest_mem hne)

end Origin

end Formula

namespace Metric

variable {f : Formula Float32} {x c : List Float32}

/-- A distance has one value for both ways. -/
theorem call_swap (f : Formula Float32) (hlength : x.length = c.length) :
    (formula f).call (.ofList c) (.ofList x) = (formula f).call (.ofList x) (.ofList c) := by
  rw [call_ofList, call_ofList, hlength]
  cases f.width? c.length c.length with
  | none => rfl
  | some width => exact congrArg (Except.ok ∘ Grid.scalar) (f.between_swap width x c)

theorem exists_weights_of_width (h : f.width? x.length x.length = none) :
    ∃ weights squared, f = .weighted weights squared ∧
      Grid.joinLength? weights.length x.length = none := by
  cases f with
  | weighted weights squared =>
    unfold Formula.width? at h
    rw [Grid.joinLength?_self] at h
    exact ⟨weights, squared, rfl, h⟩
  | euclidean | manhattan | chebyshev | canberra =>
    unfold Formula.width? at h
    rw [Grid.joinLength?_self] at h
    cases h

/-- What a point is given in an array, it is given alone. -/
theorem call_rows (f : Formula Float32) (p : Points Float32) (center : List Float32) :
    (∃ ds, (formula f).call p.toGrid (.ofList center) = .ok (.ofList ds) ∧
      List.Forall₂ (fun row d => (formula f).call (.ofList row) (.ofList center) = .ok (.scalar d))
        p.rows ds) ∨
    (formula f).call p.toGrid (.ofList center) = .error .shapeMismatch ∧
      ∀ row ∈ p.rows, (formula f).call (.ofList row) (.ofList center) = .error .shapeMismatch := by
  rw [call_toGrid, Formula.distances]
  cases hwidth : f.width? p.dim center.length with
  | none =>
    refine .inr ⟨rfl, fun row hrow => ?_⟩
    rw [call_ofList, p.length_row row hrow, hwidth]
  | some width =>
    refine .inl ⟨_, rfl, ?_⟩
    rw [List.forall₂_map_right_iff, List.forall₂_same]
    intro row hrow
    rw [call_ofList, p.length_row row hrow, hwidth]

/-- Between points of one length with finite coordinates, an accepted formula has one distance for both
ways.  It is a NaN where it is undefined, which needs weights or sizes at an end of the range; otherwise
it is not negative, and zero between equal points.  Where weights do not fit the points there is no
distance either way.  In an array, each point has the distance that it has alone. -/
theorem call_laws (f : Formula Float32) :
    (f.Accepted → ∀ x c : List Float32, x.length = c.length →
      (∀ a ∈ x, Scalar.isFinite a = true) → (∀ a ∈ c, Scalar.isFinite a = true) →
      match f.width? x.length c.length with
      | some width => ∃ v, (formula f).call (.ofList x) (.ofList c) = .ok (.scalar v) ∧
          (formula f).call (.ofList c) (.ofList x) = .ok (.scalar v) ∧
          (f.Undefined width x c ∧ Scalar.isNaN v = true ∨
            ¬f.Undefined width x c ∧ Scalar.le 0 v = true ∧ ((x == c) = true → v = 0))
      | none => (∃ weights squared, f = .weighted weights squared ∧
          Grid.joinLength? weights.length x.length = none) ∧
          (formula f).call (.ofList x) (.ofList c) = .error .shapeMismatch ∧
          (formula f).call (.ofList c) (.ofList x) = .error .shapeMismatch) ∧
    ∀ (p : Points Float32) (center : List Float32),
      (∃ ds, (formula f).call p.toGrid (.ofList center) = .ok (.ofList ds) ∧
        List.Forall₂ (fun row d => (formula f).call (.ofList row) (.ofList center) = .ok (.scalar d))
          p.rows ds) ∨
      (formula f).call p.toGrid (.ofList center) = .error .shapeMismatch ∧
        ∀ row ∈ p.rows, (formula f).call (.ofList row) (.ofList center) = .error .shapeMismatch := by
  refine ⟨?_, call_rows f⟩
  intro hf x c hlength hx hc
  rw [call_swap f hlength, call_ofList]
  cases hwidth : f.width? x.length c.length with
  | none =>
    rw [← hlength] at hwidth
    exact ⟨exists_weights_of_width hwidth, rfl, rfl⟩
  | some width =>
    refine ⟨_, rfl, rfl, ?_⟩
    have hnan : _ ↔ f.Undefined width x c := Formula.isNaN_between hx hc hf
    by_cases hundefined : f.Undefined width x c
    · exact .inl ⟨hundefined, hnan.2 hundefined⟩
    · have hnumber : Scalar.isNaN (f.between width x c) = false :=
        Bool.eq_false_iff.2 fun h => hundefined (hnan.1 h)
      refine .inr ⟨hundefined, ?_, ?_⟩
      · by_contra hle
        have hlt := Scalar.lt_of_not_le (by decide) hnumber hle
        exact Bool.false_ne_true ((Formula.notNegative_between hf width x c).symm.trans hlt)
      · -- An equal point is at no other distance from the center than the center.
        intro hequal
        rw [f.between_congr width hequal] at hnumber ⊢
        apply Formula.between_self_eq_zero hc
        intro hself
        exact Bool.false_ne_true
          (hnumber.symm.trans ((Formula.isNaN_between hc hc hf).2 hself))

section Corner

def spot : List Float32 := [3, -2]

def stretched : Formula Float32 := .weighted [1, 4] false

instance (weights : List Float32) (squared : Bool) :
    Decidable (Formula.weighted weights squared).Accepted :=
  inferInstanceAs (Decidable (Formula.checkWeights (.ofList weights) = .ok weights))

theorem call_laws_stretched :
    (∃ v, (formula stretched).call (.ofList spot) (.ofList [0, 1]) = .ok (.scalar v) ∧
      (formula stretched).call (.ofList [0, 1]) (.ofList spot) = .ok (.scalar v) ∧
      Scalar.le 0 v = true) ∧
    (formula stretched).call (.ofList spot) (.ofList spot) = .ok (.scalar 0) := by
  have haccepted : stretched.Accepted := by
    unfold stretched
    decide +kernel
  have hfit : stretched.width? 2 2 = some 2 := by decide
  constructor
  · have hlaws := (call_laws stretched).1 haccepted spot [0, 1] rfl (by decide +kernel)
      (by decide +kernel)
    have hlength : stretched.width? spot.length [(0 : Float32), 1].length = some 2 := hfit
    rw [hlength] at hlaws
    obtain ⟨v, hv, hback, ⟨hundefined, -⟩ | ⟨-, hle, -⟩⟩ := hlaws
    · exact absurd hundefined (by decide +kernel)
    · exact ⟨v, hv, hback, hle⟩
  · have hlaws := (call_laws stretched).1 haccepted spot spot rfl (by decide +kernel)
      (by decide +kernel)
    have hlength : stretched.width? spot.length spot.length = some 2 := hfit
    rw [hlength] at hlaws
    obtain ⟨v, hv, -, ⟨hundefined, -⟩ | ⟨-, -, hzero⟩⟩ := hlaws
    · exact absurd hundefined (by decide +kernel)
    · rwa [hzero (by decide +kernel)] at hv

/-- The ends of the range. -/
def high : List Float32 := [3e38]

def low : List Float32 := [-3e38]

/-- Sizes that add up to infinity, a weight of zero, and an infinite one: the distances are NaNs, the
last from a point to itself. -/
theorem call_undefined :
    (formula .canberra).call (.ofList high) (.ofList low) = .ok (.scalar (Single.pack .notANumber)) ∧
      (Formula.weighted [(0 : Float32)] false).Accepted ∧
      (formula (.weighted [0] false)).call (.ofList high) (.ofList low) =
        .ok (.scalar (Single.pack .notANumber)) ∧
      (Formula.weighted [Single.pack (.infinity .positive)] false).Accepted ∧
      (formula (.weighted [Single.pack (.infinity .positive)] false)).call (.ofList high)
        (.ofList high) = .ok (.scalar (Single.pack .notANumber)) := by
  decide +kernel

end Corner

end Metric

end Centroids

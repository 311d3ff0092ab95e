import Centroids.Proofs.Bookkeeping
import Centroids.Proofs.Duplicates

/-! Differences taken the other way round.  They are opposite numbers or the same, and neither squares
nor sizes nor weighted squares tell them apart.  Of the operations on numbers that are not negative,
few give a NaN where there was none: infinities divided by each other, and zeros times
infinities. -/
namespace Centroids

open Float.Model (UnpackedFloat)
open Float.Model.UnpackedFloat (Sign packComponents roundWithAccuracy)

section Opposites

variable {format : Float.Model.Format} {u v w : UnpackedFloat}

/-- The same number, or its opposite. -/
inductive Mirrored : UnpackedFloat → UnpackedFloat → Prop
  | refl (u : UnpackedFloat) : Mirrored u u
  | neg (u : UnpackedFloat) : Mirrored u u.neg

theorem neg_neg_unpacked (u : UnpackedFloat) : u.neg.neg = u := by
  rcases u with (_ | _) | _ | (_ | _) | ⟨_ | _, m, e, hm⟩ <;> rfl

theorem Mirrored.symm (h : Mirrored u v) : Mirrored v u := by
  cases h with
  | refl => exact .refl _
  | neg =>
    have hback := Mirrored.neg u.neg
    rwa [neg_neg_unpacked] at hback

theorem neg_round {s : Sign} {m : Nat} {e : Int} {a : UnpackedFloat.Accuracy} :
    (roundWithAccuracy format s m e a).neg = roundWithAccuracy format (-s) m e a := by
  unfold roundWithAccuracy
  dsimp only
  split <;> rfl

theorem mirrored_normalize (n e : Int) : Mirrored (.normalize format n e .positive)
    (.normalize format (-n) e .positive) := by
  have hpos : ∀ k : Int, 0 < k → Mirrored (.normalize format k e .positive)
      (.normalize format (-k) e .positive) := by
    intro k hk
    unfold UnpackedFloat.normalize
    rw [Int.compare_eq_gt.2 hk, Int.compare_eq_lt.2 (Int.neg_neg_of_pos hk), Int.neg_neg]
    have hneg := Mirrored.neg (UnpackedFloat.round format .positive k.toNat e)
    rwa [UnpackedFloat.round, neg_round] at hneg
  rcases lt_trichotomy n 0 with hlt | rfl | hgt
  · have hback := (hpos (-n) (by omega)).symm
    rwa [Int.neg_neg] at hback
  · exact .refl _
  · exact hpos n hgt

/-- A difference, and the difference the other way round. -/
theorem mirrored_sub (u v : UnpackedFloat) : Mirrored (.sub format u v) (.sub format v u) := by
  rcases u with (_ | _) | _ | (_ | _) | ⟨s, m, e, hm⟩ <;>
    rcases v with (_ | _) | _ | (_ | _) | ⟨t, n, f, hn⟩
  case finite.finite =>
    have hswap := @mirrored_normalize format
      (s.apply (UnpackedFloat.decreaseExponent m e (min e f)).1 -
        t.apply (UnpackedFloat.decreaseExponent n f (min e f)).1) (min e f)
    rw [Int.neg_sub] at hswap
    unfold UnpackedFloat.sub
    dsimp only
    rw [min_comm f e]
    exact hswap
  case zero.negative.finite | zero.positive.finite => exact (Mirrored.neg (.finite t n f hn)).symm
  all_goals first | exact .refl _ | exact .neg _

theorem neg_store (u : UnpackedFloat) : UnpackedFloat.unpack format (UnpackedFloat.pack format u.neg) =
    (UnpackedFloat.unpack format (UnpackedFloat.pack format u)).neg := by
  have hcomponents : ∀ (s : Sign) (exponent : BitVec format.exponentBits)
      (mantissa : BitVec format.mantissaBitsWithoutImplicit),
      UnpackedFloat.unpack format (packComponents format (-s) exponent mantissa) =
        (UnpackedFloat.unpack format (packComponents format s exponent mantissa)).neg := by
    intro s exponent mantissa
    unfold UnpackedFloat.unpack
    simp only [UnpackedFloat.unpackMantissa_packComponents,
      UnpackedFloat.unpackExponent_packComponents, unpackSign_components, ofBitVec_toBitVec]
    split
    · split <;> rfl
    · split
      · split <;> rfl
      · rfl
  cases u with
  | notANumber =>
    change UnpackedFloat.unpack format (UnpackedFloat.packedNaN format) =
      (UnpackedFloat.unpack format (UnpackedFloat.packedNaN format)).neg
    rw [UnpackedFloat.unpack_packedNaN]
    rfl
  | infinity s => exact hcomponents s _ _
  | zero s => exact hcomponents s _ _
  | finite s m e hm =>
    unfold UnpackedFloat.neg UnpackedFloat.pack
    dsimp only
    split
    · exact hcomponents s _ _
    · split <;> exact hcomponents s _ _

theorem add_swap (u v : UnpackedFloat) : UnpackedFloat.add format u v = .add format v u := by
  rcases u with (_ | _) | _ | (_ | _) | ⟨s, m, e, hm⟩ <;>
    rcases v with (_ | _) | _ | (_ | _) | ⟨t, n, f, hn⟩
  case finite.finite =>
    unfold UnpackedFloat.add
    dsimp only
    rw [min_comm f e, Int.add_comm]
  all_goals rfl

theorem mul_neg_unpacked (u v : UnpackedFloat) :
    UnpackedFloat.mul format u v.neg = (UnpackedFloat.mul format u v).neg := by
  rcases u with (_ | _) | _ | (_ | _) | ⟨s, m, e, hm⟩ <;>
    rcases v with (_ | _) | _ | (_ | _) | ⟨t, n, f, hn⟩
  case finite.finite =>
    have hsign : s * -t = -(s * t) := by
      cases s <;> cases t <;> rfl
    change roundWithAccuracy format (s * -t) (m * n) (e + f) .exact =
      (roundWithAccuracy format (s * t) (m * n) (e + f) .exact).neg
    rw [neg_round, hsign]
  all_goals first | rfl | cases s <;> rfl | cases t <;> rfl

theorem mul_neg_neg_unpacked (u v : UnpackedFloat) :
    UnpackedFloat.mul format u.neg v.neg = .mul format u v := by
  rcases u with (_ | _) | _ | (_ | _) | ⟨_ | _, m, e, hm⟩ <;>
    rcases v with (_ | _) | _ | (_ | _) | ⟨_ | _, n, f, hn⟩ <;> rfl

namespace Mirrored

theorem store (h : Mirrored u v) :
    Mirrored (.unpack format (UnpackedFloat.pack format u))
      (.unpack format (UnpackedFloat.pack format v)) := by
  cases h with
  | refl => exact .refl _
  | neg =>
    rw [neg_store]
    exact .neg _

theorem mul_self (h : Mirrored u v) : UnpackedFloat.mul format v v = .mul format u u := by
  cases h with
  | refl => rfl
  | neg => exact mul_neg_neg_unpacked u u

theorem abs_eq (h : Mirrored u v) : v.abs = u.abs := by
  cases h with
  | refl => rfl
  | neg => cases u <;> rfl

/-- A weight times a difference twice does not show which way round the difference is. -/
theorem weigh (h : Mirrored u v) (w : UnpackedFloat) :
    UnpackedFloat.mul format (.unpack format (UnpackedFloat.pack format (.mul format w v))) v =
      .mul format (.unpack format (UnpackedFloat.pack format (.mul format w u))) u := by
  cases h with
  | refl => rfl
  | neg => rw [mul_neg_unpacked w u, neg_store, mul_neg_neg_unpacked]

end Mirrored

end Opposites

section Results

variable {format : Float.Model.Format} {u v w d : UnpackedFloat}

theorem isNaN_stored (u : UnpackedFloat) :
    (UnpackedFloat.unpack format (UnpackedFloat.pack format u)).isNaN = u.isNaN := by
  cases hu : u.isNaN with
  | false => exact isNaN_store hu
  | true =>
    rw [UnpackedFloat.isNaN_iff.1 hu]
    change (UnpackedFloat.unpack format (UnpackedFloat.packedNaN format)).isNaN = true
    rw [UnpackedFloat.unpack_packedNaN]
    rfl

theorem isNaN_normalize (n e : Int) : (UnpackedFloat.normalize format n e .positive).isNaN = false := by
  unfold UnpackedFloat.normalize
  split
  · exact isNaN_round
  · rfl
  · exact isNaN_round

theorem isNaN_sub (hu : u.isFinite = true) (hv : v.isFinite = true) :
    (UnpackedFloat.sub format u v).isNaN = false := by
  rcases u with s | _ | (_ | _) | ⟨s, m, e, hm⟩ <;> cases hu <;>
    rcases v with t | _ | (_ | _) | ⟨t, n, f, hn⟩ <;> cases hv
  case finite.refl.finite.refl => exact isNaN_normalize _ _
  all_goals rfl

theorem sub_self_unpacked (hu : u.isFinite = true) :
    UnpackedFloat.sub format u u = .zero .positive := by
  rcases u with s | _ | (_ | _) | ⟨s, m, e, hm⟩ <;> cases hu
  case finite.refl =>
    unfold UnpackedFloat.sub UnpackedFloat.normalize
    dsimp only
    rw [Int.sub_self]
    rfl
  all_goals rfl

theorem isNaN_add (hu : Leans .positive u) (hv : Leans .positive v) :
    (UnpackedFloat.add format u v).isNaN = (u.isNaN || v.isNaN) := by
  rcases u with s | _ | (_ | _) | ⟨s, m, e, hm⟩ <;> cases hu <;>
    rcases v with t | _ | (_ | _) | ⟨t, n, f, hn⟩ <;> cases hv
  case finite.refl.finite.refl => exact isNaN_normalize _ _
  all_goals rfl

theorem isNaN_sqrt (hu : Leans .positive u) : (UnpackedFloat.sqrt format u).isNaN = u.isNaN := by
  rcases u with s | _ | s | ⟨s, m, e, hm⟩ <;> cases hu
  case finite.refl => exact isNaN_round
  all_goals rfl

theorem isNaN_abs (u : UnpackedFloat) : u.abs.isNaN = u.isNaN := by
  cases u <;> rfl

/-- A quotient by anything but zero is a NaN only of infinities, or after a NaN. -/
theorem isNaN_div (hne : ∀ sign, v ≠ .zero sign) : (UnpackedFloat.div format u v).isNaN =
    (u.isNaN || v.isNaN || u.isInf && v.isInf) := by
  rcases u with s | _ | s | ⟨s, m, e, hm⟩ <;> rcases v with t | _ | t | ⟨t, n, f, hn⟩
  case finite.finite => exact isNaN_round
  case infinity.zero | zero.zero | finite.zero => exact absurd rfl (hne t)
  all_goals rfl

theorem isNaN_mul_finite {t : Sign} {n : Nat} {f : Int} {hn : 0 < n} :
    (UnpackedFloat.mul format u (.finite t n f hn)).isNaN = u.isNaN := by
  rcases u with s | _ | s | ⟨s, m, e, hm⟩
  case finite => exact isNaN_round
  all_goals rfl

theorem stored_infinity (s : Sign) :
    UnpackedFloat.unpack format (UnpackedFloat.pack format (.infinity s)) = .infinity s := by
  change UnpackedFloat.unpack format (packComponents format s _ _) = _
  unfold UnpackedFloat.unpack
  simp only [UnpackedFloat.unpackMantissa_packComponents,
    UnpackedFloat.unpackExponent_packComponents, unpackSign_components, ofBitVec_toBitVec]
  rw [if_pos trivial]
  exact if_pos rfl

/-- Zero, of either sign. -/
def isZero : UnpackedFloat → Bool
  | .zero _ => true
  | _ => false

/-- A weighted square is a NaN only if the weight is, or of zero and infinity. -/
theorem isNaN_weigh (hd : d.isNaN = false) :
    (UnpackedFloat.mul format (.unpack format (UnpackedFloat.pack format (.mul format w d))) d).isNaN =
      (w.isNaN || isZero w && d.isInf || w.isInf && isZero d) := by
  have hinfinity : ∀ s : Sign, UnpackedFloat.unpack format
      (UnpackedFloat.pack format (.infinity s)) = .infinity s := stored_infinity
  have hzero : ∀ s : Sign, UnpackedFloat.unpack format
      (UnpackedFloat.pack format (.zero s)) = .zero s := fun _ => UnpackedFloat.unpack_packedZero
  have hnan : UnpackedFloat.unpack format (UnpackedFloat.pack format .notANumber) = .notANumber :=
    UnpackedFloat.unpack_packedNaN
  cases d with
  | notANumber => cases hd
  | infinity t =>
    cases w <;>
      simp [UnpackedFloat.mul, hinfinity, hnan, isZero, UnpackedFloat.isNaN, UnpackedFloat.isInf]
  | zero t =>
    cases w <;>
      simp [UnpackedFloat.mul, hzero, hnan, isZero, UnpackedFloat.isNaN, UnpackedFloat.isInf]
  | finite t n f hn =>
    rw [isNaN_mul_finite, isNaN_stored, isNaN_mul_finite]
    simp [isZero, UnpackedFloat.isInf]

end Results

section Single

variable {x c d e : Float32}

theorem mirrored_difference (x c : Float32) :
    Mirrored (Single.unpack (x - c)) (Single.unpack (c - x)) :=
  (mirrored_sub (Single.unpack x) (Single.unpack c)).store

theorem single_add_comm (x y : Float32) : x + y = y + x :=
  congrArg (fun u => Float32.ofModel (Float32.Model.pack u)) (add_swap (Single.unpack x) (Single.unpack y))

theorem mul_self_mirror (h : Mirrored (Single.unpack d) (Single.unpack e)) : e * e = d * d :=
  congrArg (fun u => Float32.ofModel (Float32.Model.pack u)) h.mul_self

theorem abs_mirror (h : Mirrored (Single.unpack d) (Single.unpack e)) :
    Scalar.abs e = Scalar.abs d :=
  congrArg (fun u => Float32.ofModel (Float32.Model.pack u)) h.abs_eq

theorem weigh_mirror (h : Mirrored (Single.unpack d) (Single.unpack e)) (weight : Float32) :
    Formula.weigh weight e = Formula.weigh weight d :=
  congrArg (fun u => Float32.ofModel (Float32.Model.pack u)) (h.weigh (Single.unpack weight))

end Single

end Centroids

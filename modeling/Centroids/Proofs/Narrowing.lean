import Centroids.Proofs.Weighing

/-! Singles as doubles and back.  A number that fits a format is rounded to itself, with as many zeros
behind its mantissa as may be; so a finite single comes back from double precision as it was, and
points that were validated once are what they are validated to. -/
namespace Centroids

open Float.Model (totalExponent UnpackedFloat)
open Float.Model.UnpackedFloat (ExtendedMantissa Sign roundWithAccuracy shiftToTargetExponent
  shiftToExponent decreaseExponent)

section Exact

variable {format : Float.Model.Format} {m : Nat} {e : Int}

/-- Zeros behind a mantissa change no place. -/
theorem totalExponent_mul (hm : 0 < m) (k : Nat) (e : Int) :
    totalExponent (m * 2 ^ k) (e - k) = totalExponent m e := by
  have hpos : 0 < 2 ^ k := Nat.two_pow_pos k
  have hlog : (m * 2 ^ k).log2 = m.log2 + k := by
    rw [Nat.log2_eq_iff (Nat.mul_pos hm hpos).ne', Nat.add_right_comm, pow_add, pow_add]
    exact ⟨Nat.mul_le_mul_right _ (Nat.log2_self_le hm.ne'),
      Nat.mul_lt_mul_of_pos_right Nat.lt_log2_self hpos⟩
  unfold totalExponent
  omega

variable (hm : 0 < m) (hfits : format.targetExponent (totalExponent m e) = e)
include hm hfits

theorem shiftToTargetExponent_mul (k : Nat) :
    shiftToTargetExponent format (m * 2 ^ k) (e - k) .exact =
      (ExtendedMantissa.mk (m * 2 ^ k) false false >>> k, e) := by
  have hshift : (e - (e - k)).toNat = k := by omega
  unfold shiftToTargetExponent shiftToExponent
  rw [totalExponent_mul hm, hfits]
  dsimp only
  rw [hshift, Int.sub_add_cancel]
  rfl

theorem roundWithAccuracy_mul (sign : Sign) (k : Nat) :
    roundWithAccuracy format sign (m * 2 ^ k) (e - k) .exact = .finite sign m e hm := by
  have hmantissa : (ExtendedMantissa.mk (m * 2 ^ k) false false >>> k).roundedMantissa = m := by
    rw [roundedMantissa_eq (roundBit_shiftRight _ _ (by simp)), mantissa_shiftRight]
    exact Nat.mul_div_cancel _ (Nat.two_pow_pos k)
  have hagain : shiftToTargetExponent format m e .exact =
      (ExtendedMantissa.mk m false false, e) := by
    have hzero := shiftToTargetExponent_mul hm hfits 0
    rwa [pow_zero, Nat.mul_one, Nat.cast_zero, Int.sub_zero] at hzero
  unfold roundWithAccuracy
  rw [shiftToTargetExponent_mul hm hfits]
  dsimp only
  rw [hmantissa, hagain]
  exact dif_neg hm.ne'

/-- Nor does rounding, which leaves off what stands behind. -/
theorem round_mul (sign : Sign) (k : Nat) :
    UnpackedFloat.round format sign (m * 2 ^ k) (e - k) = .finite sign m e hm := by
  have hshift : (e - k - e).toNat = 0 := by omega
  unfold UnpackedFloat.round decreaseExponent
  rw [totalExponent_mul hm, hfits]
  dsimp only
  rw [hshift, Nat.shiftLeft_zero, Nat.cast_zero, Int.sub_zero]
  exact roundWithAccuracy_mul hm hfits sign k

end Exact

section Filling

variable {format : Float.Model.Format} {m k : Nat} {e : Int}

/-- A number with fewer bits than a format has is filled up with zeros. -/
theorem round_of_target (hm : 0 < m) (sign : Sign)
    (htarget : format.targetExponent (totalExponent m e) = e - k) :
    UnpackedFloat.round format sign m e =
      .finite sign (m * 2 ^ k) (e - k) (Nat.mul_pos hm (Nat.two_pow_pos k)) := by
  have hpos := Nat.mul_pos hm (Nat.two_pow_pos k)
  have hfits : format.targetExponent (totalExponent (m * 2 ^ k) (e - k)) = e - k := by
    rw [totalExponent_mul hm, htarget]
  have hshift : (e - (e - k)).toNat = k := by omega
  have hround := roundWithAccuracy_mul hpos hfits sign 0
  rw [pow_zero, Nat.mul_one, Nat.cast_zero, Int.sub_zero] at hround
  unfold UnpackedFloat.round decreaseExponent
  rw [htarget]
  dsimp only
  rw [hshift, Nat.shiftLeft_eq]
  exact hround

end Filling

section Single

variable {x : Float32}

/-- All bits of a single are used, or its exponent is the least. -/
theorem full_unpack {bits : BitVec 32} {sign : Sign} {m : Nat} {e : Int} {hm : 0 < m}
    (h : UnpackedFloat.unpack .binary32 bits = .finite sign m e hm) : 2 ^ 23 ≤ m ∨ e = -149 := by
  have hbias : (Float.Model.Format.binary32.exponentBias : Int) + (23 : Nat) = 150 := rfl
  unfold UnpackedFloat.unpack at h
  dsimp only at h
  split at h
  · split at h <;> cases h
  · split at h
    · rename_i hzero
      split at h
      · cases h
      · cases h
        right
        rw [hzero, hbias]
        decide
    · cases h
      left
      rw [BitVec.toNat_append]
      exact Nat.left_le_or

/-- A place that a finite single has, as a double and as a single. -/
theorem target_single {m : Nat} {e : Int} (hm : 0 < m) (hlt : m < 2 ^ 24) (hge : -149 ≤ e)
    (hfull : 2 ^ 23 ≤ m ∨ e = -149) :
    Float.Model.Format.binary32.targetExponent (totalExponent m e) = e ∧
      Float.Model.Format.binary64.targetExponent (totalExponent m e) = e - (52 - m.log2 : Nat) ∧
      m.log2 ≤ 23 := by
  have hlog : m.log2 ≤ 23 := log2_le_of_lt hlt
  have hhigh : m.log2 = 23 ∨ e = -149 :=
    hfull.imp_left fun h => le_antisymm hlog ((Nat.le_log2 hm.ne').2 h)
  refine ⟨?_, ?_, hlog⟩
  · change max ((m.log2 : Int) + 1 + e - 24) (-149) = e
    omega
  · rw [target_eq]
    omega

theorem refit_settle {u : UnpackedFloat} (h : OfSingle u)
    (hfull : ∀ sign m e hm, u = .finite sign m e hm → 2 ^ 23 ≤ m ∨ e = -149) :
    refit .binary32 (settle (settle (refit .binary64 u))) = u := by
  cases h with
  | zero sign => cases sign <;> rfl
  | @finite sign m e hm hlt hge hle =>
    obtain ⟨hsingle, hdouble, hlog⟩ := target_single hm hlt hge (hfull sign m e hm rfl)
    have hcanonical : Canonical (m * 2 ^ (52 - m.log2)) (e - (52 - m.log2 : Nat)) := by
      have hpos := Nat.two_pow_pos (52 - m.log2)
      refine ⟨Nat.mul_pos hm hpos, ?_, by omega, .inl ?_⟩
      · calc m * 2 ^ (52 - m.log2) < 2 ^ (m.log2 + 1) * 2 ^ (52 - m.log2) :=
              Nat.mul_lt_mul_of_pos_right Nat.lt_log2_self hpos
          _ = 2 ^ 53 := by rw [← pow_add, show m.log2 + 1 + (52 - m.log2) = 53 by omega]
      · calc 2 ^ 52 = 2 ^ m.log2 * 2 ^ (52 - m.log2) := by
              rw [← pow_add, show m.log2 + (52 - m.log2) = 52 by omega]
          _ ≤ m * 2 ^ (52 - m.log2) := Nat.mul_le_mul_right _ (Nat.log2_self_le hm.ne')
    have hkept : settle (refit .binary64 (.finite sign m e hm)) =
        .finite sign (m * 2 ^ (52 - m.log2)) (e - (52 - m.log2 : Nat)) hcanonical.pos := by
      change settle (.round .binary64 sign m e) = _
      rw [round_of_target hm sign hdouble, settle_finite hcanonical, if_pos (by omega)]
    rw [hkept, settle_finite hcanonical, if_pos (by omega)]
    exact round_mul hm hsingle sign _

/-- A finite single comes back from double precision as it was. -/
theorem toSingle_ofSingle (h : Scalar.isFinite x = true) : Double.toSingle (Double.ofSingle x) = x := by
  have hback : refit .binary32 (settle (settle (refit .binary64 (Single.unpack x)))) =
      Single.unpack x := refit_settle (ofSingle_unpack h) fun _ _ _ _ => full_unpack
  have hpack : Single.pack (Single.unpack x) = x := by
    have hbits := UnpackedFloat.pack_unpack_of_valid x.toModel.valid
    exact (congrArg (fun b => Float32.ofBits (.ofBitVec b)) hbits).trans (Float32.ofBits_toBits x)
  unfold Double.toSingle
  rw [unpack_ofSingle, hback, hpack]

end Single

end Centroids

import Centroids.Proofs.Share

/-! Rounding to double precision.  A number is shifted until its mantissa has as many bits as there are,
or until the least exponent is reached, and what is dropped moves the last bit by at most one.
Powers of two are kept, so a number does not leave an interval between two of them. -/
namespace Centroids

open Float.Model (totalExponent UnpackedFloat)
open Float.Model.UnpackedFloat (ExtendedMantissa Accuracy Sign packComponents unpackSign
  roundWithAccuracy shiftToTargetExponent shiftToExponent decreaseExponent)

/-- Mantissa and exponent of a double: all bits are used, or the exponent is the least. -/
structure Canonical (m : Nat) (e : Int) : Prop where
  pos : 0 < m
  lt : m < 2 ^ 53
  ge : -1074 ≤ e
  full : 2 ^ 52 ≤ m ∨ e = -1074

section Shift

theorem roundedMantissa_le (em : ExtendedMantissa) : em.roundedMantissa ≤ em.mantissa + 1 := by
  obtain ⟨m, _ | _, _ | _⟩ := em <;>
    simp [ExtendedMantissa.roundedMantissa, ExtendedMantissa.accuracy, Accuracy.roundToNearestEven]
  omega

/-- Nothing is added to a mantissa whose first dropped bit is zero. -/
theorem roundedMantissa_eq {em : ExtendedMantissa} (h : em.roundBit = false) :
    em.roundedMantissa = em.mantissa := by
  obtain ⟨m, round, _ | _⟩ := em <;> cases h <;> rfl

theorem roundBit_shiftRight (m n : Nat) (h : 2 * (m % 2 ^ n) < 2 ^ n) :
    (ExtendedMantissa.mk m false false >>> n).roundBit = false := by
  cases n with
  | zero => rfl
  | succ n =>
    change ((ExtendedMantissa.mk m false false >>> n).mantissa % 2 != 0) = false
    rw [mantissa_shiftRight]
    have hlow : m % 2 ^ (n + 1) = m % 2 ^ n + 2 ^ n * (m / 2 ^ n % 2) := by
      rw [pow_succ, Nat.mod_mul]
    have hbit : m / 2 ^ n % 2 = 0 := by
      obtain hzero | hone := Nat.mod_two_eq_zero_or_one (m / 2 ^ n)
      · exact hzero
      · rw [hlow, hone, pow_succ] at h
        omega
    dsimp only
    rw [hbit]
    rfl

theorem mantissa_ofAccuracy (m : Nat) (a : Accuracy) :
    (ExtendedMantissa.ofMantissaAndAccuracy m a).mantissa = m := by
  cases a with
  | exact => rfl
  | inexact o => cases o <;> rfl

theorem target_eq (m : Nat) (e : Int) :
    Float.Model.Format.binary64.targetExponent (totalExponent m e) =
      max (m.log2 + e - 52) (-1074) := by
  have htarget : Float.Model.Format.binary64.targetExponent (totalExponent m e) =
      max (m.log2 + 1 + e - 53) (-1074) := rfl
  rw [htarget]
  omega

/-- How many bits have to be dropped. -/
def excess (m : Nat) (e : Int) : Nat := (max (m.log2 + e - 52) (-1074) - e).toNat

theorem shift_eq (m : Nat) (e : Int) (a : Accuracy) : shiftToTargetExponent .binary64 m e a =
    (ExtendedMantissa.ofMantissaAndAccuracy m a >>> excess m e, e + excess m e) := by
  unfold shiftToTargetExponent shiftToExponent
  rw [target_eq]
  rfl

theorem log2_le_of_lt {m k : Nat} (h : m < 2 ^ (k + 1)) : m.log2 ≤ k := by
  by_cases hzero : m = 0
  · simp [hzero]
  · exact Nat.lt_succ_iff.1 ((Nat.log2_lt hzero).2 h)

/-- The number with a rounded mantissa, which may have become one bit too long. -/
def carried (sign : Sign) (r : Nat) (e : Int) : UnpackedFloat :=
  if h : r = 0 then .zero sign
  else if r = 2 ^ 53 then .finite sign (2 ^ 52) (e + 1) (by decide)
  else .finite sign r e (Nat.pos_of_ne_zero h)

/-- The mantissa after the first shift. -/
def rounded (m : Nat) (e : Int) (a : Accuracy) : Nat :=
  (ExtendedMantissa.ofMantissaAndAccuracy m a >>> excess m e).roundedMantissa

theorem le_rounded (m : Nat) (e : Int) (a : Accuracy) : m / 2 ^ excess m e ≤ rounded m e a := by
  have hle := le_roundedMantissa (ExtendedMantissa.ofMantissaAndAccuracy m a >>> excess m e)
  rwa [mantissa_shiftRight, mantissa_ofAccuracy] at hle

theorem rounded_le (m : Nat) (e : Int) (a : Accuracy) :
    rounded m e a ≤ m / 2 ^ excess m e + 1 := by
  have hle := roundedMantissa_le (ExtendedMantissa.ofMantissaAndAccuracy m a >>> excess m e)
  rwa [mantissa_shiftRight, mantissa_ofAccuracy] at hle

theorem rounded_eq {m : Nat} {e : Int} (h : 2 * (m % 2 ^ excess m e) < 2 ^ excess m e) :
    rounded m e .exact = m / 2 ^ excess m e := by
  have heq := roundedMantissa_eq (roundBit_shiftRight m (excess m e) h)
  rwa [mantissa_shiftRight] at heq

theorem div_excess_lt (m : Nat) (e : Int) : m / 2 ^ excess m e < 2 ^ 53 := by
  have hbits : m.log2 < 53 + excess m e := by
    unfold excess
    omega
  rw [Nat.div_lt_iff_lt_mul (Nat.two_pow_pos _), ← pow_add]
  exact Nat.lt_log2_self.trans_le (Nat.pow_le_pow_right (by decide) hbits)

theorem excess_ge (m : Nat) (e : Int) : -1074 ≤ e + excess m e := by
  unfold excess
  omega

/-- The second shift moves a mantissa only if it has become one bit too long. -/
theorem carried_eq (sign : Sign) {r : Nat} {e : Int} (hr : r ≤ 2 ^ 53) (he : -1074 ≤ e) :
    (if h : (ExtendedMantissa.ofMantissaAndAccuracy r .exact >>> excess r e).mantissa = 0 then
        .zero sign
      else .finite sign (ExtendedMantissa.ofMantissaAndAccuracy r .exact >>> excess r e).mantissa
        (e + excess r e) (Nat.pos_of_ne_zero h)) = carried sign r e := by
  unfold carried
  obtain hlt | rfl := hr.lt_or_eq
  · have hnone : excess r e = 0 := by
      have := log2_le_of_lt hlt
      unfold excess
      omega
    simp only [hnone, mantissa_shiftRight, mantissa_ofAccuracy, hlt.ne, if_false, pow_zero,
      Nat.div_one, Nat.cast_zero, add_zero]
  · have hone : excess (2 ^ 53) e = 1 := by
      unfold excess
      rw [Nat.log2_two_pow]
      omega
    simp only [hone, mantissa_shiftRight, mantissa_ofAccuracy]
    rfl

theorem roundWithAccuracy_eq (sign : Sign) (m : Nat) (e : Int) (a : Accuracy) :
    roundWithAccuracy .binary64 sign m e a =
      carried sign (rounded m e a) (e + excess m e) := by
  have hle : rounded m e a ≤ 2 ^ 53 := (rounded_le m e a).trans (div_excess_lt m e)
  unfold roundWithAccuracy
  simp only [shift_eq]
  exact carried_eq sign hle (excess_ge m e)

end Shift

section Powers

variable {m k : Nat} {e : Int}

theorem mul_zpow_le : (m : ℚ) * 2 ^ e ≤ 2 ^ (e + k) ↔ m ≤ 2 ^ k := by
  rw [zpow_add₀ two_ne_zero, mul_comm, zpow_natCast, mul_le_mul_iff_right₀ (by positivity)]
  exact_mod_cast Iff.rfl

theorem zpow_le_mul : (2 : ℚ) ^ (e + k) ≤ m * 2 ^ e ↔ 2 ^ k ≤ m := by
  rw [zpow_add₀ two_ne_zero, mul_comm (m : ℚ), zpow_natCast, mul_le_mul_iff_right₀ (by positivity)]
  exact_mod_cast Iff.rfl

theorem zpow_log2_le (hm : 0 < m) : (2 : ℚ) ^ (m.log2 + e) ≤ m * 2 ^ e := by
  rw [add_comm, zpow_le_mul]
  exact Nat.log2_self_le hm.ne'

theorem lt_zpow_log2 (m : Nat) (e : Int) : (m : ℚ) * 2 ^ e < 2 ^ (m.log2 + 1 + e) := by
  rw [← not_le, add_comm, show e + ((m.log2 : Int) + 1) = e + (m.log2 + 1 : Nat) by push_cast; ring,
    zpow_le_mul, not_le]
  exact Nat.lt_log2_self

theorem zpow_lt_zpow {a b : Int} : (2 : ℚ) ^ a < 2 ^ b ↔ a < b :=
  zpow_lt_zpow_iff_right₀ one_lt_two

theorem zpow_le_zpow {a b : Int} : (2 : ℚ) ^ a ≤ 2 ^ b ↔ a ≤ b :=
  zpow_le_zpow_iff_right₀ one_lt_two

end Powers

section Bounds

variable {m : Nat} {e high low : Int} {a : Accuracy}

theorem excess_eq (hfits : 52 ≤ m.log2 ∨ e ≤ -1074) : e + excess m e = max (m.log2 + e - 52) (-1074) := by
  unfold excess
  omega

variable (hfits : 52 ≤ m.log2 ∨ e ≤ -1074)
include hfits

/-- All bits are used after the shift, or the exponent is the least. -/
theorem full_of_fits : 2 ^ 52 ≤ rounded m e a ∨ e + excess m e = -1074 := by
  have hexcess := excess_eq hfits
  obtain hlow | hhigh := le_or_gt (m.log2 + e - 52) (-1074)
  · right
    omega
  · left
    have hm : m ≠ 0 := by
      rintro rfl
      rw [Nat.log2_zero] at hfits hhigh
      omega
    refine le_trans ?_ (le_rounded m e a)
    rw [Nat.le_div_iff_mul_le (Nat.two_pow_pos _), ← pow_add]
    refine le_trans (Nat.pow_le_pow_right (by decide) ?_) (Nat.log2_self_le hm)
    omega

theorem excess_le_of_le (hhigh : -1074 ≤ high) (hle : (m : ℚ) * 2 ^ e ≤ 2 ^ high) :
    e + excess m e ≤ high := by
  rw [excess_eq hfits]
  obtain rfl | hm := Nat.eq_zero_or_pos m
  · rw [Nat.log2_zero] at hfits ⊢
    omega
  · have hlog := zpow_le_zpow.1 ((zpow_log2_le hm).trans hle)
    omega

/-- A power of two is not passed by rounding. -/
theorem rounded_mul_le (hhigh : -1074 ≤ high) (hle : (m : ℚ) * 2 ^ e ≤ 2 ^ high)
    (hexact : a = .exact ∨ (m : ℚ) * 2 ^ e < 2 ^ high) :
    (rounded m e a : ℚ) * 2 ^ (e + excess m e) ≤ 2 ^ high := by
  obtain ⟨k, hk⟩ := Int.le.dest (excess_le_of_le hfits hhigh hle)
  have hpower : high = e + (excess m e + k : Nat) := by push_cast; omega
  rw [hpower, mul_zpow_le] at hle
  rw [← hk, mul_zpow_le]
  obtain hlt | heq := hle.lt_or_eq
  · have hdiv : m / 2 ^ excess m e < 2 ^ k := by
      rwa [Nat.div_lt_iff_lt_mul (Nat.two_pow_pos _), ← pow_add, Nat.add_comm k]
    exact (rounded_le m e a).trans hdiv
  · obtain rfl : a = .exact := by
      refine hexact.resolve_right ?_
      rw [not_lt, hpower, zpow_le_mul]
      exact heq.ge
    rw [pow_add] at heq hle
    have hmod : m % 2 ^ excess m e = 0 := Nat.mod_eq_zero_of_dvd ⟨2 ^ k, heq⟩
    rw [rounded_eq (by rw [hmod]; exact Nat.two_pow_pos _)]
    exact Nat.div_le_of_le_mul hle

theorem le_rounded_mul (hlow : -1074 ≤ low) (hge : (2 : ℚ) ^ low ≤ m * 2 ^ e) :
    (2 : ℚ) ^ low ≤ rounded m e a * 2 ^ (e + excess m e) := by
  obtain hle | hlt := le_or_gt (e + excess m e) low
  · obtain ⟨k, hk⟩ := Int.le.dest hle
    have hpower : low = e + (excess m e + k : Nat) := by push_cast; omega
    rw [hpower, zpow_le_mul] at hge
    rw [← hk, zpow_le_mul]
    refine le_trans ?_ (le_rounded m e a)
    rwa [Nat.le_div_iff_mul_le (Nat.two_pow_pos _), ← pow_add, Nat.add_comm k]
  · have hone : 2 ^ 0 ≤ rounded m e a := by
      obtain hfull | hleast := full_of_fits hfits (a := a)
      · omega
      · omega
    calc (2 : ℚ) ^ low ≤ 2 ^ (e + excess m e + (0 : Nat)) := zpow_le_zpow.2 (by push_cast; omega)
      _ ≤ rounded m e a * 2 ^ (e + excess m e) := zpow_le_mul.2 hone

omit hfits in
/-- A little more than a power of two has the bits of that power. -/
theorem log2_add_eq_of_near (hgreat : (2 : ℚ) ^ high < m * 2 ^ e)
    (hle : (m : ℚ) * 2 ^ e ≤ 2 ^ high + 2 ^ (high - 54)) : (m.log2 : Int) + e = high := by
  have hm : 0 < m := by
    by_contra hzero
    rw [not_lt, Nat.le_zero] at hzero
    rw [hzero, Nat.cast_zero, zero_mul] at hgreat
    exact absurd hgreat (not_lt.2 (by positivity))
  have hnear : (2 : ℚ) ^ (high - 54) < 2 ^ high := zpow_lt_zpow.2 (by omega)
  have hdouble : (2 : ℚ) ^ (high + 1) = 2 ^ high + 2 ^ high := by
    rw [zpow_add₀ two_ne_zero]
    ring
  have hover := zpow_lt_zpow.1 (hgreat.trans (lt_zpow_log2 m e))
  have hunder := zpow_lt_zpow.1 ((zpow_log2_le hm).trans_lt
    (hle.trans_lt ((add_lt_add_iff_left _).2 hnear |>.trans_eq hdouble.symm)))
  omega

omit hfits in
/-- What exceeds a power of two by a quarter of the last place at most, in units of that place. -/
theorem four_mul_le_of_near {x : Nat} (hplace : high = 52 + x + e)
    (hle : (m : ℚ) * 2 ^ e ≤ 2 ^ high + 2 ^ (high - 54)) :
    4 * m ≤ 4 * (2 ^ 52 * 2 ^ x) + 2 ^ x := by
  have hwhole : (2 : ℚ) ^ high = 2 ^ 52 * 2 ^ x * 2 ^ e := by
    rw [hplace, zpow_add₀ two_ne_zero, zpow_add₀ two_ne_zero, zpow_natCast]
    rfl
  have hrest : 4 * (2 : ℚ) ^ (high - 54) = 2 ^ x * 2 ^ e := by
    rw [show high - 54 = -2 + x + e by omega, zpow_add₀ two_ne_zero, zpow_add₀ two_ne_zero,
      zpow_natCast]
    norm_num
    ring
  have hscaled : (4 * m : ℚ) * 2 ^ e ≤ (4 * (2 ^ 52 * 2 ^ x) + 2 ^ x) * 2 ^ e := by
    linarith
  exact_mod_cast le_of_mul_le_mul_right hscaled (by positivity)

/-- What exceeds a power of two by less than half of the last place is rounded to it. -/
theorem rounded_mul_le_of_near (hhigh : -1022 ≤ high)
    (hle : (m : ℚ) * 2 ^ e ≤ 2 ^ high + 2 ^ (high - 54)) :
    (rounded m e .exact : ℚ) * 2 ^ (e + excess m e) ≤ 2 ^ high := by
  obtain hsmall | hgreat := le_or_gt ((m : ℚ) * 2 ^ e) (2 ^ high)
  · exact rounded_mul_le hfits (by omega) hsmall (.inl rfl)
  have hlog := log2_add_eq_of_near hgreat hle
  have hexcess : e + (excess m e : Int) = high - 52 := by
    rw [excess_eq hfits]
    omega
  have hmuch : 2 ^ 52 * 2 ^ excess m e ≤ m := by
    rw [← pow_add, ← zpow_le_mul (e := e)]
    refine le_trans (zpow_le_zpow.2 ?_) hgreat.le
    push_cast
    omega
  have hlittle := four_mul_le_of_near (x := excess m e) (by omega) hle
  have hpos := Nat.two_pow_pos (excess m e)
  have hdiv : m / 2 ^ excess m e = 2 ^ 52 := by
    apply Nat.div_eq_of_lt_le hmuch
    rw [Nat.add_mul]
    omega
  have hmod : 2 * (m % 2 ^ excess m e) < 2 ^ excess m e := by
    have := Nat.div_add_mod' m (2 ^ excess m e)
    rw [hdiv] at this
    omega
  have hpower : high - 52 + (52 : Nat) = high := by omega
  rw [rounded_eq hmod, hdiv, hexcess]
  exact ((mul_zpow_le (k := 52)).2 le_rfl).trans_eq (by rw [hpower])

end Bounds

/-- Not zero, of the form of a double, and between two powers of two, whatever the sign. -/
inductive Sized (low high : Int) : UnpackedFloat → Prop
  | finite {sign : Sign} {m : Nat} {e : Int} {h : 0 < m} :
      Canonical m e → (2 : ℚ) ^ low ≤ m * 2 ^ e → (m : ℚ) * 2 ^ e ≤ 2 ^ high →
      Sized low high (.finite sign m e h)

/-- Zero, or between two powers of two. -/
def Small (low high : Int) (x : UnpackedFloat) : Prop := (∃ sign, x = .zero sign) ∨ Sized low high x

/-- Zero of either sign, or greater than zero. -/
def Nonneg : UnpackedFloat → Prop
  | .zero _ | .infinity .positive | .finite .positive _ _ _ => True
  | _ => False

theorem Sized.mono {low high low' high' : Int} {x : UnpackedFloat} (h : Sized low high x)
    (hlow : low' ≤ low) (hhigh : high ≤ high') : Sized low' high' x := by
  obtain ⟨hcanonical, hge, hle⟩ := h
  exact .finite hcanonical ((zpow_le_zpow.2 hlow).trans hge) (hle.trans (zpow_le_zpow.2 hhigh))

theorem Small.mono {low high low' high' : Int} {x : UnpackedFloat} (h : Small low high x)
    (hlow : low' ≤ low) (hhigh : high ≤ high') : Small low' high' x :=
  h.imp_right fun hsized => hsized.mono hlow hhigh

section Round

variable {sign : Sign} {m : Nat} {e low high : Int} {a : Accuracy}

/-- The rounded number, if its mantissa is not zero. -/
theorem sized_carried {r : Nat} (hr : 0 < r) (hle : r ≤ 2 ^ 53) (he : -1074 ≤ e)
    (hfull : 2 ^ 52 ≤ r ∨ e = -1074) (hlow : (2 : ℚ) ^ low ≤ r * 2 ^ e)
    (hhigh : (r : ℚ) * 2 ^ e ≤ 2 ^ high) : Sized low high (carried sign r e) := by
  unfold carried
  rw [dif_neg hr.ne']
  split
  · rename_i hcarry
    have hsame : ((2 ^ 52 : Nat) : ℚ) * 2 ^ (e + 1) = r * 2 ^ e := by
      rw [hcarry, zpow_add₀ two_ne_zero]
      norm_num
      ring
    rw [← hsame] at hlow hhigh
    exact .finite ⟨by decide, by decide, by omega, .inl le_rfl⟩ hlow hhigh
  · rename_i hnone
    exact .finite ⟨hr, lt_of_le_of_ne hle hnone, he, hfull⟩ hlow hhigh

/-- A number that has all bits that it needs is rounded to a double of its size. -/
theorem sized_round (hfits : 52 ≤ m.log2 ∨ e ≤ -1074) (hlow : -1074 ≤ low)
    (hge : (2 : ℚ) ^ low ≤ m * 2 ^ e)
    (hle : (rounded m e a : ℚ) * 2 ^ (e + excess m e) ≤ 2 ^ high) :
    Sized low high (roundWithAccuracy .binary64 sign m e a) := by
  have hmul := le_rounded_mul hfits hlow hge (a := a)
  have hpos : 0 < rounded m e a := by
    by_contra hzero
    rw [not_lt, Nat.le_zero] at hzero
    rw [hzero, Nat.cast_zero, zero_mul] at hmul
    exact absurd hmul (not_le.2 (by positivity))
  rw [roundWithAccuracy_eq]
  exact sized_carried hpos ((rounded_le m e a).trans (div_excess_lt m e)) (excess_ge m e)
    (full_of_fits hfits) hmul hle

/-- Without a lower bound, the rounded number may be zero. -/
theorem small_round (hfits : 52 ≤ m.log2 ∨ e ≤ -1074)
    (hle : (rounded m e a : ℚ) * 2 ^ (e + excess m e) ≤ 2 ^ high) :
    Small (-1074) high (roundWithAccuracy .binary64 sign m e a) := by
  rw [roundWithAccuracy_eq]
  obtain hzero | hpos := Nat.eq_zero_or_pos (rounded m e a)
  · left
    refine ⟨sign, ?_⟩
    unfold carried
    rw [dif_pos hzero]
  · right
    have hge := excess_ge m e
    refine sized_carried hpos ((rounded_le m e a).trans (div_excess_lt m e)) hge
      (full_of_fits hfits) ?_ hle
    obtain ⟨k, hk⟩ := Int.le.dest hge
    calc (2 : ℚ) ^ (-1074 : Int) ≤ 2 ^ (e + excess m e + (0 : Nat)) :=
          zpow_le_zpow.2 (by push_cast; omega)
      _ ≤ rounded m e a * 2 ^ (e + excess m e) := zpow_le_mul.2 hpos

theorem nonneg_round {format : Float.Model.Format} :
    Nonneg (roundWithAccuracy format .positive m e a) := by
  unfold roundWithAccuracy
  dsimp only
  split <;> trivial

end Round

end Centroids

import Centroids.Proofs.Weighing

/-! The clocks of a race and the points of the unit interval, in double precision.  The logarithm is
monotone in its argument, so bounds of its series come from fixed arguments.  What is drawn from a
whole number that is not zero lies between powers of two that are far within the range. -/
namespace Centroids

open Float.Model (UnpackedFloat)

namespace Logarithm

/-- The series grows with its first power and with the factor between powers. -/
theorem artanhTail_mono {square square' : Nat} (hsquare : square ≤ square') (terms : Nat)
    {power power' : Nat} (hpower : power ≤ power') (n : Nat) :
    artanhTail square terms power n ≤ artanhTail square' terms power' n := by
  induction terms generalizing power power' n with
  | zero => exact le_rfl
  | succ terms ih =>
    unfold artanhTail
    by_cases hzero : power = 0
    · simp [hzero]
    · rw [if_neg hzero, if_neg (by omega)]
      have hnext : (power * square) >>> places ≤ (power' * square') >>> places := by
        simp only [Nat.shiftRight_eq_div_pow]
        exact Nat.div_le_div_right (Nat.mul_le_mul hpower hsquare)
      exact Nat.add_le_add (Nat.div_le_div_right hpower) (ih hnext (n + 2))

/-- Fractions are compared crosswise. -/
theorem artanh_mono {p q r s : Nat} (hq : 0 < q) (hs : 0 < s) (h : p * s ≤ r * q) :
    artanh p q ≤ artanh r s := by
  have hz : (p <<< places) / q ≤ (r <<< places) / s := by
    rw [Nat.le_div_iff_mul_le hs, Nat.shiftLeft_eq, Nat.shiftLeft_eq]
    apply Nat.le_of_mul_le_mul_right _ hq
    calc p * 2 ^ places / q * s * q = p * 2 ^ places / q * q * s := by ring
      _ ≤ p * 2 ^ places * s := Nat.mul_le_mul_right s (Nat.div_mul_le_self _ q)
      _ = p * s * 2 ^ places := by ring
      _ ≤ r * q * 2 ^ places := Nat.mul_le_mul_right _ h
      _ = r * 2 ^ places * q := by ring
  unfold artanh
  dsimp only
  refine artanhTail_mono ?_ 64 hz 1
  simp only [Nat.shiftRight_eq_div_pow]
  exact Nat.div_le_div_right (Nat.mul_le_mul hz hz)

/-- The first term of the series. -/
theorem le_artanh (p q : Nat) : (p <<< places) / q ≤ artanh p q := by
  unfold artanh artanhTail
  dsimp only
  split
  · omega
  · rw [Nat.div_one]
    exact Nat.le_add_right _ _

theorem artanh_pos {p q : Nat} (hp : 0 < p) (hq : 0 < q) (hle : q ≤ 2 ^ places) :
    0 < artanh p q := by
  refine lt_of_lt_of_le ?_ (le_artanh p q)
  rw [Nat.shiftLeft_eq]
  exact Nat.div_pos (hle.trans (Nat.le_mul_of_pos_left _ hp)) hq

theorem artanh_seventh_lt : 2 * artanh 1 7 < two := by decide +kernel

theorem two_bounds : 0 < two ∧ 54 * two ≤ 2 ^ 205 := by decide +kernel

/-- The mantissa is scaled to near one, from below or from above. -/
theorem negLogFraction_cases {m : Nat} (hpos : 0 < m) (hlt : m < 2 ^ 53) : ∃ e ≤ 53,
    (m ≤ 2 ^ e ∧ 2 ^ e ≤ 2 * m ∧
      negLogFraction m 53 = (53 - e) * two + 2 * artanh (2 ^ e - m) (m + 2 ^ e)) ∨
    (2 ^ e < m ∧ 3 * m ≤ 4 * 2 ^ e ∧ negLogFraction m 53 =
      (53 - e) * two + 2 * artanh (m - 2 ^ e) (m + 2 ^ e) -
        2 * (2 * artanh (m - 2 ^ e) (m + 2 ^ e))) := by
  have hlow := Nat.log2_self_le hpos.ne'
  have hhigh := Nat.lt_log2_self (n := m)
  have hlog : m.log2 < 53 := (Nat.log2_lt hpos.ne').2 hlt
  have hpow : ∀ e, Nat.pow 2 e = 2 ^ e := fun _ => rfl
  rw [pow_succ] at hhigh
  unfold negLogFraction
  simp only [hpow]
  by_cases hcarry : 4 * 2 ^ m.log2 < 3 * m
  · refine ⟨m.log2 + 1, hlog, .inl ?_⟩
    have hle : m ≤ 2 ^ (m.log2 + 1) := by
      rw [pow_succ]
      exact hhigh.le
    simp only [if_pos hcarry, if_pos hle, Nat.sub_zero, and_true]
    rw [pow_succ] at hle ⊢
    omega
  · refine ⟨m.log2, hlog.le, ?_⟩
    simp only [if_neg hcarry, Nat.add_zero]
    obtain hle | hgt := le_or_gt m (2 ^ m.log2)
    · simp only [if_pos hle, Nat.sub_zero, and_true]
      omega
    · simp only [if_neg hgt.not_ge, and_true]
      omega

/-- The logarithm of a fraction is neither zero nor great. -/
theorem negLogFraction_bounds {m : Nat} (hpos : 0 < m) (hlt : m < 2 ^ 53) :
    0 < negLogFraction m 53 ∧ negLogFraction m 53 ≤ 2 ^ 205 := by
  obtain ⟨htwo, hgreat⟩ := two_bounds
  have hthird : 2 * artanh 1 3 = two := rfl
  obtain ⟨e, he, ⟨hle, hhalf, hvalue⟩ | ⟨hgt, hfew, hvalue⟩⟩ := negLogFraction_cases hpos hlt
  · have hseries : artanh (2 ^ e - m) (m + 2 ^ e) ≤ artanh 1 3 :=
      artanh_mono (by omega) (by decide) (by omega)
    have hwhole : (53 - e) * two ≤ 53 * two := Nat.mul_le_mul_right two (Nat.sub_le 53 e)
    refine ⟨?_, by omega⟩
    obtain rfl | hlast := he.eq_or_lt
    · have hfirst : 0 < artanh (2 ^ 53 - m) (m + 2 ^ 53) :=
        artanh_pos (by omega) (by omega) (by unfold places; omega)
      omega
    · have : 0 < (53 - e) * two := Nat.mul_pos (by omega) htwo
      omega
  · have hlast : e < 53 := he.lt_of_ne (by rintro rfl; omega)
    have hseries : artanh (m - 2 ^ e) (m + 2 ^ e) ≤ artanh 1 7 :=
      artanh_mono (by omega) (by decide) (by omega)
    have hseventh := artanh_seventh_lt
    have hone : two ≤ (53 - e) * two := Nat.le_mul_of_pos_left two (by omega)
    have hwhole : (53 - e) * two ≤ 53 * two := Nat.mul_le_mul_right two (Nat.sub_le 53 e)
    omega

end Logarithm

section Ratio

variable {k n : Nat}

theorem unpack_ofRatio (hk : 0 < k) (hn : 0 < n) : Double.unpack (Double.ofRatio k n) =
    settle (settle (.div .binary64 (.finite .positive k 0 hk) (.finite .positive n 0 hn))) := by
  have hratio : ratio .binary64 k n =
      .div .binary64 (.finite .positive k 0 hk) (.finite .positive n 0 hn) := by
    unfold ratio
    rw [dif_pos hk, dif_pos hn]
  rw [← hratio]
  rfl

/-- A whole number of steps of a power of two. -/
theorem sized_ofRatio (steps high : Nat) (hk : 0 < k) (hle : k ≤ 2 ^ (steps + high))
    (hsteps : steps ≤ 1074) (hhigh : high ≤ 1023) :
    Sized (-steps) high (Double.unpack (Double.ofRatio k (Nat.pow 2 steps))) ∧
      Nonneg (Double.unpack (Double.ofRatio k (Nat.pow 2 steps))) := by
  have hn : 0 < 2 ^ steps := Nat.two_pow_pos steps
  have hvalue : (k * 2 ^ (0 : Int) / ((2 ^ steps : Nat) * 2 ^ (0 : Int)) : ℚ) =
      k * 2 ^ (-steps : Int) := by
    rw [zpow_neg, zpow_natCast]
    push_cast
    ring
  have hsized : Sized (-steps) high
      (.div .binary64 (.finite .positive k 0 hk) (.finite .positive (2 ^ steps) 0 hn)) := by
    apply sized_quotient (by omega) (by omega)
    · rw [hvalue]
      exact le_mul_of_one_le_left (by positivity) (by exact_mod_cast hk)
    · rw [hvalue, show (high : Int) = -steps + (steps + high : Nat) by push_cast; ring, mul_zpow_le]
      exact hle
  have hnonneg : Nonneg
      (.div .binary64 (.finite .positive k 0 hk) (.finite .positive (2 ^ steps) 0 hn)) :=
    nonneg_round
  rw [show Nat.pow 2 steps = 2 ^ steps from rfl, unpack_ofRatio hk hn,
    hsized.settle_eq (by omega), hsized.settle_eq (by omega)]
  exact ⟨hsized, hnonneg⟩

variable (hk : 0 < k) (hlt : k < 2 ^ 53)
include hk hlt

/-- A point of the unit interval is not below its first step, and not above one. -/
theorem sized_uniform : Sized (-53) 0 (Double.unpack (Sampled.uniform k)) ∧
    Nonneg (Double.unpack (Sampled.uniform k)) :=
  sized_ofRatio 53 0 hk hlt.le (by decide) (by decide)

/-- No clock stands still, and none is slow. -/
theorem sized_exponential : Sized (-192) 13 (Double.unpack (Sampled.exponential k)) ∧
    Nonneg (Double.unpack (Sampled.exponential k)) := by
  obtain ⟨hpos, hle⟩ := Logarithm.negLogFraction_bounds (m := 2 ^ 53 - k) (by omega) (by omega)
  exact sized_ofRatio 192 13 hpos hle (by decide) (by decide)

end Ratio

end Centroids

import Centroids.Proofs.Rounding

/-! Arithmetic in double precision by sign and size.  What a sum, a difference, a square or a quotient
is at most and at least follows from powers of two around its parts.  A sum does not leave a power
of two that is far above each of its parts, however many there are. -/
namespace Centroids

open Float.Model (totalExponent UnpackedFloat)
open Float.Model.UnpackedFloat (Accuracy Sign packComponents unpackSign roundWithAccuracy
  decreaseExponent divCore accuracyOfFraction)

section Store

variable {sign : Sign} {m : Nat} {e low high : Int} {hm : 0 < m}

/-- What is read back after a number is stored. -/
def settle (x : UnpackedFloat) : UnpackedFloat := .unpack .binary64 (UnpackedFloat.pack .binary64 x)

theorem ofBitVec_toBitVec (sign : Sign) : Sign.ofBitVec sign.toBitVec = sign := by
  cases sign <;> rfl

theorem finite_congr {n : Nat} {f : Int} {hn : 0 < n} (hmantissa : n = m) (hexponent : f = e) :
    UnpackedFloat.finite sign n f hn = .finite sign m e hm := by
  subst hmantissa hexponent
  rfl

theorem unpack_normal {exponent : BitVec 11} {mantissa : BitVec 52} (hpos : 0 < exponent.toNat)
    (hlt : exponent.toNat < 2047) (hmantissa : 2 ^ 52 + mantissa.toNat = m)
    (hexponent : (exponent.toNat : Int) - 1075 = e) :
    UnpackedFloat.unpack .binary64 (packComponents .binary64 sign exponent mantissa) =
      .finite sign m e hm := by
  have hmax : exponent ≠ -1#11 := by
    rintro rfl
    exact absurd hlt (by decide)
  have hzero : exponent ≠ 0#11 := by
    rintro rfl
    exact absurd hpos (by decide)
  unfold UnpackedFloat.unpack
  simp only [Float.Model.UnpackedFloat.unpackMantissa_packComponents,
    Float.Model.UnpackedFloat.unpackExponent_packComponents, unpackSign_components,
    ofBitVec_toBitVec]
  rw [if_neg hmax, if_neg hzero]
  apply finite_congr
  · rw [← hmantissa, BitVec.toNat_append]
    exact (Nat.two_pow_add_eq_or_of_lt mantissa.isLt 1).symm
  · rw [bias_eq]
    exact hexponent

theorem unpack_subnormal {mantissa : BitVec 52} (hmantissa : mantissa.toNat = m) :
    UnpackedFloat.unpack .binary64 (packComponents .binary64 sign 0#11 mantissa) =
      .finite sign m (-1074) hm := by
  have hzero : mantissa ≠ 0#52 := by
    rintro rfl
    exact hm.ne' hmantissa.symm
  unfold UnpackedFloat.unpack
  simp only [Float.Model.UnpackedFloat.unpackMantissa_packComponents,
    Float.Model.UnpackedFloat.unpackExponent_packComponents, unpackSign_components,
    ofBitVec_toBitVec]
  rw [if_neg (by decide), if_pos trivial, dif_neg hzero]
  exact finite_congr hmantissa rfl

/-- Beyond the greatest exponent there is only infinity; all else is kept. -/
theorem settle_finite (h : Canonical m e) : settle (.finite sign m e hm) =
    if e ≤ 971 then .finite sign m e hm else .infinity sign := by
  have hbits : Float.Model.Format.binary64.mantissaBits = 53 := rfl
  have hge := h.ge
  unfold settle UnpackedFloat.pack
  dsimp only
  rw [add_assoc, bias_eq, hbits]
  generalize hbiased : (e + 1075).toNat = biased
  by_cases hmax : e ≤ 971
  · have hsmall : ¬ 2 ^ 11 ≤ biased + 1 := by omega
    rw [if_neg hsmall, if_pos hmax]
    have htoNat : (BitVec.ofNat 11 biased).toNat = biased := by
      rw [BitVec.toNat_ofNat, Nat.mod_eq_of_lt (by omega)]
    split
    · rename_i hlog
      have hhigh : 2 ^ 52 ≤ m := by
        rw [← show m.log2 = 52 by omega]
        exact Nat.log2_self_le hm.ne'
      have hlow := h.lt
      have hkept : 2 ^ 52 + (BitVec.ofNat 52 m).toNat = m := by
        rw [BitVec.toNat_ofNat]
        omega
      exact unpack_normal (by omega) (by omega) hkept (by omega)
    · rename_i hlog
      have hlow : m < 2 ^ 52 := by
        rw [← Nat.log2_lt hm.ne']
        have := (Nat.log2_lt hm.ne').2 h.lt
        omega
      obtain rfl : e = -1074 := h.full.resolve_left (by omega)
      apply unpack_subnormal
      rw [BitVec.toNat_ofNat, Nat.mod_eq_of_lt hlow]
  · have hgreat : 2 ^ 11 ≤ biased + 1 := by omega
    rw [if_pos hgreat, if_neg hmax]
    cases sign <;> rfl

theorem Sized.settle_eq {x : UnpackedFloat} (h : Sized low high x) (hhigh : high ≤ 1023) :
    settle x = x := by
  obtain ⟨hcanonical, -, hle⟩ := h
  rw [settle_finite hcanonical, if_pos]
  obtain hfull | hleast := hcanonical.full
  · have hbound := zpow_le_zpow.1 ((zpow_le_mul (k := 52)).2 hfull |>.trans hle)
    push_cast at hbound
    omega
  · omega

theorem settle_zero (sign : Sign) : settle (.zero sign) = .zero sign := by
  cases sign <;> rfl

theorem Small.settle_eq {x : UnpackedFloat} (h : Small low high x) (hhigh : high ≤ 1023) :
    settle x = x := by
  obtain ⟨sign, rfl⟩ | hsized := h
  · exact settle_zero sign
  · exact hsized.settle_eq hhigh

end Store

section Round

variable {sign : Sign} {m : Nat} {e low high : Int}

theorem decreaseExponent_mul (m : Nat) (e target : Int) :
    ((decreaseExponent m e target).1 : ℚ) * 2 ^ (decreaseExponent m e target).2 = m * 2 ^ e := by
  unfold decreaseExponent
  dsimp only
  rw [Nat.shiftLeft_eq, Nat.cast_mul, Nat.cast_pow, Nat.cast_ofNat, mul_assoc, ← zpow_natCast,
    ← zpow_add₀ two_ne_zero]
  congr 2
  omega

/-- A number is given all bits that it needs before it is rounded. -/
theorem exists_round (hm : 0 < m) (sign : Sign) (e : Int) : ∃ (n : Nat) (f : Int),
    UnpackedFloat.round .binary64 sign m e = roundWithAccuracy .binary64 sign n f .exact ∧
      (n : ℚ) * 2 ^ f = m * 2 ^ e ∧ (52 ≤ n.log2 ∨ f ≤ -1074) := by
  refine ⟨_, _, rfl, decreaseExponent_mul m e _, ?_⟩
  rw [target_eq]
  generalize hshift : (e - max (m.log2 + e - 52) (-1074)).toNat = shift
  have hlog : m.log2 + shift ≤ (m <<< shift).log2 := by
    rw [Nat.shiftLeft_eq, Nat.le_log2 (mul_ne_zero hm.ne' (Nat.two_pow_pos shift).ne'), pow_add]
    exact Nat.mul_le_mul_right _ (Nat.log2_self_le hm.ne')
  omega

theorem small_of_round (hm : 0 < m) (hhigh : -1022 ≤ high)
    (hle : (m : ℚ) * 2 ^ e ≤ 2 ^ high + 2 ^ (high - 54)) :
    Small (-1074) high (.round .binary64 sign m e) := by
  obtain ⟨n, f, hround, hvalue, hfits⟩ := exists_round hm sign e
  rw [← hvalue] at hle
  rw [hround]
  exact small_round hfits (rounded_mul_le_of_near hfits hhigh hle)

theorem sized_of_round (hm : 0 < m) (hlow : -1074 ≤ low) (hhigh : -1022 ≤ high)
    (hge : (2 : ℚ) ^ low ≤ m * 2 ^ e) (hle : (m : ℚ) * 2 ^ e ≤ 2 ^ high + 2 ^ (high - 54)) :
    Sized low high (.round .binary64 sign m e) := by
  obtain ⟨n, f, hround, hvalue, hfits⟩ := exists_round hm sign e
  rw [← hvalue] at hge hle
  rw [hround]
  exact sized_round hfits hlow hge (rounded_mul_le_of_near hfits hhigh hle)

theorem nonneg_of_round : Nonneg (.round .binary64 .positive m e) := nonneg_round

theorem normalize_pos {n : Int} (hn : 0 < n) (zero : Sign) :
    UnpackedFloat.normalize .binary64 n e zero = .round .binary64 .positive n.natAbs e := by
  unfold UnpackedFloat.normalize
  rw [Int.compare_eq_gt.2 hn]
  dsimp only
  congr 1
  omega

theorem small_normalize {n : Int} (hhigh : -1022 ≤ high)
    (hle : (n.natAbs : ℚ) * 2 ^ e ≤ 2 ^ high + 2 ^ (high - 54)) :
    Small (-1074) high (.normalize .binary64 n e .positive) := by
  obtain hneg | rfl | hpos := lt_trichotomy n 0
  · unfold UnpackedFloat.normalize
    rw [Int.compare_eq_lt.2 hneg]
    dsimp only
    rw [show (-n).toNat = n.natAbs by omega]
    exact small_of_round (by omega) hhigh hle
  · exact .inl ⟨.positive, rfl⟩
  · rw [normalize_pos hpos]
    exact small_of_round (by omega) hhigh hle

end Round

section Sum

variable {a b low high : Int} {x y : UnpackedFloat}

theorem decreaseExponent_of_le (m : Nat) {e target : Int} (h : target ≤ e) :
    ((decreaseExponent m e target).1 : ℚ) * 2 ^ target = m * 2 ^ e := by
  have hvalue := decreaseExponent_mul m e target
  have htarget : (decreaseExponent m e target).2 = target := by
    unfold decreaseExponent
    dsimp only
    omega
  rwa [htarget] at hvalue

/-- Two numbers are added as whole numbers of steps of the lesser exponent. -/
theorem exists_add (s t : Sign) {m n : Nat} (e f : Int) (hm : 0 < m) (hn : 0 < n) :
    ∃ (p q : Nat) (g : Int), UnpackedFloat.add .binary64 (.finite s m e hm) (.finite t n f hn) =
        .normalize .binary64 (s.apply p + t.apply q) g .positive ∧ 0 < p ∧
      (p : ℚ) * 2 ^ g = m * 2 ^ e ∧ (q : ℚ) * 2 ^ g = n * 2 ^ f :=
  ⟨_, _, _, rfl, Nat.shiftLeft_pos_iff.2 hm, decreaseExponent_of_le m (min_le_left e f),
    decreaseExponent_of_le n (min_le_right e f)⟩

theorem zero_add_of_sized (sign : Sign) (h : Sized low high x) :
    UnpackedFloat.add .binary64 (.zero sign) x = x := by
  cases h
  rfl

theorem add_zero_of_sized (sign : Sign) (h : Sized low high x) :
    UnpackedFloat.add .binary64 x (.zero sign) = x := by
  cases h
  rfl

section Bounds

variable (ha : a ≤ high) (hb : b ≤ high) (hhigh : -1022 ≤ high)
  (hsum : (2 : ℚ) ^ a + 2 ^ b ≤ 2 ^ high + 2 ^ (high - 54))
include ha hb hhigh hsum

theorem Small.add (hx : Small (-1074) a x) (hy : Small (-1074) b y) :
    Small (-1074) high (.add .binary64 x y) := by
  obtain ⟨s, rfl⟩ | hx := hx
  · obtain ⟨t, rfl⟩ | hy := hy
    · cases s <;> cases t <;> exact .inl ⟨_, rfl⟩
    · rw [zero_add_of_sized s hy]
      exact .inr (hy.mono le_rfl hb)
  · obtain ⟨t, rfl⟩ | hy := hy
    · rw [add_zero_of_sized t hx]
      exact .inr (hx.mono le_rfl ha)
    · obtain @⟨s, m, e, hm, -, -, hx⟩ := hx
      obtain @⟨t, n, f, hn, -, -, hy⟩ := hy
      obtain ⟨p, q, g, hadd, -, hp, hq⟩ := exists_add s t e f hm hn
      rw [hadd]
      apply small_normalize hhigh
      have habs : (s.apply p + t.apply q).natAbs ≤ p + q := by
        cases s <;> cases t <;> simp only [Sign.apply] <;> omega
      calc ((s.apply p + t.apply q).natAbs : ℚ) * 2 ^ g ≤ ((p + q : Nat) : ℚ) * 2 ^ g := by
            gcongr
        _ = m * 2 ^ e + n * 2 ^ f := by rw [Nat.cast_add, add_mul, hp, hq]
        _ ≤ 2 ^ a + 2 ^ b := add_le_add hx hy
        _ ≤ 2 ^ high + 2 ^ (high - 54) := hsum

/-- A sum of numbers that are not negative is not less than either. -/
theorem sized_add (hlow : -1074 ≤ low) (hx : Nonneg x) (hy : Nonneg y) (hxs : Small low a x)
    (hys : Small low b y) (h : Sized low a x ∨ Sized low b y) :
    Sized low high (.add .binary64 x y) := by
  obtain ⟨s, rfl⟩ | hxs := hxs
  · have hys : Sized low b y := by
      obtain h | h := h
      · cases h
      · exact h
    rw [zero_add_of_sized s hys]
    exact hys.mono le_rfl hb
  · obtain ⟨t, rfl⟩ | hys := hys
    · rw [add_zero_of_sized t hxs]
      exact hxs.mono le_rfl ha
    · obtain @⟨s, m, e, hm, -, hge, hxs⟩ := hxs
      obtain @⟨t, n, f, hn, -, -, hys⟩ := hys
      cases s with
      | negative => cases hx
      | positive =>
        cases t with
        | negative => cases hy
        | positive =>
          obtain ⟨p, q, g, hadd, hpos, hp, hq⟩ := exists_add .positive .positive e f hm hn
          have htotal : ((Sign.positive.apply p + Sign.positive.apply q).natAbs : ℚ) * 2 ^ g =
              m * 2 ^ e + n * 2 ^ f := by
            rw [show (Sign.positive.apply p + Sign.positive.apply q).natAbs = p + q from rfl,
              Nat.cast_add, add_mul, hp, hq]
          rw [hadd, normalize_pos (by simp only [Sign.apply]; omega)]
          apply sized_of_round (by simp only [Sign.apply]; omega) hlow hhigh
          · rw [htotal]
            exact hge.trans (le_add_of_nonneg_right (by positivity))
          · rw [htotal]
            exact (add_le_add hxs hys).trans hsum

theorem small_add (hlow : -1074 ≤ low) (hx : Nonneg x) (hy : Nonneg y) (hxs : Small low a x)
    (hys : Small low b y) : Small low high (.add .binary64 x y) := by
  obtain ⟨s, rfl⟩ | h := id hxs
  · obtain ⟨t, rfl⟩ | h := id hys
    · cases s <;> cases t <;> exact .inl ⟨_, rfl⟩
    · exact .inr (sized_add ha hb hhigh hsum hlow hx hy hxs hys (.inr h))
  · exact .inr (sized_add ha hb hhigh hsum hlow hx hy hxs hys (.inl h))

end Bounds

theorem Nonneg.add (hx : Nonneg x) (hy : Nonneg y) : Nonneg (.add .binary64 x y) := by
  rcases x with (_ | _) | _ | s | @⟨_ | _, m, e, hm⟩ <;> cases hx <;>
    rcases y with (_ | _) | _ | t | @⟨_ | _, n, f, hn⟩ <;> cases hy <;> try trivial
  · cases s <;> cases t <;> trivial
  · obtain ⟨p, q, g, hadd, hpos, -, -⟩ := exists_add .positive .positive e f hm hn
    rw [hadd, normalize_pos (by simp only [Sign.apply]; omega)]
    exact nonneg_of_round

theorem Small.neg (h : Small low high x) : Small low high x.neg := by
  obtain ⟨sign, rfl⟩ | ⟨hcanonical, hge, hle⟩ := h
  · exact .inl ⟨_, rfl⟩
  · exact .inr (.finite hcanonical hge hle)

theorem unpacked_sub_eq (x y : UnpackedFloat) :
    UnpackedFloat.sub .binary64 x y = .add .binary64 x y.neg := by
  rcases x with (_ | _) | _ | (_ | _) | ⟨s, m, e, hm⟩ <;>
    rcases y with (_ | _) | _ | (_ | _) | ⟨_ | _, n, f, hn⟩ <;> try rfl
  exact congrArg (UnpackedFloat.normalize .binary64 · (min e f) .positive) (sub_neg_eq_add _ _)

end Sum

section Product

variable {low high : Int} {x : UnpackedFloat}

theorem Small.mul_self (hhigh : -1022 ≤ 2 * high) (h : Small (-1074) high x) :
    Small (-1074) (2 * high) (.mul .binary64 x x) := by
  obtain ⟨sign, rfl⟩ | h := h
  · exact .inl ⟨_, rfl⟩
  · obtain @⟨sign, m, e, hm, hcanonical, -, hle⟩ := h
    have hmul : UnpackedFloat.mul .binary64 (.finite sign m e hm) (.finite sign m e hm) =
        roundWithAccuracy .binary64 .positive (m * m) (e + e) .exact := by
      cases sign <;> rfl
    have hfits : 52 ≤ (m * m).log2 ∨ e + e ≤ -1074 := by
      obtain hfull | hleast := hcanonical.full
      · left
        rw [Nat.le_log2 (mul_ne_zero hm.ne' hm.ne')]
        exact hfull.trans (Nat.le_mul_self m)
      · omega
    have hsquare : ((m * m : Nat) : ℚ) * 2 ^ (e + e) ≤ 2 ^ (2 * high) := by
      rw [two_mul, zpow_add₀ two_ne_zero, zpow_add₀ two_ne_zero, Nat.cast_mul, mul_mul_mul_comm]
      exact mul_self_le_mul_self (by positivity) hle
    rw [hmul]
    exact small_round hfits (rounded_mul_le hfits (by omega) hsquare (.inl rfl))

end Product

section Quotient

variable {a b c d low high : Int} {x y : UnpackedFloat} {m n : Nat} {e f : Int}

theorem Nonneg.div (hx : Nonneg x) (hy : Nonneg y) (hxs : Small a b x) (hys : Sized c d y) :
    Nonneg (.div .binary64 x y) := by
  obtain ⟨sign, rfl⟩ | @⟨s, m, e, hm, -, -, -⟩ := hxs
  · cases hys
    trivial
  · obtain @⟨t, n, f, hn, -, -, -⟩ := hys
    cases s <;> cases hx
    cases t <;> cases hy
    exact nonneg_round

theorem Sized.zero_div (sign : Sign) (h : Sized c d y) :
    ∃ zero, UnpackedFloat.div .binary64 (.zero sign) y = .zero zero := by
  cases h
  exact ⟨_, rfl⟩

theorem Small.div_infinity (h : Small a b x) (sign : Sign) :
    ∃ zero, UnpackedFloat.div .binary64 x (.infinity sign) = .zero zero := by
  obtain ⟨s, rfl⟩ | h := h
  · exact ⟨_, rfl⟩
  · cases h
    exact ⟨_, rfl⟩

section Core

/-- A quotient is divided out after so many bits as are needed have been appended. -/
theorem exists_divCore (m n : Nat) (e f : Int) : ∃ k : Nat,
    divCore .binary64 m e n f =
        (m * 2 ^ k / n, e - f - k, accuracyOfFraction (m * 2 ^ k % n) n) ∧
      (n.log2 + 53 ≤ m.log2 + k ∨ e - f - k ≤ -1074) := by
  have htarget : Float.Model.Format.binary64.targetExponent (totalExponent m e - totalExponent n f) =
      max ((m.log2 + 1 + e : Int) - (n.log2 + 1 + f) - 53) (-1074) := rfl
  unfold divCore
  dsimp only
  rw [htarget, Nat.shiftLeft_eq]
  generalize hshift : (e - f - min (e - f)
    (max ((m.log2 + 1 + e : Int) - (n.log2 + 1 + f) - 53) (-1074))).toNat = k
  have hexponent : min (e - f) (max ((m.log2 + 1 + e : Int) - (n.log2 + 1 + f) - 53) (-1074)) =
      e - f - k := by omega
  rw [hexponent]
  exact ⟨k, rfl, by omega⟩

variable {k : Nat}

theorem quotient_mul (m n k : Nat) (e f : Int) :
    ((m * 2 ^ k : Nat) : ℚ) / n * 2 ^ (e - f - k) = m * 2 ^ e / (n * 2 ^ f) := by
  rw [zpow_sub₀ two_ne_zero, zpow_sub₀ two_ne_zero, zpow_natCast]
  push_cast
  field_simp

theorem quotient_le : ((m * 2 ^ k / n : Nat) : ℚ) * 2 ^ (e - f - k) ≤ m * 2 ^ e / (n * 2 ^ f) := by
  rw [← quotient_mul m n k]
  gcongr
  exact Nat.cast_div_le

theorem exact_or_lt (hn : 0 < n) : accuracyOfFraction (m * 2 ^ k % n) n = .exact ∨
    ((m * 2 ^ k / n : Nat) : ℚ) * 2 ^ (e - f - k) < m * 2 ^ e / (n * 2 ^ f) := by
  by_cases hexact : m * 2 ^ k % n = 0
  · exact .inl (if_pos hexact)
  · right
    rw [← quotient_mul m n k]
    have hlt : m * 2 ^ k / n * n < m * 2 ^ k := by
      have := Nat.div_add_mod' (m * 2 ^ k) n
      omega
    gcongr
    rw [lt_div_iff₀ (by exact_mod_cast hn)]
    exact_mod_cast hlt

theorem quotient_ge (hm : 0 < m) (hn : 0 < n) (hbits : n.log2 + 53 ≤ m.log2 + k) :
    2 ^ 52 ≤ m * 2 ^ k / n := by
  rw [Nat.le_div_iff_mul_le hn]
  calc 2 ^ 52 * n ≤ 2 ^ 52 * 2 ^ (n.log2 + 1) := Nat.mul_le_mul_left _ Nat.lt_log2_self.le
    _ = 2 ^ (n.log2 + 53) := by rw [← pow_add]; congr 1; omega
    _ ≤ 2 ^ (m.log2 + k) := Nat.pow_le_pow_right (by decide) hbits
    _ = 2 ^ m.log2 * 2 ^ k := pow_add 2 _ _
    _ ≤ m * 2 ^ k := Nat.mul_le_mul_right _ (Nat.log2_self_le hm.ne')

variable (hm : 0 < m) (hn : 0 < n) (hbits : n.log2 + 53 ≤ m.log2 + k ∨ e - f - k ≤ -1074)
include hm hn hbits

theorem quotient_fits : 52 ≤ (m * 2 ^ k / n).log2 ∨ e - f - k ≤ -1074 := by
  refine hbits.imp_left ?_
  intro hbits
  have hge := quotient_ge hm hn hbits
  rwa [Nat.le_log2]
  omega

theorem le_quotient (hlow : -1074 ≤ low) (hge : (2 : ℚ) ^ low ≤ m * 2 ^ e / (n * 2 ^ f)) :
    (2 : ℚ) ^ low ≤ (m * 2 ^ k / n : Nat) * 2 ^ (e - f - k) := by
  obtain hle | hlt := le_or_gt (e - f - k) low
  · obtain ⟨j, hj⟩ := Int.le.dest hle
    have hn' : (0 : ℚ) < n := by exact_mod_cast hn
    rw [← hj, zpow_le_mul, Nat.le_div_iff_mul_le hn]
    rw [← quotient_mul m n k, ← hj, zpow_add₀ two_ne_zero, mul_comm, mul_le_mul_iff_left₀
      (by positivity), le_div_iff₀ hn', zpow_natCast] at hge
    exact_mod_cast hge
  · have hone : 2 ^ 0 ≤ m * 2 ^ k / n :=
      le_trans (by decide) (quotient_ge hm hn (hbits.resolve_right (by omega)))
    calc (2 : ℚ) ^ low ≤ 2 ^ (e - f - k + (0 : Nat)) := zpow_le_zpow.2 (by push_cast; omega)
      _ ≤ (m * 2 ^ k / n : Nat) * 2 ^ (e - f - k) := zpow_le_mul.2 hone

end Core

theorem quotient_le_zpow (hle : b - c ≤ high) (hx : (m : ℚ) * 2 ^ e ≤ 2 ^ b)
    (hy : (2 : ℚ) ^ c ≤ n * 2 ^ f) : (m * 2 ^ e / (n * 2 ^ f) : ℚ) ≤ 2 ^ high := by
  calc (m * 2 ^ e / (n * 2 ^ f) : ℚ) ≤ 2 ^ b / 2 ^ c := by gcongr
    _ = 2 ^ (b - c) := (zpow_sub₀ two_ne_zero b c).symm
    _ ≤ 2 ^ high := zpow_le_zpow.2 hle

theorem zpow_le_quotient (hle : low ≤ a - d) (hn : 0 < n) (hx : (2 : ℚ) ^ a ≤ m * 2 ^ e)
    (hy : (n : ℚ) * 2 ^ f ≤ 2 ^ d) : (2 : ℚ) ^ low ≤ m * 2 ^ e / (n * 2 ^ f) := by
  have hpos : (0 : ℚ) < n := by exact_mod_cast hn
  calc (2 : ℚ) ^ low ≤ 2 ^ (a - d) := zpow_le_zpow.2 hle
    _ = 2 ^ a / 2 ^ d := zpow_sub₀ two_ne_zero a d
    _ ≤ m * 2 ^ e / (n * 2 ^ f) := by gcongr

/-- The rounded quotient is at most the power of two that the quotient is. -/
theorem rounded_quotient_le {k : Nat} (hhigh : -1074 ≤ high) (hm : 0 < m) (hn : 0 < n)
    (hbits : n.log2 + 53 ≤ m.log2 + k ∨ e - f - k ≤ -1074)
    (hle : (m * 2 ^ e / (n * 2 ^ f) : ℚ) ≤ 2 ^ high) :
    (rounded (m * 2 ^ k / n) (e - f - k) (accuracyOfFraction (m * 2 ^ k % n) n) : ℚ) *
      2 ^ (e - f - k + excess (m * 2 ^ k / n) (e - f - k)) ≤ 2 ^ high :=
  rounded_mul_le (quotient_fits hm hn hbits) hhigh (quotient_le.trans hle)
    ((exact_or_lt hn).imp_right fun hlt => hlt.trans_le hle)

theorem div_eq {s t : Sign} {hm : 0 < m} {hn : 0 < n} {q : Nat} {g : Int} {accuracy : Accuracy}
    (h : divCore .binary64 m e n f = (q, g, accuracy)) :
    UnpackedFloat.div .binary64 (.finite s m e hm) (.finite t n f hn) =
      roundWithAccuracy .binary64 (s / t) q g accuracy := by
  unfold UnpackedFloat.div
  dsimp only
  rw [h]

section Value

variable {s t : Sign} {hm : 0 < m} {hn : 0 < n}

/-- A quotient is rounded within powers of two around it, whatever form its parts have. -/
theorem small_quotient (hhigh : -1074 ≤ high) (hle : (m * 2 ^ e / (n * 2 ^ f) : ℚ) ≤ 2 ^ high) :
    Small (-1074) high (.div .binary64 (.finite s m e hm) (.finite t n f hn)) := by
  obtain ⟨k, hcore, hbits⟩ := exists_divCore m n e f
  rw [div_eq hcore]
  exact small_round (quotient_fits hm hn hbits) (rounded_quotient_le hhigh hm hn hbits hle)

theorem sized_quotient (hlow : -1074 ≤ low) (hhigh : -1074 ≤ high)
    (hge : (2 : ℚ) ^ low ≤ m * 2 ^ e / (n * 2 ^ f))
    (hle : (m * 2 ^ e / (n * 2 ^ f) : ℚ) ≤ 2 ^ high) :
    Sized low high (.div .binary64 (.finite s m e hm) (.finite t n f hn)) := by
  obtain ⟨k, hcore, hbits⟩ := exists_divCore m n e f
  rw [div_eq hcore]
  exact sized_round (quotient_fits hm hn hbits) hlow (le_quotient hm hn hbits hlow hge)
    (rounded_quotient_le hhigh hm hn hbits hle)

end Value

theorem Small.div (hhigh : -1074 ≤ high) (hle : b - c ≤ high) (hx : Small a b x)
    (hy : Sized c d y) : Small (-1074) high (.div .binary64 x y) := by
  obtain ⟨sign, rfl⟩ | @⟨s, m, e, hm, -, -, hx⟩ := hx
  · exact .inl (hy.zero_div sign)
  · obtain @⟨t, n, f, hn, -, hy, -⟩ := hy
    exact small_quotient hhigh (quotient_le_zpow hle hx hy)

theorem Sized.div (hlow : -1074 ≤ low) (hhigh : -1074 ≤ high) (hge : low ≤ a - d)
    (hle : b - c ≤ high) (hx : Sized a b x) (hy : Sized c d y) :
    Sized low high (.div .binary64 x y) := by
  obtain @⟨s, m, e, hm, -, hxlow, hx⟩ := hx
  obtain @⟨t, n, f, hn, -, hy, hyhigh⟩ := hy
  exact sized_quotient hlow hhigh (zpow_le_quotient hge hn hxlow hyhigh)
    (quotient_le_zpow hle hx hy)

end Quotient

end Centroids

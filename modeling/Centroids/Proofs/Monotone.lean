import Centroids.Proofs.Weighing

/-! Sums of numbers that are not negative, in double precision.  Rounding goes to the nearest double
and a tie to the even one, so it keeps the order; then so does addition, and a sum is not less than
its parts.  Where the exponents of two results differ there is a power of two between them. -/
namespace Centroids

open Float.Model (UnpackedFloat)
open Float.Model.UnpackedFloat (ExtendedMantissa Accuracy Sign roundWithAccuracy)

section Nearest

/-- A quotient as the nearest whole number; of two that are equally near, the even one. -/
def nearest (m d : Nat) : Nat :=
  m / d + if d < 2 * (m % d) ∨ d = 2 * (m % d) ∧ m / d % 2 = 1 then 1 else 0

/-- What is dropped is compared with half of the last place by two bits. -/
theorem residue_shiftRight (m n : Nat) :
    ((ExtendedMantissa.mk m false false >>> n).roundBit = true ↔ 2 ^ n ≤ 2 * (m % 2 ^ n)) ∧
      ((ExtendedMantissa.mk m false false >>> n).stickyBit = true ↔
        m % 2 ^ n ≠ 0 ∧ 2 * (m % 2 ^ n) ≠ 2 ^ n) := by
  induction n with
  | zero => simp [Nat.mod_one, HShiftRight.hShiftRight, Nat.repeat]
  | succ n ih =>
    have hround : (ExtendedMantissa.mk m false false >>> (n + 1)).roundBit =
        ((ExtendedMantissa.mk m false false >>> n).mantissa % 2 != 0) := rfl
    have hsticky : (ExtendedMantissa.mk m false false >>> (n + 1)).stickyBit =
        ((ExtendedMantissa.mk m false false >>> n).roundBit ||
          (ExtendedMantissa.mk m false false >>> n).stickyBit) := rfl
    have hlow : m % 2 ^ (n + 1) = m % 2 ^ n + 2 ^ n * (m / 2 ^ n % 2) := by
      rw [pow_succ, Nat.mod_mul]
    have hlt := Nat.mod_lt m (Nat.two_pow_pos n)
    rw [hround, hsticky, Bool.or_eq_true, ih.1, ih.2, mantissa_shiftRight, bne_iff_ne, hlow, pow_succ]
    obtain hbit | hbit := Nat.mod_two_eq_zero_or_one (m / 2 ^ n) <;> rw [hbit] <;> omega

theorem roundedMantissa_eq_add (em : ExtendedMantissa) : em.roundedMantissa = em.mantissa +
    if em.roundBit = true ∧ (em.stickyBit = true ∨ em.mantissa % 2 = 1) then 1 else 0 := by
  obtain ⟨m, _ | _, _ | _⟩ := em <;>
    simp [ExtendedMantissa.roundedMantissa, ExtendedMantissa.accuracy, Accuracy.roundToNearestEven]
  split <;> omega

theorem roundedMantissa_shiftRight (m n : Nat) :
    (ExtendedMantissa.mk m false false >>> n).roundedMantissa = nearest m (2 ^ n) := by
  obtain ⟨hround, hsticky⟩ := residue_shiftRight m n
  have hpos := Nat.two_pow_pos n
  rw [roundedMantissa_eq_add]
  simp only [hround, hsticky, mantissa_shiftRight, nearest]
  congr 1
  refine if_congr ?_ rfl rfl
  omega

theorem rounded_exact (m : Nat) (e : Int) : rounded m e .exact = nearest m (2 ^ excess m e) :=
  roundedMantissa_shiftRight m (excess m e)

theorem nearest_le (m d : Nat) : nearest m d ≤ m / d + 1 := by
  unfold nearest
  split <;> omega

theorem le_nearest (m d : Nat) : m / d ≤ nearest m d := Nat.le_add_right _ _

/-- Quotients are compared crosswise. -/
theorem nearest_mono {m n c d : Nat} (hc : 0 < c) (hd : 0 < d) (h : m * d ≤ n * c) :
    nearest m c ≤ nearest n d := by
  have hquotient : m / c ≤ n / d := by
    rw [Nat.le_div_iff_mul_le hd]
    have := Nat.div_mul_le_self m c
    have hcross : m / c * d * c ≤ n * c := by
      calc m / c * d * c = m / c * c * d := by ring
        _ ≤ m * d := Nat.mul_le_mul_right d this
        _ ≤ n * c := h
    exact Nat.le_of_mul_le_mul_right hcross hc
  obtain hlt | heq := hquotient.lt_or_eq
  · exact (nearest_le m c).trans (hlt.trans_le (le_nearest n d))
  · -- With the same whole part, the rests decide.
    have hrest : m % c * d ≤ n % d * c := by
      have hm := congrArg (· * d) (Nat.div_add_mod m c)
      have hn := congrArg (· * c) (Nat.div_add_mod n d)
      simp only [Nat.add_mul, heq] at hm hn
      have hwhole : c * (n / d) * d = d * (n / d) * c := by ring
      omega
    have hdown : c ≤ 2 * (m % c) → d ≤ 2 * (n % d) := by
      intro hhalf
      apply Nat.le_of_mul_le_mul_right _ hc
      calc d * c = c * d := Nat.mul_comm d c
        _ ≤ 2 * (m % c) * d := Nat.mul_le_mul_right d hhalf
        _ = 2 * (m % c * d) := Nat.mul_assoc 2 _ d
        _ ≤ 2 * (n % d * c) := Nat.mul_le_mul_left 2 hrest
        _ = 2 * (n % d) * c := (Nat.mul_assoc 2 _ c).symm
    have hup : c < 2 * (m % c) → d < 2 * (n % d) := by
      intro hhalf
      apply Nat.lt_of_mul_lt_mul_right (a := c)
      calc d * c = c * d := Nat.mul_comm d c
        _ < 2 * (m % c) * d := Nat.mul_lt_mul_of_pos_right hhalf hd
        _ = 2 * (m % c * d) := Nat.mul_assoc 2 _ d
        _ ≤ 2 * (n % d * c) := Nat.mul_le_mul_left 2 hrest
        _ = 2 * (n % d) * c := (Nat.mul_assoc 2 _ c).symm
    unfold nearest
    rw [heq]
    split <;> split <;> omega

end Nearest

section Order

variable {m n : Nat} {e f : Int}

/-- A number whose last place is not the least has all bits above it. -/
theorem zpow_place_le (hm : 52 ≤ m.log2 ∨ e ≤ -1074) (hplace : -1074 < e + excess m e) :
    (2 : ℚ) ^ (e + excess m e + 52) ≤ m * 2 ^ e := by
  have hexcess := excess_eq hm
  have hpos : 0 < m := by
    by_contra hzero
    obtain rfl : m = 0 := by omega
    rw [Nat.log2_zero] at hm hexcess
    omega
  refine le_trans (zpow_le_zpow.2 ?_) (zpow_log2_le hpos)
  omega

theorem lt_zpow_place (hm : 52 ≤ m.log2 ∨ e ≤ -1074) :
    (m : ℚ) * 2 ^ e < 2 ^ (e + excess m e + 53) := by
  have hexcess := excess_eq hm
  refine (lt_zpow_log2 m e).trans_le (zpow_le_zpow.2 ?_)
  omega

/-- Rounding keeps the order of numbers that have all bits that they need. -/
theorem rounded_mono (hm : 52 ≤ m.log2 ∨ e ≤ -1074) (hn : 52 ≤ n.log2 ∨ f ≤ -1074)
    (hle : (m : ℚ) * 2 ^ e ≤ n * 2 ^ f) :
    (rounded m e .exact : ℚ) * 2 ^ (e + excess m e) ≤
      rounded n f .exact * 2 ^ (f + excess n f) := by
  have hleast := excess_ge m e
  have hleast' := excess_ge n f
  obtain hlt | heq | hgt := lt_trichotomy (e + excess m e : Int) (f + excess n f)
  · have hgreat := zpow_place_le hn (by omega)
    have hsmall : (m : ℚ) * 2 ^ e ≤ 2 ^ (f + excess n f + 52) :=
      (lt_zpow_place hm).le.trans (zpow_le_zpow.2 (by omega))
    calc (rounded m e .exact : ℚ) * 2 ^ (e + excess m e) ≤ 2 ^ (f + excess n f + 52) :=
          rounded_mul_le hm (by omega) hsmall (.inl rfl)
      _ ≤ rounded n f .exact * 2 ^ (f + excess n f) := le_rounded_mul hn (by omega) hgreat
  · have hcross : m * 2 ^ excess n f ≤ n * 2 ^ excess m e := by
      have hscaled := mul_le_mul_of_nonneg_right hle
        (zpow_nonneg (zero_le_two (α := ℚ)) (excess m e - f))
      rw [mul_assoc, mul_assoc, ← zpow_add₀ two_ne_zero, ← zpow_add₀ two_ne_zero,
        show e + (excess m e - f) = (excess n f : Int) by omega, add_sub_cancel, zpow_natCast,
        zpow_natCast] at hscaled
      exact_mod_cast hscaled
    rw [heq, rounded_exact, rounded_exact]
    gcongr
    exact nearest_mono (Nat.two_pow_pos _) (Nat.two_pow_pos _) hcross
  · have hgreat := zpow_place_le hm (by omega)
    have hsmall : (n : ℚ) * 2 ^ f < 2 ^ (e + excess m e + 52) :=
      (lt_zpow_place hn).trans_le (zpow_le_zpow.2 (by omega))
    exact absurd (hgreat.trans hle) hsmall.not_ge

end Order

/-- A double that is not negative, with its value. -/
inductive HasSize : ℚ → UnpackedFloat → Prop
  | zero (sign : Sign) : HasSize 0 (.zero sign)
  | finite {m : Nat} {e : Int} {h : 0 < m} : Canonical m e → e ≤ 971 →
      HasSize (m * 2 ^ e) (.finite .positive m e h)

/-- What a value is rounded to, the sign of a zero apart. -/
def RoundsTo (v : ℚ) (u : UnpackedFloat) : Prop :=
  u.isNaN = false ∧ ∃ (m : Nat) (e : Int), (52 ≤ m.log2 ∨ e ≤ -1074) ∧ (m : ℚ) * 2 ^ e = v ∧
    standing u = standing (settle (carried .positive (rounded m e .exact) (e + excess m e)))

section Standing

variable {m n : Nat} {e f : Int} {u w : UnpackedFloat} {a b : ℚ}

theorem standing_le_infinity (u : UnpackedFloat) : standing u ≤ standing (.infinity .positive) := by
  rcases u with (_ | _) | _ | _ | ⟨_ | _, m, e, hm⟩
  · exact le_of_lt (Prod.Lex.left _ _ (by decide))
  · exact le_rfl
  · exact le_of_lt (Prod.Lex.left _ _ (by decide))
  · exact le_of_lt (Prod.Lex.left _ _ (by decide))
  · exact le_of_lt (Prod.Lex.left _ _ (by decide))
  · exact le_of_lt (Prod.Lex.left _ _ (by decide))

/-- Doubles are compared by their exponents first. -/
theorem Canonical.mul_lt (hm : Canonical m e) (hn : Canonical n f) (h : e < f) :
    (m : ℚ) * 2 ^ e < n * 2 ^ f := by
  have hfull : 2 ^ 52 ≤ n := hn.full.resolve_right (by have := hm.ge; omega)
  calc (m : ℚ) * 2 ^ e < 2 ^ (e + (53 : Nat)) := by
        rw [← not_le, zpow_le_mul, not_le]
        exact hm.lt
    _ ≤ 2 ^ (f + (52 : Nat)) := zpow_le_zpow.2 (by omega)
    _ ≤ n * 2 ^ f := zpow_le_mul.2 hfull

theorem Canonical.mul_le_iff (hm : Canonical m e) (hn : Canonical n f) :
    (m : ℚ) * 2 ^ e ≤ n * 2 ^ f ↔ e < f ∨ e = f ∧ m ≤ n := by
  obtain hlt | rfl | hgt := lt_trichotomy e f
  · simp [hlt, (hm.mul_lt hn hlt).le]
  · rw [mul_le_mul_iff_left₀ (by positivity), Nat.cast_le]
    simp
  · simp [hgt.not_gt, hgt.ne', (hn.mul_lt hm hgt)]

theorem standing_finite_le {hm : 0 < m} {hn : 0 < n} :
    standing (.finite .positive m e hm) ≤ standing (.finite .positive n f hn) ↔
      e < f ∨ e = f ∧ m ≤ n := by
  simp [standing, Prod.Lex.le_iff, Sign.apply]

theorem HasSize.standing_le_iff (hu : HasSize a u) (hw : HasSize b w) :
    standing u ≤ standing w ↔ a ≤ b := by
  cases hu with
  | zero s =>
    cases hw with
    | zero t => simp [standing]
    | @finite n f hpos hn hf =>
      have hvalue : (0 : ℚ) ≤ n * 2 ^ f := by positivity
      simp [standing, Prod.Lex.le_iff, Sign.apply, hvalue]
  | @finite m e hpos hm he =>
    cases hw with
    | zero t =>
      have hvalue : ¬ (m : ℚ) * 2 ^ e ≤ 0 := not_le.2 (by positivity)
      simp [standing, Prod.Lex.le_iff, Sign.apply, hvalue]
    | @finite n f hpos' hn hf => rw [standing_finite_le, hm.mul_le_iff hn]

/-- A rounded mantissa is zero, or it is that of a double once it is not too long. -/
theorem carried_cases {r : Nat} (hle : r ≤ 2 ^ 53) (he : -1074 ≤ e)
    (hfull : 2 ^ 52 ≤ r ∨ e = -1074) :
    r = 0 ∧ carried .positive r e = .zero .positive ∨
      ∃ (n : Nat) (f : Int) (hn : 0 < n), Canonical n f ∧ (n : ℚ) * 2 ^ f = r * 2 ^ e ∧
        carried .positive r e = .finite .positive n f hn := by
  unfold carried
  by_cases hzero : r = 0
  · exact .inl ⟨hzero, dif_pos hzero⟩
  · right
    rw [dif_neg hzero]
    by_cases hcarry : r = 2 ^ 53
    · rw [if_pos hcarry]
      refine ⟨2 ^ 52, e + 1, by decide, ⟨by decide, by decide, by omega, .inl le_rfl⟩, ?_, rfl⟩
      rw [hcarry, zpow_add₀ two_ne_zero]
      norm_num
      ring
    · rw [if_neg hcarry]
      exact ⟨r, e, by omega, ⟨by omega, by omega, he, hfull⟩, rfl, rfl⟩

/-- Storing keeps the order, as everything beyond the range becomes the same infinity. -/
theorem standing_settle_le {hm : 0 < m} {hn : 0 < n} (hcm : Canonical m e) (hcn : Canonical n f)
    (hle : (m : ℚ) * 2 ^ e ≤ n * 2 ^ f) :
    standing (settle (.finite .positive m e hm)) ≤ standing (settle (.finite .positive n f hn)) := by
  rw [settle_finite hcm, settle_finite hcn]
  have hexponent := (hcm.mul_le_iff hcn).1 hle
  by_cases hf : f ≤ 971
  · rw [if_pos hf, if_pos (by omega)]
    exact standing_finite_le.2 hexponent
  · rw [if_neg hf]
    exact standing_le_infinity _

theorem standing_zero_le (hm : 0 < m) (hcm : Canonical m e) :
    standing (.zero .positive) ≤ standing (settle (.finite .positive m e hm)) := by
  rw [settle_finite hcm]
  split
  · exact Nonneg.standing_le trivial
  · exact standing_le_infinity _

theorem standing_carried_le {r q : Nat} (hr : r ≤ 2 ^ 53) (he : -1074 ≤ e)
    (hrfull : 2 ^ 52 ≤ r ∨ e = -1074) (hq : q ≤ 2 ^ 53) (hf : -1074 ≤ f)
    (hqfull : 2 ^ 52 ≤ q ∨ f = -1074) (hle : (r : ℚ) * 2 ^ e ≤ q * 2 ^ f) :
    standing (settle (carried .positive r e)) ≤ standing (settle (carried .positive q f)) := by
  obtain ⟨hzero, hcarried⟩ | ⟨m, e', hm, hcm, hvalue, hcarried⟩ := carried_cases hr he hrfull
  · rw [hcarried, settle_zero]
    obtain ⟨-, hother⟩ | ⟨n, f', hn, hcn, -, hother⟩ := carried_cases hq hf hqfull
    · rw [hother, settle_zero]
    · rw [hother]
      exact standing_zero_le hn hcn
  · obtain ⟨hzero, -⟩ | ⟨n, f', hn, hcn, hvalue', hother⟩ := carried_cases hq hf hqfull
    · rw [hzero, Nat.cast_zero, zero_mul, ← hvalue] at hle
      exact absurd hle (not_le.2 (by positivity))
    · rw [hcarried, hother]
      exact standing_settle_le hcm hcn (by rw [hvalue, hvalue']; exact hle)

theorem isNaN_settle_carried {r : Nat} (hr : r ≤ 2 ^ 53) (he : -1074 ≤ e)
    (hfull : 2 ^ 52 ≤ r ∨ e = -1074) : (settle (carried .positive r e)).isNaN = false := by
  obtain ⟨-, hcarried⟩ | ⟨m, e', hm, hcm, -, hcarried⟩ := carried_cases hr he hfull
  · rw [hcarried, settle_zero]
    rfl
  · rw [hcarried, settle_finite hcm]
    split <;> rfl

theorem RoundsTo.mono (hu : RoundsTo a u) (hw : RoundsTo b w) (h : a ≤ b) :
    standing u ≤ standing w := by
  obtain ⟨-, m, e, hm, rfl, hu⟩ := hu
  obtain ⟨-, n, f, hn, rfl, hw⟩ := hw
  rw [hu, hw]
  exact standing_carried_le ((rounded_le m e _).trans (div_excess_lt m e)) (excess_ge m e)
    (full_of_fits hm) ((rounded_le n f _).trans (div_excess_lt n f)) (excess_ge n f)
    (full_of_fits hn) (rounded_mono hm hn h)

theorem nearest_one (m : Nat) : nearest m 1 = m := by
  simp [nearest, Nat.mod_one]

/-- A double is rounded to itself. -/
theorem HasSize.roundsTo (h : HasSize a u) : RoundsTo a u := by
  cases h with
  | zero sign =>
    refine ⟨rfl, 0, -1074, .inr le_rfl, by simp, ?_⟩
    rw [rounded_exact]
    simp [nearest, carried, settle_zero, standing]
  | @finite m e hpos hm he =>
    have hlog : m.log2 ≤ 52 := log2_le_of_lt hm.lt
    have hge := hm.ge
    have hfits : 52 ≤ m.log2 ∨ e ≤ -1074 := by
      refine hm.full.imp (fun hfull => ?_) le_of_eq
      exact (Nat.le_log2 hpos.ne').2 hfull
    have hnone : excess m e = 0 := by
      unfold excess
      omega
    refine ⟨rfl, m, e, hfits, rfl, ?_⟩
    rw [rounded_exact, hnone, pow_zero, nearest_one, Nat.cast_zero, add_zero, carried,
      dif_neg hpos.ne', if_neg hm.lt.ne, settle_finite hm, if_pos he]

theorem HasSize.settle_eq (h : HasSize a u) : settle u = u := by
  cases h with
  | zero sign => exact settle_zero sign
  | finite hm he => rw [settle_finite hm, if_pos he]

/-- The sum of two doubles is their exact sum, rounded. -/
theorem HasSize.add (hu : HasSize a u) (hw : HasSize b w) :
    RoundsTo (a + b) (settle (.add .binary64 u w)) := by
  cases hu with
  | zero s =>
    rw [zero_add]
    cases hw with
    | zero t =>
      have hzero : ∃ sign, UnpackedFloat.add .binary64 (.zero s) (.zero t) = .zero sign := by
        cases s <;> cases t <;> exact ⟨_, rfl⟩
      obtain ⟨sign, hzero⟩ := hzero
      rw [hzero, settle_zero]
      exact (HasSize.zero sign).roundsTo
    | @finite n f hpos hn hf =>
      have hsame := HasSize.finite (h := hpos) hn hf
      change RoundsTo _ (settle (.finite .positive n f hpos))
      rw [hsame.settle_eq]
      exact hsame.roundsTo
  | @finite m e hpos hm he =>
    cases hw with
    | zero t =>
      have hsame := HasSize.finite (h := hpos) hm he
      change RoundsTo _ (settle (.finite .positive m e hpos))
      rw [add_zero, hsame.settle_eq]
      exact hsame.roundsTo
    | @finite n f hpos' hn hf =>
      obtain ⟨p, q, g, hadd, hp, hvalue, hvalue'⟩ := exists_add .positive .positive e f hpos hpos'
      have hsum : 0 < Sign.positive.apply p + Sign.positive.apply q := by
        simp only [Sign.apply]
        omega
      have habs : (Sign.positive.apply p + Sign.positive.apply q).natAbs = p + q := rfl
      rw [hadd, normalize_pos hsum, habs]
      obtain ⟨k, x, hround, hkx, hfits⟩ := exists_round (by omega : 0 < p + q) .positive g
      rw [hround, roundWithAccuracy_eq]
      refine ⟨?_, k, x, hfits, ?_, rfl⟩
      · exact isNaN_settle_carried ((rounded_le k x _).trans (div_excess_lt k x)) (excess_ge k x)
          (full_of_fits hfits)
      rw [hkx, Nat.cast_add, add_mul, hvalue, hvalue']

end Standing

section Amounts

variable {u w u' w' : UnpackedFloat} {a : ℚ}

/-- A number that is not negative, infinity among them. -/
def Proper (u : UnpackedFloat) : Prop := u = .infinity .positive ∨ ∃ a, 0 ≤ a ∧ HasSize a u

theorem HasSize.standing_lt_infinity (h : HasSize a u) :
    standing u < standing (.infinity .positive) := by
  cases h with
  | zero sign => exact Prod.Lex.left _ _ (by decide)
  | finite hm he => exact Prod.Lex.left _ _ (by decide)

theorem settle_infinity : settle (.infinity .positive) = .infinity .positive := rfl

theorem Proper.infinity_add (h : Proper w) :
    settle (.add .binary64 (.infinity .positive) w) = .infinity .positive := by
  have hsum : UnpackedFloat.add .binary64 (.infinity .positive) w = .infinity .positive := by
    obtain rfl | ⟨a, -, h⟩ := h
    · rfl
    · cases h <;> rfl
  rw [hsum, settle_infinity]

theorem Proper.add_infinity (h : Proper u) :
    settle (.add .binary64 u (.infinity .positive)) = .infinity .positive := by
  have hsum : UnpackedFloat.add .binary64 u (.infinity .positive) = .infinity .positive := by
    obtain rfl | ⟨a, -, h⟩ := h
    · rfl
    · cases h <;> rfl
  rw [hsum, settle_infinity]

theorem Proper.isNaN_add (hu : Proper u) (hw : Proper w) :
    (settle (.add .binary64 u w)).isNaN = false := by
  obtain rfl | ⟨a, -, ha⟩ := id hu
  · rw [hw.infinity_add]
    rfl
  · obtain rfl | ⟨b, -, hb⟩ := id hw
    · rw [hu.add_infinity]
      rfl
    · exact (ha.add hb).1

theorem Proper.exists_size (hw : Proper w) (hu' : HasSize a u') (h : standing w ≤ standing u') :
    ∃ b, 0 ≤ b ∧ HasSize b w := by
  obtain rfl | hsize := hw
  · exact absurd h hu'.standing_lt_infinity.not_ge
  · exact hsize

/-- Sums are in the order of their parts. -/
theorem Proper.standing_add_le (hu : Proper u) (hw : Proper w) (hu' : Proper u') (hw' : Proper w')
    (h : standing u ≤ standing u') (h' : standing w ≤ standing w') :
    standing (settle (.add .binary64 u w)) ≤ standing (settle (.add .binary64 u' w')) := by
  obtain rfl | ⟨a', -, ha'⟩ := id hu'
  · rw [hw'.infinity_add]
    exact standing_le_infinity _
  · obtain rfl | ⟨b', -, hb'⟩ := id hw'
    · rw [hu'.add_infinity]
      exact standing_le_infinity _
    · obtain ⟨a, -, ha⟩ := hu.exists_size ha' h
      obtain ⟨b, -, hb⟩ := hw.exists_size hb' h'
      exact (ha.add hb).mono (ha'.add hb')
        (add_le_add ((ha.standing_le_iff ha').1 h) ((hb.standing_le_iff hb').1 h'))

/-- A sum is not less than a part of it. -/
theorem Proper.standing_le_add (hu : Proper u) (hw : Proper w) :
    standing u ≤ standing (settle (.add .binary64 u w)) ∧
      standing w ≤ standing (settle (.add .binary64 u w)) := by
  obtain rfl | ⟨a, hapos, ha⟩ := id hu
  · rw [hw.infinity_add]
    exact ⟨le_rfl, standing_le_infinity w⟩
  · obtain rfl | ⟨b, hbpos, hb⟩ := id hw
    · rw [hu.add_infinity]
      exact ⟨standing_le_infinity u, le_rfl⟩
    · exact ⟨ha.roundsTo.mono (ha.add hb) (le_add_of_nonneg_right hbpos),
        hb.roundsTo.mono (ha.add hb) (le_add_of_nonneg_left hapos)⟩

end Amounts

section Doubles

variable {x y x' y' : Float} {xs ys : List Float}

/-- What the bits of a double can stand for. -/
inductive IsDouble : UnpackedFloat → Prop
  | notANumber : IsDouble .notANumber
  | infinity (sign : Sign) : IsDouble (.infinity sign)
  | zero (sign : Sign) : IsDouble (.zero sign)
  | finite {sign : Sign} {m : Nat} {e : Int} {h : 0 < m} : Canonical m e → e ≤ 971 →
      IsDouble (.finite sign m e h)

/-- The leading bit of a mantissa that does not hold it. -/
theorem toNat_leading (mantissa : BitVec 52) :
    (1#1 ++ mantissa).toNat = 2 ^ 52 + mantissa.toNat := by
  rw [BitVec.toNat_append]
  exact (Nat.two_pow_add_eq_or_of_lt mantissa.isLt 1).symm

theorem canonical_normal {exponent : BitVec 11} (hmax : exponent ≠ -1#11) (hzero : exponent ≠ 0#11)
    (mantissa : BitVec 52) :
    Canonical (1#1 ++ mantissa).toNat ((exponent.toNat : Int) - 1075) ∧
      (exponent.toNat : Int) - 1075 ≤ 971 := by
  have hlt := exponent.isLt
  have hpos : exponent.toNat ≠ 0 := fun h => hzero (BitVec.eq_of_toNat_eq h)
  have htop : exponent.toNat ≠ 2047 := fun h => hmax (BitVec.eq_of_toNat_eq h)
  have hmantissa := mantissa.isLt
  rw [toNat_leading]
  exact ⟨⟨by omega, by omega, by omega, .inl (by omega)⟩, by omega⟩

theorem canonical_subnormal {mantissa : BitVec 52} (h : mantissa ≠ 0#52) :
    Canonical mantissa.toNat (-1074) := by
  have hpos : mantissa.toNat ≠ 0 := fun hzero => h (BitVec.eq_of_toNat_eq hzero)
  have hmantissa := mantissa.isLt
  exact ⟨by omega, by omega, le_rfl, .inr rfl⟩

theorem isDouble_unpack (bits : BitVec 64) : IsDouble (.unpack .binary64 bits) := by
  unfold UnpackedFloat.unpack
  dsimp only
  split
  · split
    · exact .infinity _
    · exact .notANumber
  · rename_i hmax
    split
    · rename_i hzero
      split
      · exact .zero _
      · rename_i hmantissa
        have hleast : ((@UnpackedFloat.unpackExponent .binary64 bits).toNat : Int) -
            (Float.Model.Format.binary64.exponentBias + (52 : Nat)) + 1 = -1074 := by
          rw [hzero, bias_eq]
          rfl
        apply IsDouble.finite
        · rw [hleast]
          exact canonical_subnormal hmantissa
        · rw [hleast]
          decide
    · rename_i hzero
      have hnormal := canonical_normal hmax hzero (@UnpackedFloat.unpackMantissa .binary64 bits)
      exact .finite hnormal.1 hnormal.2

theorem unpack_ne_notANumber (h : Scalar.isNaN x = false) :
    Double.unpack x ≠ .notANumber := by
  intro hnan
  have hself : (x == x) = true := by simpa [Scalar.isNaN] using h
  have hclean : (Double.unpack x).isNaN = false := ((float_beq_iff x x).1 hself).1
  rw [hnan] at hclean
  cases hclean

theorem proper_unpack (hx : Scalar.NotNegative x) (hnan : Scalar.isNaN x = false) :
    Proper (Double.unpack x) := by
  have hleans : Leans .positive (Double.unpack x) := Scalar.notNegative_iff.1 hx
  have hne := unpack_ne_notANumber hnan
  have hdouble : IsDouble (Double.unpack x) := isDouble_unpack _
  generalize Double.unpack x = u at hleans hne hdouble ⊢
  cases hdouble with
  | notANumber => exact absurd rfl hne
  | infinity sign =>
    cases hleans
    exact .inl rfl
  | zero sign => exact .inr ⟨0, le_rfl, .zero sign⟩
  | finite hm he =>
    cases hleans
    exact .inr ⟨_, by positivity, .finite hm he⟩

theorem isNaN_eq_false_iff : Scalar.isNaN x = false ↔ (Double.unpack x).isNaN = false := by
  have hself : (x == x) = true ↔ (Double.unpack x).isNaN = false := by
    rw [float_beq_iff]
    exact ⟨fun h => h.1, fun h => ⟨h, h, rfl⟩⟩
  rw [← hself]
  simp [Scalar.isNaN]

end Doubles

namespace Scalar

section Amounts

variable {α : Type} [Scalar α]

/-- A number that is not negative; infinity may be one. -/
structure IsAmount (x : α) : Prop where
  notNegative : NotNegative x
  isNumber : isNaN x = false

end Amounts

variable {x y x' y' : Float} {xs ys : List Float}

theorem IsAmount.proper (h : IsAmount x) : Proper (Double.unpack x) :=
  proper_unpack h.notNegative h.isNumber

theorem isAmount_zero : IsAmount (0 : Float) := ⟨notNegative_zero, by decide⟩

theorem IsAmount.add (hx : IsAmount x) (hy : IsAmount y) : IsAmount (x + y) :=
  ⟨hx.notNegative.add hy.notNegative, isNaN_eq_false_iff.2 (hx.proper.isNaN_add hy.proper)⟩

theorem IsAmount.le_iff (hx : IsAmount x) (hy : IsAmount y) :
    le x y = true ↔ standing (Double.unpack x) ≤ standing (Double.unpack y) := by
  rw [Scalar.le_iff]
  exact ⟨fun h => h.2.2, fun h => ⟨hx.isNumber, hy.isNumber, h⟩⟩

theorem IsAmount.add_le_add (hx : IsAmount x) (hy : IsAmount y) (hx' : IsAmount x')
    (hy' : IsAmount y') (h : le x x' = true) (h' : le y y' = true) :
    le (x + y) (x' + y') = true := by
  rw [(hx.add hy).le_iff (hx'.add hy'), unpack_add, unpack_add]
  exact hx.proper.standing_add_le hy.proper hx'.proper hy'.proper ((hx.le_iff hx').1 h)
    ((hy.le_iff hy').1 h')

theorem IsAmount.le_add_right (hx : IsAmount x) (hy : IsAmount y) : le x (x + y) = true := by
  rw [hx.le_iff (hx.add hy), unpack_add]
  exact (hx.proper.standing_le_add hy.proper).1

theorem IsAmount.le_add_left (hx : IsAmount x) (hy : IsAmount y) : le y (x + y) = true := by
  rw [hy.le_iff (hx.add hy), unpack_add]
  exact (hx.proper.standing_le_add hy.proper).2

theorem isAmount_total (h : ∀ x ∈ xs, IsAmount x) : IsAmount (total xs) := by
  induction xs using List.reverseRecOn with
  | nil => exact isAmount_zero
  | append_singleton xs x ih =>
    rw [List.forall_mem_append, List.forall_mem_singleton] at h
    rw [total_concat]
    exact (ih h.1).add h.2

/-- No entry of a list is greater than its sum. -/
theorem le_total (h : ∀ x ∈ xs, IsAmount x) : ∀ x ∈ xs, le x (total xs) = true := by
  induction xs using List.reverseRecOn with
  | nil => simp
  | append_singleton xs y ih =>
    rw [List.forall_mem_append, List.forall_mem_singleton] at h
    have hsum := isAmount_total h.1
    rw [total_concat, List.forall_mem_append, List.forall_mem_singleton]
    exact ⟨fun x hx => le_trans (ih h.1 x hx) (hsum.le_add_right h.2), hsum.le_add_left h.2⟩

/-- Of lists that are compared entry by entry, the sums compare likewise. -/
theorem total_le_total (hlength : xs.length = ys.length) (hxs : ∀ x ∈ xs, IsAmount x)
    (hys : ∀ y ∈ ys, IsAmount y) (h : ∀ p ∈ xs.zip ys, le p.1 p.2 = true) :
    le (total xs) (total ys) = true := by
  induction xs using List.reverseRecOn generalizing ys with
  | nil =>
    rw [List.length_nil, eq_comm, List.length_eq_zero_iff] at hlength
    rw [hlength]
    exact le_refl isAmount_zero.isNumber
  | append_singleton xs x ih =>
    obtain rfl | ⟨ys, y, rfl⟩ := List.eq_nil_or_concat' ys
    · simp at hlength
    · have hsame : xs.length = ys.length := by simpa using hlength
      rw [List.zip_append hsame] at h
      rw [List.forall_mem_append, List.forall_mem_singleton] at hxs hys
      rw [total_concat, total_concat]
      have hrest := ih hsame hxs.1 hys.1 fun p hp => h p (List.mem_append_left _ hp)
      have hlast : le x y = true := h (x, y) (List.mem_append_right _ (by simp))
      exact (isAmount_total hxs.1).add_le_add hxs.2 (isAmount_total hys.1) hys.2 hrest hlast

end Scalar

end Centroids

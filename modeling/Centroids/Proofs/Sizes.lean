import Centroids.Proofs.Clocks
import Centroids.Proofs.Monotone

/-! Doubles by their size.  Numbers that are not negative and not infinite compare as their sizes do; a
quotient lies within the powers of two around the exact one, and a sum, however long, does not leave
the greatest of its parts far behind. -/
namespace Centroids

open Float.Model (UnpackedFloat)
open Float.Model.UnpackedFloat (Sign)

section Sizes

variable {a b : ℚ} {u w : UnpackedFloat} {low high : Int}

theorem HasSize.nonneg (h : HasSize a u) : 0 ≤ a := by
  cases h with
  | zero sign => exact le_rfl
  | finite hm he => positivity

theorem HasSize.eq_zero (h : HasSize a u) (ha : a = 0) : ∃ sign, u = .zero sign := by
  cases h with
  | zero sign => exact ⟨sign, rfl⟩
  | finite hm he => exact absurd ha (by positivity)

theorem HasSize.small (h : HasSize a u) (hle : a ≤ 2 ^ high) : Small (-1074) high u := by
  cases h with
  | zero sign => exact .inl ⟨sign, rfl⟩
  | @finite m e hpos hm he =>
    refine .inr (.finite hm ?_ hle)
    calc (2 : ℚ) ^ (-1074 : Int) ≤ 2 ^ (e + (0 : Nat)) := zpow_le_zpow.2 (by simpa using hm.ge)
      _ ≤ m * 2 ^ e := zpow_le_mul.2 hpos

theorem HasSize.isFinite (h : HasSize a u) : u.isFinite = true ∧ u.isNaN = false := by
  cases h <;> exact ⟨rfl, rfl⟩

theorem HasSize.le_of_small (h : HasSize a u) (hu : Small low high u) : a ≤ 2 ^ high := by
  obtain ⟨sign, rfl⟩ | ⟨-, -, hle⟩ := hu
  · cases h
    positivity
  · cases h
    exact hle

theorem HasSize.le_of_sized (h : HasSize a u) (hu : Sized low high u) : 2 ^ low ≤ a := by
  obtain ⟨-, hge, -⟩ := hu
  cases h
  exact hge

/-- What is not below zero and lies within the range has a size. -/
theorem Small.exists_size (h : Small low high u) (hu : Nonneg u) (hhigh : high ≤ 1023) :
    ∃ a, HasSize a u := by
  obtain ⟨sign, rfl⟩ | @⟨sign, m, e, hm, hcanonical, -, hle⟩ := h
  · exact ⟨0, .zero sign⟩
  · cases sign with
    | negative => cases hu
    | positive =>
      refine ⟨_, .finite hcanonical ?_⟩
      obtain hfull | hleast := hcanonical.full
      · have hbound := zpow_le_zpow.1 (((zpow_le_mul (k := 52)).2 hfull).trans hle)
        push_cast at hbound
        omega
      · omega

/-- A quotient lies between the powers of two around the exact one, and is zero if that is. -/
theorem HasSize.div (hu : HasSize a u) (hw : HasSize b w) (hb : 0 < b) (hlow : -1074 ≤ high)
    (hhigh : high ≤ 1023) (hle : a / b ≤ 2 ^ high) :
    ∃ c, HasSize c (.div .binary64 u w) ∧ c ≤ 2 ^ high ∧ (a = 0 → c = 0) ∧
      ∀ low : Int, -1074 ≤ low → (2 : ℚ) ^ low ≤ a / b → 2 ^ low ≤ c := by
  cases hw with
  | zero sign => exact absurd hb (lt_irrefl _)
  | @finite n f hn hcanonical hf =>
    cases hu with
    | zero sign =>
      refine ⟨0, .zero (sign / Sign.positive), by positivity, fun _ => rfl, ?_⟩
      intro low _ hge
      rw [zero_div] at hge
      exact absurd hge (not_le.2 (by positivity))
    | @finite m e hm hcanonical' he =>
      have hsmall : Small (-1074) high
          (.div .binary64 (.finite .positive m e hm) (.finite .positive n f hn)) :=
        small_quotient hlow hle
      obtain ⟨c, hc⟩ := hsmall.exists_size nonneg_round hhigh
      refine ⟨c, hc, hc.le_of_small hsmall, fun hzero => absurd hzero (by positivity), ?_⟩
      intro low hleast hge
      exact hc.le_of_sized (sized_quotient hleast hlow hge hle)

variable {x y : Float} {xs : List Float}

theorem size_div (high : Int) (hx : HasSize a (Double.unpack x)) (hy : HasSize b (Double.unpack y))
    (hb : 0 < b) (hlow : -1074 ≤ high) (hhigh : high ≤ 1023) (hle : a / b ≤ 2 ^ high) :
    ∃ c, HasSize c (Double.unpack (x / y)) ∧ c ≤ 2 ^ high ∧ (a = 0 → c = 0) ∧
      ∀ low : Int, -1074 ≤ low → (2 : ℚ) ^ low ≤ a / b → 2 ^ low ≤ c := by
  obtain ⟨c, hc, hrest⟩ := hx.div hy hb hlow hhigh hle
  refine ⟨c, ?_, hrest⟩
  rw [unpack_div, hc.settle_eq]
  exact hc

theorem size_zero : HasSize 0 (Double.unpack 0) := .zero .positive

theorem size_one : HasSize 1 (Double.unpack (Scalar.ofNat 1)) := by
  have hone : ((2 ^ 52 : Nat) : ℚ) * 2 ^ (-52 : Int) = 1 := by norm_num
  rw [← hone]
  exact .finite (h := by decide) ⟨by decide, by decide, by decide, .inl le_rfl⟩ (by decide)

/-- Numbers with a size are compared by it. -/
theorem le_iff_of_size (hx : HasSize a (Double.unpack x)) (hy : HasSize b (Double.unpack y)) :
    Scalar.le x y = true ↔ a ≤ b := by
  rw [Scalar.le_iff, ← hx.standing_le_iff hy]
  exact ⟨fun h => h.2.2, fun h => ⟨isNaN_eq_false_iff.2 hx.isFinite.2,
    isNaN_eq_false_iff.2 hy.isFinite.2, h⟩⟩

theorem lt_iff_of_size (hx : HasSize a (Double.unpack x)) (hy : HasSize b (Double.unpack y)) :
    Scalar.lt x y = true ↔ a < b := by
  rw [← not_le, ← hy.standing_le_iff hx, not_le, float_lt_iff]
  exact ⟨fun h => h.2.2, fun h => ⟨hx.isFinite.2, hy.isFinite.2, h⟩⟩

theorem not_lt_iff_of_size (hx : HasSize a (Double.unpack x)) (hy : HasSize b (Double.unpack y)) :
    Scalar.lt x y = false ↔ b ≤ a := by
  rw [← Bool.not_eq_true, lt_iff_of_size hx hy, not_lt]

/-- Nothing is below zero, so what is not zero is above it. -/
theorem pos_iff_of_size (hx : HasSize a (Double.unpack x)) : Scalar.lt 0 x = true ↔ a ≠ 0 := by
  rw [lt_iff_of_size size_zero hx, hx.nonneg.lt_iff_ne']

theorem isAmount_of_size (hx : HasSize a (Double.unpack x)) : Scalar.IsAmount x := by
  refine ⟨?_, isNaN_eq_false_iff.2 hx.isFinite.2⟩
  exact (not_lt_iff_of_size hx size_zero).2 hx.nonneg

/-- An amount has a size, unless it is infinite. -/
theorem exists_size_of_le (hx : Scalar.IsAmount x) (hy : HasSize b (Double.unpack y))
    (hle : Scalar.le x y = true) : ∃ a, HasSize a (Double.unpack x) := by
  obtain ⟨a, -, ha⟩ := hx.proper.exists_size hy ((hx.le_iff (isAmount_of_size hy)).1 hle)
  exact ⟨a, ha⟩

theorem exists_size_of_finite (hx : Scalar.IsAmount x) (hfinite : Scalar.isFinite x = true) :
    ∃ a, HasSize a (Double.unpack x) := by
  obtain hinfinite | ⟨a, -, ha⟩ := hx.proper
  · have hclean : (Double.unpack x).isFinite = true := hfinite
    rw [hinfinite] at hclean
    cases hclean
  · exact ⟨a, ha⟩

/-- A zero that is added changes nothing but the sign of another zero. -/
theorem size_add_zero (hx : HasSize a (Double.unpack x)) (hy : HasSize 0 (Double.unpack y)) :
    HasSize a (Double.unpack (x + y)) ∧ (a ≠ 0 → Double.unpack (x + y) = Double.unpack x) := by
  obtain ⟨t, ht⟩ := hy.eq_zero rfl
  rw [unpack_add, ht]
  generalize Double.unpack x = u at hx
  cases hx with
  | zero s => cases s <;> cases t <;> exact ⟨.zero _, fun hne => absurd rfl hne⟩
  | @finite m e hpos hm he =>
    have hsame := HasSize.finite (h := hpos) hm he
    change HasSize _ (settle (.finite .positive m e hpos)) ∧ _
    rw [hsame.settle_eq]
    exact ⟨hsame, fun _ => hsame.settle_eq⟩

theorem HasSize.lt_top (h : HasSize a u) : a < 2 ^ (1024 : Int) := by
  cases h with
  | zero sign => positivity
  | @finite m e hpos hm he =>
    calc (m : ℚ) * 2 ^ e < 2 ^ (e + (53 : Nat)) := by
          rw [← not_le, zpow_le_mul, not_le]
          exact hm.lt
      _ ≤ 2 ^ (1024 : Int) := zpow_le_zpow.2 (by push_cast; omega)

/-- A sum does not leave the greatest of its parts far behind, however many there are. -/
theorem size_total_le (hy : HasSize b (Double.unpack y))
    (hxs : ∀ x ∈ xs, ∃ a, HasSize a (Double.unpack x) ∧ a ≤ b)
    (htotal : HasSize a (Double.unpack (Scalar.total xs))) : a ≤ 2 ^ (55 : Int) * b := by
  generalize Double.unpack y = u at hy
  cases hy with
  | zero sign =>
    obtain ⟨s, hzero⟩ := zero_total fun x hx => by
      obtain ⟨c, hc, hle⟩ := hxs x hx
      exact hc.eq_zero (le_antisymm hle hc.nonneg)
    rw [hzero] at htotal
    cases htotal
    simp
  | @finite m e hpos hm he =>
    have hscale : (2 : ℚ) ^ ((m.log2 : Int) + e + 55) ≤ 2 ^ (55 : Int) * (m * 2 ^ e) := by
      rw [zpow_add₀ two_ne_zero, mul_comm]
      exact mul_le_mul_of_nonneg_left (zpow_log2_le hpos) (by positivity)
    refine le_trans ?_ hscale
    have hge := hm.ge
    obtain hfits | hgreat := le_or_gt ((m.log2 : Int) + e + 55) 1023
    · have hsmall : Small (-1074) ((m.log2 : Int) + 1 + e + 54) (Double.unpack (Scalar.total xs)) := by
        apply small_total (by omega) (by omega)
        intro x hx
        obtain ⟨c, hc, hle⟩ := hxs x hx
        exact hc.small (hle.trans (lt_zpow_log2 m e).le)
      rw [show (m.log2 : Int) + e + 55 = m.log2 + 1 + e + 54 by ring]
      exact htotal.le_of_small hsmall
    · exact htotal.lt_top.le.trans (zpow_le_zpow.2 (by omega))

end Sizes

end Centroids

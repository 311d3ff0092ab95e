import Mathlib
import Centroids.Convergence

/-! When labels count as stable.  A quotient of positive numbers keeps its leading bit when it is
rounded, unless it lies below the least double; so the share of the points that changed is zero only
if none did.  A share of zero is within every tolerance that is not negative. -/
namespace Centroids

open Float.Model (totalExponent)
open Float.Model.UnpackedFloat (ExtendedMantissa Accuracy divCore packComponents unpackSign
  roundWithAccuracy shiftToTargetExponent shiftToExponent)
open Float.Model (UnpackedFloat)

/-- Greater than zero, with the mantissa and the least exponent of a double. -/
inductive Above : UnpackedFloat → Prop
  | infinity : Above (.infinity .positive)
  | finite {mantissa : Nat} {exponent : Int} {h : 0 < mantissa} :
      mantissa < 2 ^ 53 → -1074 ≤ exponent → Above (.finite .positive mantissa exponent h)

section Rounding

theorem mantissa_shiftRight (em : ExtendedMantissa) (n : Nat) :
    (em >>> n).mantissa = em.mantissa / 2 ^ n := by
  change (n.repeat ExtendedMantissa.shiftRightOne em).mantissa = _
  induction n with
  | zero => simp [Nat.repeat]
  | succ n ih =>
    rw [Nat.repeat, pow_succ, ← Nat.div_div_eq_div_mul, ← ih]
    rfl

theorem le_roundedMantissa (em : ExtendedMantissa) : em.mantissa ≤ em.roundedMantissa := by
  rcases em with ⟨m, _ | _, _ | _⟩ <;>
    simp [ExtendedMantissa.roundedMantissa, ExtendedMantissa.accuracy, Accuracy.roundToNearestEven]

/-- The shift to the exponent of a double drops only what its mantissa cannot hold. -/
theorem shift_spec {m : Nat} {e : Int} (hm : 0 < m) (he : -1074 ≤ e) (a : Accuracy) :
    0 < (shiftToTargetExponent .binary64 m e a).1.mantissa ∧
      (shiftToTargetExponent .binary64 m e a).1.mantissa < 2 ^ 53 ∧
      -1074 ≤ (shiftToTargetExponent .binary64 m e a).2 := by
  have hmantissa : (ExtendedMantissa.ofMantissaAndAccuracy m a).mantissa = m := by
    cases a with
    | exact => rfl
    | inexact o => cases o <;> rfl
  have htarget : Float.Model.Format.binary64.targetExponent (totalExponent m e) =
      max (m.log2 + 1 + e - 53) (-1074) := rfl
  unfold shiftToTargetExponent shiftToExponent
  dsimp only
  rw [mantissa_shiftRight, hmantissa, htarget]
  generalize hs : (max (m.log2 + 1 + e - 53) (-1074) - e).toNat = s
  have hle : s ≤ m.log2 := by omega
  have hge : m.log2 < s + 53 := by omega
  refine ⟨?_, ?_, by omega⟩
  · apply Nat.div_pos
    · calc 2 ^ s ≤ 2 ^ m.log2 := Nat.pow_le_pow_right (by decide) hle
        _ ≤ m := Nat.log2_self_le hm.ne'
    · exact Nat.two_pow_pos s
  · rw [Nat.div_lt_iff_lt_mul (Nat.two_pow_pos s), ← pow_add, Nat.add_comm]
    exact (Nat.log2_lt hm.ne').1 hge

theorem above_round {m : Nat} {e : Int} (hm : 0 < m) (he : -1074 ≤ e) (a : Accuracy) :
    Above (roundWithAccuracy .binary64 .positive m e a) := by
  have hfirst := shift_spec hm he a
  have hrounded := le_roundedMantissa (shiftToTargetExponent .binary64 m e a).1
  have hlast := shift_spec (lt_of_lt_of_le hfirst.1 hrounded) hfirst.2.2 .exact
  unfold roundWithAccuracy
  dsimp only
  rw [dif_neg hlast.1.ne']
  exact .finite hlast.2.1 hlast.2.2

/-- Enough bits of a quotient are kept for it not to vanish. -/
theorem divCore_spec {a b k : Nat} (ha : 0 < a) (hb : 0 < b) (hle : b ≤ 2 ^ k) (hk : k ≤ 1074) :
    0 < (divCore .binary64 a 0 b 0).1 ∧ -1074 ≤ (divCore .binary64 a 0 b 0).2.1 := by
  have htarget : Float.Model.Format.binary64.targetExponent (totalExponent a 0 - totalExponent b 0) =
      max ((a.log2 + 1 + 0 : Int) - (b.log2 + 1 + 0) - 53) (-1074) := rfl
  unfold divCore
  dsimp only
  rw [htarget]
  refine ⟨?_, by omega⟩
  generalize hs : ((0 : Int) - 0 - min (0 - 0)
    (max ((a.log2 + 1 + 0 : Int) - (b.log2 + 1 + 0) - 53) (-1074))).toNat = s
  rw [Nat.shiftLeft_eq]
  apply Nat.div_pos _ hb
  by_cases hsubnormal : 1074 ≤ s
  · calc b ≤ 2 ^ k := hle
      _ ≤ 2 ^ s := Nat.pow_le_pow_right (by decide) (hk.trans hsubnormal)
      _ ≤ a * 2 ^ s := Nat.le_mul_of_pos_left _ ha
  · have hshift : b.log2 + 1 ≤ a.log2 + s := by omega
    calc b ≤ 2 ^ (b.log2 + 1) := Nat.lt_log2_self.le
      _ ≤ 2 ^ (a.log2 + s) := Nat.pow_le_pow_right (by decide) hshift
      _ = 2 ^ a.log2 * 2 ^ s := pow_add 2 _ _
      _ ≤ a * 2 ^ s := Nat.mul_le_mul_right _ (Nat.log2_self_le ha.ne')

theorem above_ratio {a b : Nat} (ha : 0 < a) (hb : 0 < b) (hle : b ≤ 2 ^ 1074) :
    Above (ratio .binary64 a b) := by
  have hdiv := divCore_spec ha hb hle le_rfl
  unfold ratio
  rw [dif_pos ha, dif_pos hb]
  exact above_round hdiv.1 hdiv.2 _

end Rounding

section Packing

theorem unpackSign_components {format : Float.Model.Format} (sign : Float.Model.UnpackedFloat.Sign)
    (exponent : BitVec format.exponentBits)
    (mantissa : BitVec format.mantissaBitsWithoutImplicit) :
    unpackSign (packComponents format sign exponent mantissa) = sign.toBitVec := by
  ext i hi
  have hzero : i = 0 := by omega
  subst hzero
  simp [unpackSign, packComponents, BitVec.getLsbD_append, BitVec.getElem_append, BitVec.getLsbD_eq_getElem]

theorem bias_eq : (Float.Model.Format.binary64.exponentBias : Int) + (52 : Nat) = 1075 := rfl

theorem above_unpack {exponent : BitVec 11} {mantissa : BitVec 52} (hmax : exponent ≠ -1#11)
    (h : exponent ≠ 0#11 ∨ mantissa ≠ 0#52) :
    Above (.unpack .binary64 (packComponents .binary64 .positive exponent mantissa)) := by
  unfold UnpackedFloat.unpack
  simp only [Float.Model.UnpackedFloat.unpackMantissa_packComponents,
    Float.Model.UnpackedFloat.unpackExponent_packComponents, unpackSign_components]
  rw [if_neg hmax]
  by_cases hexponent : exponent = 0#11
  · have hmantissa : mantissa ≠ 0#52 := h.resolve_left (not_not_intro hexponent)
    rw [if_pos hexponent, dif_neg hmantissa]
    apply Above.finite
    · exact mantissa.isLt.trans (by decide)
    · rw [hexponent, bias_eq]
      decide
  · rw [if_neg hexponent]
    have hpos : exponent.toNat ≠ 0 := fun hzero => hexponent (BitVec.eq_of_toNat_eq hzero)
    apply Above.finite
    · exact (1#1 ++ mantissa).isLt
    · rw [bias_eq]
      omega

theorem Above.unpack_pack {x : UnpackedFloat} (h : Above x) :
    Above (.unpack .binary64 (UnpackedFloat.pack .binary64 x)) := by
  cases h with
  | infinity => exact .infinity
  | @finite m e hm hlt he =>
    unfold UnpackedFloat.pack
    have hbits : Float.Model.Format.binary64.mantissaBits = 53 := rfl
    dsimp only
    rw [add_assoc, bias_eq, hbits]
    generalize bias_eqed : (e + 1075).toNat = biased
    have hpos : 0 < biased := by omega
    split
    · exact .infinity
    · rename_i hfits
      have htoNat : (BitVec.ofNat 11 biased).toNat = biased := by
        rw [BitVec.toNat_ofNat, Nat.mod_eq_of_lt (by omega)]
      split
      · apply above_unpack
        · intro hmax
          have hvalue : (BitVec.ofNat 11 biased).toNat = (-1#11).toNat := congrArg _ hmax
          rw [htoNat, show (-1#11).toNat = 2047 from rfl] at hvalue
          omega
        · left
          intro hzero
          have hvalue : (BitVec.ofNat 11 biased).toNat = (0#11).toNat := congrArg _ hzero
          rw [htoNat, show (0#11).toNat = 0 from rfl] at hvalue
          omega
      · rename_i hlog
        apply above_unpack (by decide)
        right
        intro hzero
        have hvalue : (BitVec.ofNat 52 m).toNat = (0#52).toNat := congrArg _ hzero
        have hlow : m < 2 ^ 52 := by
          rw [← Nat.log2_lt hm.ne']
          have := (Nat.log2_lt hm.ne').2 hlt
          omega
        rw [BitVec.toNat_ofNat, Nat.mod_eq_of_lt hlow] at hvalue
        exact hm.ne' hvalue

end Packing

namespace Numeral

theorem le_int (m n : Int) : le (.int m) (.int n) = decide (m ≤ n) := by
  simp only [le, compare?, extent?, Extent.compare, Int.sub_self, Int.toNat_zero, Int.pow,
    Option.any_some]
  rw [Bool.eq_iff_iff, Ordering.isLE_iff_ne_gt, decide_eq_true_iff, ← Int.not_lt]
  simp [Int.compare_eq_gt]

theorem extent_of_above {x : Float} (h : Above (Double.unpack x)) :
    extent? (.double x) = some .posInfinity ∨
      ∃ m e, 0 < m ∧ extent? (.double x) = some (.dyadic m e) := by
  unfold extent?
  dsimp only
  cases hx : Double.unpack x with
  | infinity sign =>
    rw [hx] at h
    cases h
    exact .inl rfl
  | notANumber =>
    rw [hx] at h
    cases h
  | zero sign =>
    rw [hx] at h
    cases h
  | finite sign m e hm =>
    rw [hx] at h
    cases h
    exact .inr ⟨m, e, Int.natCast_pos.2 hm, rfl⟩

theorem extent_of_eq_zero {x : Numeral} (h : x.compare? (.int 0) = some .eq) :
    ∃ e, x.extent? = some (.dyadic 0 e) := by
  unfold compare? at h
  cases hx : x.extent? with
  | none =>
    rw [hx] at h
    cases h
  | some extent =>
    rw [hx] at h
    have hcompare := Option.some.inj h
    cases extent with
    | negInfinity => cases hcompare
    | posInfinity => cases hcompare
    | dyadic m e =>
      have hm : m * 2 ^ (e - 0).toNat = 0 * 2 ^ (0 - e).toNat := Int.compare_eq_eq.1 hcompare
      rw [zero_mul] at hm
      rw [(mul_eq_zero.1 hm).resolve_right (by positivity)]
      exact ⟨e, rfl⟩

theorem not_le_of_above {x : Float} {y : Numeral} (hx : Above (Double.unpack x))
    (hy : y.compare? (.int 0) = some .eq) : le (.double x) y = false := by
  rcases extent_of_eq_zero hy with ⟨f, hzero⟩
  unfold le compare?
  rcases extent_of_above hx with hinfinite | ⟨m, e, hm, hfinite⟩
  · rw [hinfinite, hzero]
    rfl
  · have hgt : Extent.compare (.dyadic m e) (.dyadic 0 f) = .gt := by
      change Ord.compare (m * 2 ^ (e - f).toNat) (0 * 2 ^ (f - e).toNat) = .gt
      rw [zero_mul]
      exact Int.compare_eq_gt.2 (by positivity)
    rw [hfinite, hzero]
    dsimp only
    rw [hgt]
    rfl

end Numeral

namespace Grid

variable {α β γ : Type} [Zero α] [Zero β]

theorem entry_ofList {xs : List α} {i : Nat} (hi : i < xs.length) : (ofList xs).entry [i] = xs[i] := by
  have hplace : offset (ofList xs).shape [i] = i := Nat.mul_one i
  unfold entry
  rw [hplace]
  simp [ofList, Array.getD_eq_getD_getElem?, hi]

theorem entry_pinch {xs : List α} {i : Nat} (hi : i < xs.length) :
    (ofList xs).entry (pinch (ofList xs).shape [i]) = xs[i] := by
  have hpinch : pinch (ofList xs).shape [i] = [i] := by
    change [if xs.length = 1 then 0 else i] = [i]
    split
    · rw [show i = 0 by omega]
    · rfl
  rw [hpinch, entry_ofList hi]

/-- Lists of one length are combined entry by entry. -/
theorem zipWith?_ofList {f : α → β → γ} {xs : List α} {ys : List β} (h : xs.length = ys.length) :
    ∃ g, zipWith? f (ofList xs) (ofList ys) = some g ∧ g.toList = List.zipWith f xs ys := by
  have hshape : joinShape? (ofList xs).shape (ofList ys).shape = some [xs.length] := by
    simp [joinShape?, joinReversed?, joinLength?, ofList, h]
  unfold zipWith?
  rw [hshape]
  refine ⟨_, rfl, ?_⟩
  have hpositions : positions [xs.length] = (List.range xs.length).map ([·]) := by
    simp [positions, List.map_eq_flatMap]
  rw [toList_tabulate, hpositions, List.map_map]
  apply List.ext_getElem
  · simp [h]
  intro i hi _
  have hx : i < xs.length := by simpa using hi
  rw [List.getElem_map, List.getElem_range, List.getElem_zipWith, Function.comp_apply,
    entry_pinch hx, entry_pinch (by omega)]

end Grid

namespace Criterion

theorem above_share {changed count : Nat} (hchanged : 0 < changed) (hcount : 0 < count)
    (hle : count ≤ 2 ^ 1074) : Above (Double.unpack (share changed count)) := by
  unfold share
  rw [if_neg hcount.ne']
  exact (above_ratio hchanged hcount hle).unpack_pack.unpack_pack

/-- Labels of the same points are compared one by one. -/
theorem compare_ofList {now before : List Int} (h : now.length = before.length) :
    compare (.ofList now) (.ofList before) =
      .ok ((List.zipWith (· != ·) now before).countP id, now.length) := by
  rcases Grid.zipWith?_ofList h with ⟨changes, hchanges, hlist⟩
  unfold compare
  rw [hchanges, ← hlist]
  rfl

/-- With a tolerance of zero, the criterion is met only by labels that are those before, and by none
after a reseed. -/
theorem eq_of_met {c next : Criterion} {now before : List Int} {iteration : Option Value}
    {reseeded : Bool} (hprevious : c.previous = some (.ofList before))
    (hzero : c.tolerance.compare? (.int 0) = some .eq) (hlength : now.length = before.length)
    (hle : now.length ≤ 2 ^ 1074)
    (h : c.check ⟨some (.ofList now), iteration, reseeded⟩ = .ok (true, next)) :
    now = before ∧ reseeded = false := by
  rw [check_next hprevious (compare_ofList hlength)] at h
  have hmet := (Prod.mk.inj (Except.ok.inj h)).1
  have hstable := isMet_record hmet
  unfold isStable at hstable
  rw [Bool.and_eq_true, Bool.not_eq_true'] at hstable
  refine ⟨?_, hstable.2⟩
  apply List.ext_getElem hlength
  intro i hi hi'
  -- A label that changed would make the share of changes greater than zero.
  by_contra hne
  have hmem : true ∈ List.zipWith (· != ·) now before := by
    rw [List.mem_iff_getElem]
    refine ⟨i, by simpa using ⟨hi, hi'⟩, ?_⟩
    rw [List.getElem_zipWith, bne_iff_ne]
    exact hne
  have hchanged : 0 < (List.zipWith (· != ·) now before).countP id :=
    List.countP_pos_iff.2 ⟨true, hmem, rfl⟩
  have habove := above_share hchanged (by omega : 0 < now.length) hle
  have hle := hstable.1
  rw [Numeral.not_le_of_above habove hzero] at hle
  cases hle

theorem extent_share_zero (count : Nat) :
    Numeral.extent? (.double (share 0 count)) = some (.dyadic 0 0) := by
  unfold share
  split
  · rfl
  · have hratio : ratio .binary64 0 count = ratio .binary64 0 1 := rfl
    unfold Double.ofRatio
    rw [hratio]
    rfl

theorem le_share_zero (count : Nat) (x : Numeral) :
    Numeral.le (.double (share 0 count)) x = Numeral.le (.int 0) x := by
  unfold Numeral.le Numeral.compare?
  rw [extent_share_zero]
  rfl

/-- With a tolerance that is not negative, labels that stay without a reseed meet a criterion that
needs one stable comparison. -/
theorem met_of_eq {c : Criterion} {labels : List Int} {iteration : Option Value}
    (hprevious : c.previous = some (.ofList labels)) (hpatience : c.patience = .int 1)
    (htolerance : Numeral.le (.int 0) c.tolerance = true) :
    ∃ next, c.check ⟨some (.ofList labels), iteration, false⟩ = .ok (true, next) := by
  have hcount : (List.zipWith (· != ·) labels labels).countP id = 0 := by
    rw [List.countP_eq_zero]
    simp [List.zipWith_self]
  rw [check_next hprevious (compare_ofList rfl), hcount]
  refine ⟨_, congrArg (fun met => Except.ok (met, _)) ?_⟩
  simp [isMet, record, isStable, le_share_zero, htolerance, hpatience, Numeral.le_int]

end Criterion

end Centroids

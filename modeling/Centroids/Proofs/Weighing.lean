import Centroids.Proofs.Failure
import Centroids.Proofs.Signs

/-! Weights and variances of single-precision numbers, in double precision.  Singles lie so far within
the range of doubles that no sum of their squares is infinite: squared distances in relation to
their sum are probabilities, and a variance of distances is a number. -/
namespace Centroids

open Float.Model (UnpackedFloat)
open Float.Model.UnpackedFloat (Sign unpackSign packComponents)

section Comparison

variable {low high : Int} {u : UnpackedFloat}

theorem Small.isFinite (h : Small low high u) : u.isFinite = true ∧ u.isNaN = false := by
  obtain ⟨sign, rfl⟩ | ⟨-, -, -⟩ := h <;> exact ⟨rfl, rfl⟩

theorem Small.lt_standing (h : Small low high u) :
    standing (.infinity .negative) < standing u := by
  obtain ⟨sign, rfl⟩ | @⟨sign, m, e, hm, -, -, -⟩ := h
  · exact Prod.Lex.left _ _ (by decide)
  · cases sign <;> exact Prod.Lex.left _ _ (by decide)

theorem Nonneg.standing_le (h : Nonneg u) : standing (.zero .positive) ≤ standing u := by
  rcases u with (_ | _) | _ | _ | @⟨_ | _, m, e, hm⟩ <;> cases h
  · exact le_of_lt (Prod.Lex.left _ _ (by decide))
  · exact le_rfl
  · exact le_of_lt (Prod.Lex.left _ _ (by decide))

theorem Sized.standing_ne (h : Sized low high u) : standing u ≠ standing (.zero .positive) := by
  obtain @⟨sign, m, e, hm, -, -, -⟩ := h
  intro heq
  have hsign : sign.apply 1 = 0 := congrArg (fun s => (ofLex s).1) heq
  cases sign <;> exact absurd hsign (by decide)

variable {x : Float}

theorem isFinite_of_small (h : Small low high (Double.unpack x)) : Scalar.isFinite x = true :=
  h.isFinite.1

theorem isBounded_of_small (h : Small low high (Double.unpack x)) : Scalar.isBounded x = true :=
  (float_lt_iff _ _).2 ⟨rfl, h.isFinite.2, h.lt_standing⟩

theorem not_lt_of_nonneg (h : Nonneg (Double.unpack x)) : Scalar.lt x 0 = false := by
  rw [Bool.eq_false_iff, Ne, float_lt_iff]
  rintro ⟨-, -, hlt⟩
  exact absurd hlt (not_lt.2 h.standing_le)

theorem beq_zero_of_sized (h : Sized low high (Double.unpack x)) : (x == 0) = false := by
  rw [Bool.eq_false_iff, Ne, float_beq_iff]
  rintro ⟨-, -, heq⟩
  exact h.standing_ne heq

theorem not_lt_of_zero {sign : Sign} (h : Double.unpack x = .zero sign) : Scalar.lt 0 x = false := by
  rw [Bool.eq_false_iff, Ne, float_lt_iff]
  rintro ⟨-, -, hlt⟩
  change standing (.zero .positive) < standing (Double.unpack x) at hlt
  rw [h] at hlt
  exact lt_irrefl _ hlt

end Comparison

section Arithmetic

variable {low b : Int} {x y : Float} {xs : List Float}

theorem unpack_add (x y : Float) : Double.unpack (x + y) =
    settle (.add .binary64 (Double.unpack x) (Double.unpack y)) := rfl

theorem unpack_sub (x y : Float) : Double.unpack (x - y) =
    settle (.sub .binary64 (Double.unpack x) (Double.unpack y)) := rfl

theorem unpack_mul (x y : Float) : Double.unpack (x * y) =
    settle (.mul .binary64 (Double.unpack x) (Double.unpack y)) := rfl

theorem unpack_div (x y : Float) : Double.unpack (x / y) =
    settle (.div .binary64 (Double.unpack x) (Double.unpack y)) := rfl

/-- A part that is small enough is absorbed. -/
theorem zpow_add_near (b : Int) : (2 : ℚ) ^ (b + 54) + 2 ^ b ≤ 2 ^ (b + 54) + 2 ^ (b + 54 - 54) := by
  rw [add_sub_cancel_right]

section Total

variable (hlow : -1022 ≤ b + 54) (hhigh : b + 54 ≤ 1023)
include hlow hhigh

theorem small_total (h : ∀ x ∈ xs, Small (-1074) b (Double.unpack x)) :
    Small (-1074) (b + 54) (Double.unpack (Scalar.total xs)) := by
  induction xs using List.reverseRecOn with
  | nil => exact .inl ⟨.positive, rfl⟩
  | append_singleton xs x ih =>
    rw [List.forall_mem_append, List.forall_mem_singleton] at h
    have hsum := Small.add le_rfl (by omega) hlow (zpow_add_near b) (ih h.1) h.2
    rw [Scalar.total_concat, unpack_add, hsum.settle_eq hhigh]
    exact hsum

variable (hleast : -1074 ≤ low)
  (h : ∀ x ∈ xs, Nonneg (Double.unpack x) ∧ Small low b (Double.unpack x))
include hleast h

theorem total_nonneg : Nonneg (Double.unpack (Scalar.total xs)) ∧
    Small low (b + 54) (Double.unpack (Scalar.total xs)) := by
  induction xs using List.reverseRecOn with
  | nil => exact ⟨trivial, .inl ⟨.positive, rfl⟩⟩
  | append_singleton xs x ih =>
    rw [List.forall_mem_append, List.forall_mem_singleton] at h
    obtain ⟨hnonneg, hsmall⟩ := ih h.1
    have hsum := small_add le_rfl (by omega) hlow (zpow_add_near b) hleast hnonneg h.2.1 hsmall h.2.2
    rw [Scalar.total_concat, unpack_add, hsum.settle_eq hhigh]
    exact ⟨hnonneg.add h.2.1, hsum⟩

/-- A sum of numbers of which none is negative is not zero unless all are. -/
theorem sized_total (hsome : ∃ x ∈ xs, Sized low b (Double.unpack x)) :
    Sized low (b + 54) (Double.unpack (Scalar.total xs)) := by
  induction xs using List.reverseRecOn with
  | nil => simp at hsome
  | append_singleton xs x ih =>
    rw [List.forall_mem_append, List.forall_mem_singleton] at h
    obtain ⟨hnonneg, hsmall⟩ := total_nonneg hlow hhigh hleast h.1
    have hpart : Sized low (b + 54) (Double.unpack (Scalar.total xs)) ∨
        Sized low b (Double.unpack x) := by
      obtain ⟨y, hy, hsized⟩ := hsome
      obtain hbefore | hlast := List.mem_append.1 hy
      · exact .inl (ih h.1 ⟨y, hbefore, hsized⟩)
      · rw [List.mem_singleton.1 hlast] at hsized
        exact .inr hsized
    have hsum := sized_add le_rfl (by omega) hlow (zpow_add_near b) hleast hnonneg h.2.1 hsmall
      h.2.2 hpart
    rw [Scalar.total_concat, unpack_add, hsum.settle_eq hhigh]
    exact hsum

end Total

theorem zero_total (h : ∀ x ∈ xs, ∃ sign, Double.unpack x = .zero sign) :
    ∃ sign, Double.unpack (Scalar.total xs) = .zero sign := by
  induction xs using List.reverseRecOn with
  | nil => exact ⟨.positive, rfl⟩
  | append_singleton xs x ih =>
    rw [List.forall_mem_append, List.forall_mem_singleton] at h
    obtain ⟨s, hs⟩ := ih h.1
    obtain ⟨t, ht⟩ := h.2
    rw [Scalar.total_concat, unpack_add, hs, ht]
    cases s <;> cases t <;> exact ⟨_, rfl⟩

section Share

variable {w sum : Float} (hw : Small (-149) 128 (Double.unpack w))
  (hsum : Sized (-149) (128 + 54) (Double.unpack sum))
include hsum

theorem sized_share (h : Sized (-149) 128 (Double.unpack w)) :
    Sized (-331) 277 (Double.unpack (w / sum)) := by
  have hdiv : Sized (-331) 277 (.div .binary64 (Double.unpack w) (Double.unpack sum)) :=
    h.div (by decide) (by decide) (by decide) (by decide) hsum
  rw [unpack_div, hdiv.settle_eq (by decide)]
  exact hdiv

include hw

theorem small_share : Small (-331) 277 (Double.unpack (w / sum)) := by
  obtain ⟨sign, hzero⟩ | hsized := hw
  · left
    obtain ⟨zero, hdiv⟩ := hsum.zero_div sign
    rw [unpack_div, hzero, hdiv]
    exact ⟨zero, settle_zero zero⟩
  · exact .inr (sized_share hsum hsized)

theorem nonneg_share (hnonneg : Nonneg (Double.unpack w)) (hpos : Nonneg (Double.unpack sum)) :
    Nonneg (Double.unpack (w / sum)) := by
  have hdiv := hw.div (by decide : (-1074 : Int) ≤ 277) (by decide) hsum
  rw [unpack_div, hdiv.settle_eq (by decide)]
  exact hnonneg.div hpos hw hsum

end Share

/-- Weights in relation to their sum are probabilities, unless all of them are zero. -/
theorem sampleable_shares {weights : List Float}
    (h : ∀ w ∈ weights, Nonneg (Double.unpack w) ∧ Small (-149) 128 (Double.unpack w))
    (hpos : Scalar.lt 0 (Scalar.total weights) = true) :
    Random.Sampleable (weights.map (· / Scalar.total weights)) := by
  obtain ⟨hnonneg, -⟩ := total_nonneg (by decide) (by decide) (by decide) h
  have hsome : ∃ w ∈ weights, Sized (-149) 128 (Double.unpack w) := by
    by_contra hnone
    obtain ⟨sign, hzero⟩ := zero_total fun w hw =>
      (h w hw).2.resolve_right fun hsized => hnone ⟨w, hw, hsized⟩
    rw [not_lt_of_zero hzero] at hpos
    cases hpos
  have hsum := sized_total (by decide) (by decide) (by decide) h hsome
  have hshares : ∀ s ∈ weights.map (· / Scalar.total weights),
      Nonneg (Double.unpack s) ∧ Small (-331) 277 (Double.unpack s) := by
    intro s hs
    obtain ⟨w, hw, rfl⟩ := List.mem_map.1 hs
    exact ⟨nonneg_share (h w hw).2 hsum (h w hw).1 hnonneg, small_share (h w hw).2 hsum⟩
  constructor
  · intro s hs
    exact ⟨isFinite_of_small (hshares s hs).2, not_lt_of_nonneg (hshares s hs).1⟩
  · obtain ⟨w, hw, hsized⟩ := hsome
    exact beq_zero_of_sized (sized_total (by decide) (by decide) (by decide) hshares
      ⟨_, List.mem_map_of_mem hw, sized_share hsum hsized⟩)

end Arithmetic

section Variance

variable {b : Int} {x : Float} {xs : List Float} {n : Nat}

/-- A count is at least one, unless it is too great for a double. -/
theorem unpack_ofNat (hn : 0 < n) :
    (∃ sign, Double.unpack (Scalar.ofNat n) = .infinity sign) ∨
      ∃ high, Sized 0 high (Double.unpack (Scalar.ofNat n)) := by
  have hpos : 0 < ((n : Int).natAbs) := by omega
  have hround : Double.unpack (Scalar.ofNat n) =
      settle (settle (.round .binary64 .positive (n : Int).natAbs 0)) := by
    rw [← normalize_pos (by omega) .positive]
    rfl
  have hone : (2 : ℚ) ^ (0 : Int) ≤ (n : Int).natAbs * 2 ^ (0 : Int) := by
    rw [zpow_zero, mul_one]
    exact_mod_cast hpos
  have hbound : ((n : Int).natAbs : ℚ) * 2 ^ (0 : Int) ≤
      2 ^ ((n.log2 : Int) + 1) + 2 ^ ((n.log2 : Int) + 1 - 54) := by
    refine le_trans (lt_zpow_log2 n 0).le ?_
    rw [add_zero]
    exact le_add_of_nonneg_right (by positivity)
  have hsized : Sized 0 (n.log2 + 1) (.round .binary64 .positive (n : Int).natAbs 0) :=
    sized_of_round hpos (by decide) (by omega) hone hbound
  rw [hround]
  generalize UnpackedFloat.round .binary64 .positive (n : Int).natAbs 0 = u at hsized ⊢
  obtain @⟨sign, m, e, hm, hcanonical, -, -⟩ := id hsized
  rw [settle_finite hcanonical]
  split
  · rename_i hle
    rw [settle_finite hcanonical, if_pos hle]
    exact .inr ⟨_, hsized⟩
  · left
    refine ⟨sign, ?_⟩
    cases sign <;> rfl

section Count

variable (hn : 0 < n) (hlow : -1074 ≤ b) (hhigh : b ≤ 1023)
  (hx : Small (-1074) b (Double.unpack x))
include hn hlow hhigh hx

theorem small_div_ofNat : Small (-1074) b (Double.unpack (x / Scalar.ofNat n)) := by
  rw [unpack_div]
  obtain ⟨sign, hinfinite⟩ | ⟨high, hcount⟩ := unpack_ofNat hn
  · obtain ⟨zero, hdiv⟩ := hx.div_infinity sign
    rw [hinfinite, hdiv, settle_zero]
    exact .inl ⟨zero, rfl⟩
  · have hdiv := hx.div hlow (sub_zero b).le hcount
    rw [hdiv.settle_eq hhigh]
    exact hdiv

end Count

section Deviation

variable (h : ∀ x ∈ xs, Small (-1074) 128 (Double.unpack x)) (hlength : 2 ≤ xs.length)
include h hlength

theorem small_average : Small (-1074) (128 + 54) (Double.unpack (Scalar.average xs)) :=
  small_div_ofNat (by omega) (by decide) (by decide) (small_total (by decide) (by decide) h)

/-- The variance of singles is a number, and is not infinite. -/
theorem small_sampleVariance : Small (-1074) 418 (Double.unpack (sampleVariance xs)) := by
  have hmean := small_average h hlength
  have hsquares : ∀ y ∈ xs.map fun x => (x - Scalar.average xs) * (x - Scalar.average xs),
      Small (-1074) 364 (Double.unpack y) := by
    intro y hy
    obtain ⟨x, hx, rfl⟩ := List.mem_map.1 hy
    have hdifference : Small (-1074) (128 + 54) (.sub .binary64 (Double.unpack x)
        (Double.unpack (Scalar.average xs))) := by
      rw [unpacked_sub_eq]
      refine Small.add (by decide) le_rfl (by decide) ?_ (h x hx) hmean.neg
      rw [add_comm]
      exact zpow_add_near 128
    rw [unpack_mul, unpack_sub, hdifference.settle_eq (by decide)]
    have hsquare := hdifference.mul_self (by decide)
    rw [hsquare.settle_eq (by decide)]
    exact hsquare
  exact small_div_ofNat (by omega) (by decide) (by decide)
    (small_total (by decide) (by decide) hsquares)

end Deviation

end Variance

section Single

variable {x : Float32}

/-- Zero, or as many bits and as great an exponent as a single has. -/
inductive OfSingle : UnpackedFloat → Prop
  | zero (sign : Sign) : OfSingle (.zero sign)
  | finite {sign : Sign} {m : Nat} {e : Int} {h : 0 < m} :
      m < 2 ^ 24 → -149 ≤ e → e ≤ 104 → OfSingle (.finite sign m e h)

theorem exponent_bounds {exponent : BitVec 8} (hmax : exponent ≠ -1#8) (hzero : exponent ≠ 0#8) :
    0 < exponent.toNat ∧ exponent.toNat < 255 := by
  have hlt := exponent.isLt
  have hpos : exponent.toNat ≠ 0 := fun h => hzero (BitVec.eq_of_toNat_eq h)
  have htop : exponent.toNat ≠ 255 := fun h => hmax (BitVec.eq_of_toNat_eq h)
  omega

theorem ofSingle_unpack {bits : BitVec 32} (h : (UnpackedFloat.unpack .binary32 bits).isFinite) :
    OfSingle (.unpack .binary32 bits) := by
  have hbias : (Float.Model.Format.binary32.exponentBias : Int) + (23 : Nat) = 150 := rfl
  unfold UnpackedFloat.unpack at h ⊢
  dsimp only at h ⊢
  split at h
  · split at h <;> cases h
  · rename_i hmax
    rw [if_neg hmax]
    split
    · rename_i hzero
      split
      · exact .zero _
      · refine .finite ((BitVec.isLt _).trans (by decide)) ?_ ?_ <;>
          (rw [hzero, hbias]; decide)
    · rename_i hzero
      have hbounds := exponent_bounds hmax hzero
      refine .finite (BitVec.isLt _) ?_ ?_ <;> (rw [hbias]; omega)

/-- A single is a double of the same sign, between the least and the greatest single. -/
theorem OfSingle.refit {u : UnpackedFloat} (h : OfSingle u) :
    Small (-149) 128 (refit .binary64 u) ∧ (Nonneg u → Nonneg (refit .binary64 u)) := by
  cases h with
  | zero sign => exact ⟨.inl ⟨sign, rfl⟩, fun _ => trivial⟩
  | @finite sign m e hm hlt hge hle =>
    constructor
    · right
      apply sized_of_round hm (by decide) (by decide)
      · calc (2 : ℚ) ^ (-149 : Int) ≤ 2 ^ (e + (0 : Nat)) := zpow_le_zpow.2 (by push_cast; omega)
          _ ≤ m * 2 ^ e := zpow_le_mul.2 hm
      · calc (m : ℚ) * 2 ^ e ≤ 2 ^ (e + (24 : Nat)) := mul_zpow_le.2 hlt.le
          _ ≤ 2 ^ (128 : Int) := zpow_le_zpow.2 (by push_cast; omega)
          _ ≤ 2 ^ (128 : Int) + 2 ^ (128 - 54 : Int) := le_add_of_nonneg_right (by positivity)
    · intro hnonneg
      cases sign <;> cases hnonneg
      exact nonneg_of_round

theorem unpack_ofSingle (x : Float32) : Double.unpack (Double.ofSingle x) =
    settle (settle (refit .binary64 (Single.unpack x))) := rfl

theorem small_ofSingle (h : Scalar.isFinite x = true) :
    Small (-149) 128 (Double.unpack (Double.ofSingle x)) ∧
      (Nonneg (Single.unpack x) → Nonneg (Double.unpack (Double.ofSingle x))) := by
  have hsingle : OfSingle (Single.unpack x) := ofSingle_unpack h
  have hrefit := hsingle.refit
  rw [unpack_ofSingle, hrefit.1.settle_eq (by decide), hrefit.1.settle_eq (by decide)]
  exact hrefit

/-- What is no finite single is no finite double. -/
theorem isFinite_of_ofSingle (h : Scalar.isFinite (Double.ofSingle x) = true) :
    Scalar.isFinite x = true := by
  change (Double.unpack (Double.ofSingle x)).isFinite = true at h
  change (Single.unpack x).isFinite = true
  rw [unpack_ofSingle] at h
  generalize Single.unpack x = u at h ⊢
  rcases u with (_ | _) | _ | _ | _
  · cases h
  · cases h
  · cases h
  · rfl
  · rfl

theorem Leans.nonneg {u : UnpackedFloat} (h : Leans .positive u) (hfinite : u.isFinite) :
    Nonneg u := by
  rcases u with _ | _ | _ | _ <;> cases hfinite <;> cases h <;> trivial

/-- The square of a single is not negative. -/
theorem nonneg_mul_self (h : Scalar.isFinite (x * x) = true) : Nonneg (Single.unpack (x * x)) :=
  (Scalar.notNegative_iff.1 (Scalar.notNegative_mul_self x)).nonneg h

/-- Squares of singles are weights. -/
theorem weight_mul_self (h : Scalar.isFinite (Double.ofSingle (x * x)) = true) :
    Nonneg (Double.unpack (Double.ofSingle (x * x))) ∧
      Small (-149) 128 (Double.unpack (Double.ofSingle (x * x))) := by
  have hfinite := isFinite_of_ofSingle h
  have hsingle := small_ofSingle hfinite
  exact ⟨hsingle.2 (nonneg_mul_self hfinite), hsingle.1⟩

end Single

/-- Where the squared distances to the chosen rows are finite, they are probabilities in relation to
their sum. -/
theorem Spread.Chosen.not_unsampled {metric : Metric Float32} {points : Points Float32}
    {s : Spread Float} (h : s.Chosen metric points)
    (hfinite : ∀ row ∈ s.chosen, ∀ ds, squares metric points row = .ok ds →
      ∀ d ∈ ds, Scalar.isFinite (d : Float) = true) : ¬ s.Unsampled := by
  rintro ⟨hpos, hnone⟩
  refine hnone (sampleable_shares ?_ hpos)
  intro w hw
  obtain ⟨⟨d, i⟩, hentry, rfl⟩ := List.mem_map.1 hw
  dsimp only
  split
  · exact ⟨trivial, .inl ⟨.positive, rfl⟩⟩
  · obtain ⟨row, hrow, ds, hds, hmem⟩ :=
      h.exists_squares_of_mem d (List.fst_mem_of_mem_zipIdx hentry)
    have hd := hfinite row hrow ds hds d hmem
    unfold squares at hds
    split at hds
    · obtain ⟨distances, -, rfl⟩ := map_eq_ok.1 hds
      obtain ⟨x, -, rfl⟩ := List.mem_map.1 hmem
      exact weight_mul_self hd
    · cases hds

section Donor

variable {f : Formula Float32} {width : Nat} {points : Points Float32} {c : Cluster Float32}
  {available : List Bool}

/-- Where the distances are those of finite singles, a donor can be chosen. -/
theorem Strategy.admits_of_small {α : Type} [Scalar α] [Widening α Float] {strategy : Strategy}
    {distance : Distance α Float} {donor : Donor α} {ds : Format × List Float}
    (hstrategy : strategy ≠ .refuse) (hpos : donor.points.size ≠ 0)
    (hds : distance.ofMembers donor.points donor.center = .ok ds)
    (hsmall : ∀ x ∈ ds.2, Small (-149) 128 (Double.unpack x)) : strategy.Admits distance donor := by
  cases strategy with
  | refuse => exact hstrategy rfl
  | largestCount => trivial
  | largestVariance =>
    change ∃ v, distanceVariance _ donor.points donor.center = .ok v ∧ _
    unfold distanceVariance
    split
    · exact ⟨0, rfl, by decide⟩
    · rw [hds]
      have hwide := fun x hx => (hsmall x hx).mono (by decide : (-1074 : Int) ≤ -149) le_rfl
      have hlength := Distance.length_ofMembers hds
      have hlong : 2 ≤ ds.2.length := by omega
      exact ⟨_, rfl, isBounded_of_small (small_sampleVariance hwide hlong)⟩
  | farthestPoint =>
    have hgreatest := Scalar.greatest_mem (Distance.ofMembers_ne_nil hpos hds)
    exact ⟨Scalar.greatest ds.2, Scalar.argmax ds.2, map_eq_ok.2 ⟨ds, hds, rfl⟩,
      isBounded_of_small (hsmall _ hgreatest)⟩

/-- Where distances are finite, every donor with points left can be chosen. -/
theorem Strategy.admits_of_finite {strategy : Strategy} (hstrategy : strategy ≠ .refuse)
    (hfit : f.width? points.dim points.dim = some width) (hc : c.Within points)
    (hleft : c.left available ≠ [])
    (hfinite : ∀ row ∈ points.rows, Scalar.isFinite (f.between width row c.center) = true) :
    strategy.Admits (.metric (.formula f) : Distance Float32 Float) (c.donor points available) := by
  have hpos := hc.size_donor_ne_zero hleft
  have hcenter := hc.length_center (Cluster.places_ne_nil hleft)
  refine Strategy.admits_of_small hstrategy hpos (Formula.ofMembers_eq_ok hfit hcenter) ?_
  intro x hx
  obtain ⟨d, hd, rfl⟩ := List.mem_map.1 hx
  obtain ⟨row, hrow, rfl⟩ := List.mem_map.1 hd
  obtain ⟨place, -, hplace⟩ := List.mem_filterMap.1 hrow
  exact (small_ofSingle (hfinite row (List.mem_of_getElem? hplace))).1

/-- Where distances are finite, no reseed is refused. -/
theorem Update.not_stuck {metric : Metric Float32} {strategy : Strategy}
    {clusters : Partition Float32} (hmetric : metric = .formula f)
    (hfit : f.width? points.dim points.dim = some width) (hstrategy : strategy ≠ .refuse)
    (hshares : clusters.Shares points)
    (hfinite : ∀ c ∈ clusters, ∀ ds, metric.distances points c.center = .ok ds →
      ∀ x ∈ ds, Scalar.isFinite x = true) :
    ¬ Update.Stuck points strategy (.metric metric : Distance Float32 Float) clusters := by
  rintro ⟨available, -, -, ⟨c, hc, hleft⟩, hrefused⟩
  have hwithin := hshares.within c hc
  apply hrefused c hc hleft
  rw [hmetric]
  refine Strategy.admits_of_finite hstrategy hfit hwithin hleft ?_
  intro row hrow
  have hdistances := Formula.distances_eq_ok hfit
    (hwithin.length_center (Cluster.places_ne_nil hleft))
  rw [hmetric] at hfinite
  exact hfinite c hc _ hdistances _ (List.mem_map_of_mem hrow)

end Donor

end Centroids

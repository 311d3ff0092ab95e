import Mathlib
import Centroids.Number.Logarithm

/-! Comparisons as a linear order.  NaNs apart, the comparisons of floating point are those of a rank:
the sign first, then the exponent, then the mantissa.  Whatever has such a rank has a least entry at
the place that `argmin` returns. -/
namespace Centroids

open Float.Model (Format UnpackedFloat)
open Float.Model.UnpackedFloat (Sign)

/-- Sign, exponent and mantissa, compared in this order. -/
abbrev Standing := ℤ ×ₗ ℤ ×ₗ ℤ

/-- Below zero, exponents and mantissas count the other way round.  A NaN stands nowhere; its value
here is never used. -/
def standing : UnpackedFloat → Standing
  | .infinity sign => toLex (sign.apply 2, toLex (0, 0))
  | .finite sign mantissa exponent _ =>
    toLex (sign.apply 1, toLex (sign.apply exponent, sign.apply mantissa))
  | .zero _ | .notANumber => toLex (0, toLex (0, 0))

private theorem compare_sign (s t : Sign) : compare s t = compare (s.apply 1) (t.apply 1) := by
  cases s <;> cases t <;> rfl

theorem unpacked_lt_iff (a b : UnpackedFloat) :
    a.lt b = true ↔ a.isNaN = false ∧ b.isNaN = false ∧ standing a < standing b := by
  rcases a with (_ | _) | _ | (_ | _) | ⟨_ | _, m, e, hm⟩ <;>
    rcases b with (_ | _) | _ | (_ | _) | ⟨_ | _, n, f, hn⟩ <;>
    simp [UnpackedFloat.lt, UnpackedFloat.compare, UnpackedFloat.isNaN, standing,
      Prod.Lex.lt_iff, Ordering.then_eq_lt, Ordering.then_eq_gt, Int.compare_eq_lt,
      Int.compare_eq_gt, Nat.compare_eq_lt, Nat.compare_eq_gt, compare_sign, Sign.apply]

theorem unpacked_beq_iff (a b : UnpackedFloat) :
    a.beq b = true ↔ a.isNaN = false ∧ b.isNaN = false ∧ standing a = standing b := by
  rcases a with (_ | _) | _ | (_ | _) | ⟨_ | _, m, e, hm⟩ <;>
    rcases b with (_ | _) | _ | (_ | _) | ⟨_ | _, n, f, hn⟩ <;>
    simp [UnpackedFloat.beq, UnpackedFloat.compare, UnpackedFloat.isNaN, standing,
      Ordering.then_eq_eq, compare_sign, Sign.apply]

/-- Numbers whose comparisons, NaNs apart, are those of a linear order. -/
class Ranked (α : Type) [Scalar α] where
  Rank : Type
  order : LinearOrder Rank
  rank : α → Rank
  lt_iff : ∀ x y : α, Scalar.lt x y = true ↔
    Scalar.isNaN x = false ∧ Scalar.isNaN y = false ∧ rank x < rank y
  beq_iff : ∀ x y : α, (x == y) = true ↔
    Scalar.isNaN x = false ∧ Scalar.isNaN y = false ∧ rank x = rank y

attribute [reducible, instance] Ranked.order

private theorem isNaN_of_beq_iff {α : Type} [Scalar α] {nan : α → Bool} {β : Type} {rank : α → β}
    (h : ∀ x y : α, (x == y) = true ↔ nan x = false ∧ nan y = false ∧ rank x = rank y) (x : α) :
    Scalar.isNaN x = nan x := by
  unfold Scalar.isNaN
  cases hx : nan x with
  | true =>
    have hne : (x == x) ≠ true := by
      rw [Ne, h x x, hx]
      simp
    simp [hne]
  | false =>
    have heq : (x == x) = true := (h x x).2 ⟨hx, hx, rfl⟩
    simp [heq]

theorem float_beq_iff (x y : Float) : (x == y) = true ↔
    x.isNaN = false ∧ y.isNaN = false ∧
      standing x.toModel.unpack = standing y.toModel.unpack :=
  unpacked_beq_iff _ _

theorem float_lt_iff (x y : Float) : Scalar.lt x y = true ↔
    x.isNaN = false ∧ y.isNaN = false ∧
      standing x.toModel.unpack < standing y.toModel.unpack := by
  exact decide_eq_true_iff.trans (unpacked_lt_iff _ _)

instance : Ranked Float where
  Rank := Standing
  order := inferInstance
  rank x := standing x.toModel.unpack
  lt_iff x y := by
    rw [isNaN_of_beq_iff float_beq_iff, isNaN_of_beq_iff float_beq_iff, float_lt_iff]
  beq_iff x y := by
    rw [isNaN_of_beq_iff float_beq_iff, isNaN_of_beq_iff float_beq_iff, float_beq_iff]

theorem single_beq_iff (x y : Float32) : (x == y) = true ↔
    x.isNaN = false ∧ y.isNaN = false ∧
      standing x.toModel.unpack = standing y.toModel.unpack :=
  unpacked_beq_iff _ _

theorem single_lt_iff (x y : Float32) : Scalar.lt x y = true ↔
    x.isNaN = false ∧ y.isNaN = false ∧
      standing x.toModel.unpack < standing y.toModel.unpack := by
  exact decide_eq_true_iff.trans (unpacked_lt_iff _ _)

instance : Ranked Float32 where
  Rank := Standing
  order := inferInstance
  rank x := standing x.toModel.unpack
  lt_iff x y := by
    rw [isNaN_of_beq_iff single_beq_iff, isNaN_of_beq_iff single_beq_iff, single_lt_iff]
  beq_iff x y := by
    rw [isNaN_of_beq_iff single_beq_iff, isNaN_of_beq_iff single_beq_iff, single_beq_iff]

namespace Scalar

variable {α : Type} [Scalar α] [Ranked α]

theorem le_iff (x y : α) : le x y = true ↔
    isNaN x = false ∧ isNaN y = false ∧ Ranked.rank x ≤ Ranked.rank y := by
  unfold le
  rw [Bool.or_eq_true, Ranked.lt_iff, Ranked.beq_iff, le_iff_lt_or_eq]
  tauto

theorem le_refl {x : α} (h : isNaN x = false) : le x x = true := by
  rw [le_iff]
  exact ⟨h, h, le_rfl⟩

theorem le_trans {x y z : α} (hxy : le x y = true) (hyz : le y z = true) : le x z = true := by
  rw [le_iff] at hxy hyz ⊢
  exact ⟨hxy.1, hyz.2.1, hxy.2.2.trans hyz.2.2⟩

theorem lt_of_not_le {x y : α} (hx : isNaN x = false) (hy : isNaN y = false)
    (h : le x y ≠ true) : lt y x = true := by
  rw [Ne, le_iff] at h
  rw [Ranked.lt_iff]
  exact ⟨hy, hx, lt_of_not_ge fun hle => h ⟨hx, hy, hle⟩⟩

theorem lt_asymm {x y : α} (h : lt x y = true) : lt y x = false := by
  rw [Ranked.lt_iff] at h
  rw [Bool.eq_false_iff, Ne, Ranked.lt_iff]
  exact fun hlt => h.2.2.asymm hlt.2.2

theorem le_of_lt {x y : α} (h : lt x y = true) : le x y = true := by
  rw [Ranked.lt_iff] at h
  rw [le_iff]
  exact ⟨h.1, h.2.1, h.2.2.le⟩

theorem lt_of_lt_le {x y z : α} (hxy : lt x y = true) (hyz : le y z = true) : lt x z = true := by
  rw [Ranked.lt_iff] at hxy ⊢
  rw [le_iff] at hyz
  exact ⟨hxy.1, hyz.2.1, hxy.2.2.trans_le hyz.2.2⟩

theorem below_iff {x best : α} (hx : isNaN x = false) (hbest : isNaN best = false) :
    below x best = true ↔ Ranked.rank x < Ranked.rank best := by
  unfold below
  simp [hx, hbest, Ranked.lt_iff]

end Scalar

/-- Where entries beat each other by a smaller rank, the leader has the smallest. -/
theorem rank_leader_le {α κ : Type} [LinearOrder κ] {beats : α → α → Bool} {rank : α → κ}
    (best : Nat × α) (i : Nat) (xs : List α)
    (h : ∀ x ∈ best.2 :: xs, ∀ y ∈ best.2 :: xs, beats x y = true ↔ rank x < rank y) :
    ∀ x ∈ best.2 :: xs, rank (leader beats best i xs).2 ≤ rank x := by
  induction xs generalizing best i with
  | nil => simp [leader]
  | cons y ys ih =>
    rw [leader]
    have hmem : ∀ x ∈ (if beats y best.2 then (i, y) else best).2 :: ys, x ∈ best.2 :: y :: ys := by
      intro x hx
      split at hx <;> simp only [List.mem_cons] at hx ⊢ <;> tauto
    have hle := ih _ (i + 1) fun x hx z hz => h x (hmem x hx) z (hmem z hz)
    -- The new leader is at most the one before it and at most the entry it met.
    have hlead : rank (if beats y best.2 then (i, y) else best).2 ≤ rank best.2 ∧
        rank (if beats y best.2 then (i, y) else best).2 ≤ rank y := by
      have hy := h y (by simp) best.2 (by simp)
      split
      · rename_i hb
        exact ⟨(hy.1 hb).le, le_rfl⟩
      · rename_i hb
        exact ⟨le_rfl, le_of_not_gt fun hlt => hb (hy.2 hlt)⟩
    have hfirst := hle _ (List.mem_cons_self ..)
    intro x hx
    rcases List.mem_cons.1 hx with rfl | hx
    · exact hfirst.trans hlead.1
    · rcases List.mem_cons.1 hx with rfl | hx
      · exact hfirst.trans hlead.2
      · exact hle x (List.mem_cons_of_mem _ hx)

/-- The leader that took over last beats the one before it and all that it met on the way, not only
those that come after it. -/
theorem rank_leader_lt {α κ : Type} [LinearOrder κ] {beats : α → α → Bool} {rank : α → κ}
    (best : Nat × α) (i : Nat) (xs : List α) (hi : best.1 < i)
    (h : ∀ x ∈ best.2 :: xs, ∀ y ∈ best.2 :: xs, beats x y = true ↔ rank x < rank y) :
    (best.1 < (leader beats best i xs).1 → rank (leader beats best i xs).2 < rank best.2) ∧
      ∀ j x, xs[j]? = some x → i + j < (leader beats best i xs).1 →
        rank (leader beats best i xs).2 < rank x := by
  induction xs generalizing best i with
  | nil => simp [leader]
  | cons y ys ih =>
    have hy := h y (by simp) best.2 (by simp)
    have hle := rank_leader_le best i (y :: ys) h
    rw [leader] at hle ⊢
    by_cases hbeats : beats y best.2 = true
    · rw [if_pos hbeats] at hle ⊢
      have hrest := ih (i, y) (i + 1) (by simp) fun x hx z hz =>
        h x (by simp at hx ⊢; tauto) z (by simp at hz ⊢; tauto)
      refine ⟨fun _ => (hle y (by simp)).trans_lt (hy.1 hbeats), ?_⟩
      intro j x hx hj
      cases j with
      | zero =>
        rw [← show y = x by simpa using hx]
        exact hrest.1 (by simpa using hj)
      | succ j => exact hrest.2 j x (by simpa using hx) (by omega)
    · rw [if_neg hbeats] at hle ⊢
      have hrest := ih best (i + 1) (by omega) fun x hx z hz =>
        h x (by simp at hx ⊢; tauto) z (by simp at hz ⊢; tauto)
      refine ⟨hrest.1, ?_⟩
      intro j x hx hj
      cases j with
      | zero =>
        have hbest := hrest.1 (by omega)
        have hge : rank best.2 ≤ rank y := le_of_not_gt fun hlt => hbeats (hy.2 hlt)
        rw [← show y = x by simpa using hx]
        exact hbest.trans_le hge
      | succ j => exact hrest.2 j x (by simpa using hx) (by omega)

theorem rank_lt_of_lt_leader {α κ : Type} [LinearOrder κ] {beats : α → α → Bool} {rank : α → κ}
    {x y : α} {ys : List α} {j : Nat}
    (h : ∀ x ∈ y :: ys, ∀ z ∈ y :: ys, beats x z = true ↔ rank x < rank z)
    (hj : j < (leader beats (0, y) 1 ys).1) (hx : (y :: ys)[j]? = some x) :
    rank (leader beats (0, y) 1 ys).2 < rank x := by
  have hfirst := rank_leader_lt (0, y) 1 ys (by simp) h
  cases j with
  | zero =>
    rw [← show y = x by simpa using hx]
    exact hfirst.1 hj
  | succ j => exact hfirst.2 j x (by simpa using hx) (by rwa [Nat.add_comm])

namespace Scalar

variable {α : Type} [Scalar α] {xs : List α} {m : α}

theorem leader_of_argmin {y : α} {ys : List α} (hm : (y :: ys)[argmin (y :: ys)]? = some m) :
    (leader below (0, y) 1 ys).2 = m := by
  have hat := get_leader_fst below y ys
  rw [List.get_eq_getElem] at hat
  rw [← hat]
  exact (List.getElem?_eq_some_iff.1 hm).2

theorem getElem?_argmax (hne : xs ≠ []) : xs[argmax xs]? = some (greatest xs) := by
  cases xs with
  | nil => contradiction
  | cons y ys =>
    rw [List.getElem?_eq_getElem (argmax_lt hne)]
    exact congrArg some (get_leader_fst above y ys)

theorem greatest_mem (hne : xs ≠ []) : greatest xs ∈ xs :=
  List.mem_of_getElem? (getElem?_argmax hne)

variable [Ranked α]

theorem le_of_argmin (hm : xs[argmin xs]? = some m) (h : ∀ x ∈ xs, isNaN x = false) :
    ∀ x ∈ xs, le m x = true := by
  cases xs with
  | nil => simp
  | cons y ys =>
    intro x hx
    have hrank := rank_leader_le (0, y) 1 ys (fun a ha b hb => below_iff (h a ha) (h b hb)) x hx
    rw [leader_of_argmin hm] at hrank
    rw [le_iff]
    exact ⟨h m (List.mem_of_getElem? hm), h x hx, hrank⟩

/-- Of several least entries, `argmin` is the place of the first. -/
theorem lt_of_lt_argmin (hm : xs[argmin xs]? = some m) (h : ∀ x ∈ xs, isNaN x = false) {j : Nat}
    {x : α} (hj : j < argmin xs) (hx : xs[j]? = some x) : lt m x = true := by
  cases xs with
  | nil => simp at hx
  | cons y ys =>
    have hfirst := rank_lt_of_lt_leader (fun a ha b hb => below_iff (h a ha) (h b hb)) hj hx
    rw [leader_of_argmin hm] at hfirst
    rw [Ranked.lt_iff]
    exact ⟨h m (List.mem_of_getElem? hm), h x (List.mem_of_getElem? hx), hfirst⟩

theorem above_iff {x best : α} (hx : isNaN x = false) (hbest : isNaN best = false) :
    above x best = true ↔
      OrderDual.toDual (Ranked.rank x) < OrderDual.toDual (Ranked.rank best) := by
  unfold above
  simp [hx, hbest, Ranked.lt_iff]

theorem le_greatest (h : ∀ x ∈ xs, isNaN x = false) : ∀ x ∈ xs, le x (greatest xs) = true := by
  intro x hx
  have hgreatest := h _ (greatest_mem (List.ne_nil_of_mem hx))
  rw [le_iff]
  refine ⟨h x hx, hgreatest, ?_⟩
  cases xs with
  | nil => cases hx
  | cons y ys =>
    have habove := fun a ha b hb => @above_iff α _ _ a b (h a ha) (h b hb)
    exact rank_leader_le (0, y) 1 ys habove x hx

/-- Of several greatest entries, `argmax` is the place of the first. -/
theorem lt_greatest_of_lt_argmax (h : ∀ x ∈ xs, isNaN x = false) {j : Nat} {x : α}
    (hj : j < argmax xs) (hx : xs[j]? = some x) : lt x (greatest xs) = true := by
  have hmem := List.mem_of_getElem? hx
  have hgreatest := h _ (greatest_mem (List.ne_nil_of_mem hmem))
  rw [Ranked.lt_iff]
  refine ⟨h x hmem, hgreatest, ?_⟩
  cases xs with
  | nil => cases hmem
  | cons y ys =>
    have habove := fun a ha b hb => @above_iff α _ _ a b (h a ha) (h b hb)
    exact rank_lt_of_lt_leader habove hj hx

end Scalar

/-- A NaN takes the lead from every number, and keeps it. -/
theorem isNaN_leader_above {α : Type} [Scalar α] (best : Nat × α) (i : Nat) (xs : List α) :
    Scalar.isNaN (leader Scalar.above best i xs).2 = true ↔
      ∃ x ∈ best.2 :: xs, Scalar.isNaN x = true := by
  induction xs generalizing best i with
  | nil => simp [leader]
  | cons x xs ih =>
    rw [leader, ih]
    unfold Scalar.above
    cases hbest : Scalar.isNaN best.2 with
    | true => simp [hbest]
    | false =>
      cases hx : Scalar.isNaN x with
      | true => simp [hx]
      | false => by_cases hlt : Scalar.lt best.2 x = true <;> simp [hbest, hx, hlt]

theorem Scalar.isNaN_greatest {α : Type} [Scalar α] {xs : List α} (hne : xs ≠ []) :
    Scalar.isNaN (Scalar.greatest xs) = true ↔ ∃ x ∈ xs, Scalar.isNaN x = true := by
  cases xs with
  | nil => contradiction
  | cons x xs => exact isNaN_leader_above (0, x) 1 xs

end Centroids

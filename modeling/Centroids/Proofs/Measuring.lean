import Centroids.Proofs.Weighing

/-! What donors are measured by.  A variance and a distance by a formula are not negative, whatever
overflows on the way; so a measure that does not count is a NaN. -/
namespace Centroids

open Float.Model (UnpackedFloat)

section Double

variable {x : Float} {xs : List Float}

theorem isBounded_iff : Scalar.isBounded x = true ↔
    Scalar.isNaN x = false ∧ standing (.infinity .negative) < Ranked.rank x := by
  have hlow : Scalar.isNaN (Double.pack (.infinity .negative)) = false := by decide
  change Scalar.lt (Double.pack (.infinity .negative)) x = true ↔ _
  rw [Ranked.lt_iff]
  constructor
  · exact fun h => h.2
  · exact fun h => ⟨hlow, h⟩

theorem Scalar.NotNegative.isBounded_iff (h : NotNegative x) :
    isBounded x = true ↔ isNaN x = false := by
  rw [Centroids.isBounded_iff, and_iff_left_iff_imp]
  intro hnan
  have hle : Ranked.rank (0 : Float) ≤ Ranked.rank x := by
    apply le_of_not_gt
    intro hlt
    have hless := (Ranked.lt_iff x 0).2 ⟨hnan, by decide, hlt⟩
    rw [h] at hless
    cases hless
  refine lt_of_lt_of_le ?_ hle
  exact Prod.Lex.left _ _ (by decide)

/-- A count is a divisor that keeps signs. -/
theorem notNegative_ofNat {n : Nat} (hn : 0 < n) : Scalar.NotNegative (Scalar.ofNat n : Float) ∧
    ∀ sign, Formatted.unpack (Scalar.ofNat n : Float) ≠ .zero sign := by
  constructor
  · rw [Scalar.notNegative_iff]
    exact (Leans.normalize (Int.natCast_nonneg n) 0).store.store
  · intro sign hzero
    rcases unpack_ofNat hn with ⟨t, hinfinite⟩ | ⟨high, hsized⟩
    · exact UnpackedFloat.noConfusion (hzero.symm.trans hinfinite)
    · change Double.unpack _ = _ at hzero
      rw [hzero] at hsized
      cases hsized

theorem notNegative_sampleVariance (hlength : 2 ≤ xs.length) :
    Scalar.NotNegative (sampleVariance xs) := by
  obtain ⟨hcount, hne⟩ := notNegative_ofNat (n := xs.length - 1) (by omega)
  refine Scalar.NotNegative.div ?_ hcount hne
  apply Scalar.notNegative_total
  intro y hy
  obtain ⟨x, -, rfl⟩ := List.mem_map.1 hy
  exact Scalar.notNegative_mul_self _

variable {α : Type} [Scalar α] [Widening α Float] {points : Points α} {center : List α}

theorem notNegative_distanceVariance {distance : Distance α Float} {v : Float}
    (h : distanceVariance distance points center = .ok v) : Scalar.NotNegative v := by
  unfold distanceVariance at h
  split at h
  · cases h
    exact Scalar.notNegative_zero
  · obtain ⟨ds, hds, rfl⟩ := map_eq_ok.1 h
    have hlength := Distance.length_ofMembers hds
    exact notNegative_sampleVariance (by omega)

/-- Numbers that are carried into doubles without change of their sign. -/
class SignKept (α : Type) [Scalar α] [Widening α Float] : Prop where
  widen : ∀ x : α, Scalar.NotNegative x → Scalar.NotNegative (Widening.widen x : Float)

instance : SignKept Float := ⟨fun _ h => h⟩

instance : SignKept Float32 where
  widen x h := by
    rw [Scalar.notNegative_iff] at h ⊢
    exact h.refit.store.store

theorem notNegative_ofMembers [Formatted α] [SignKept α] {f : Formula α} (hf : f.Accepted)
    {ds : Format × List Float}
    (h : (Distance.metric (.formula f) : Distance α Float).ofMembers points center = .ok ds) :
    ∀ d ∈ ds.2, Scalar.NotNegative d := by
  obtain ⟨distances, hdistances, h⟩ := bind_eq_ok.1 h
  cases h
  intro d hd
  obtain ⟨x, hx, rfl⟩ := List.mem_map.1 hd
  unfold Formula.distances at hdistances
  split at hdistances
  · cases hdistances
    obtain ⟨row, -, rfl⟩ := List.mem_map.1 hx
    exact SignKept.widen _ (Formula.notNegative_between hf _ row center)
  · cases hdistances

end Double

end Centroids

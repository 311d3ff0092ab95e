import Centroids.Proofs.Magnitude
import Centroids.Proofs.Ranking
import Centroids.Metric

/-! Signs of floating point.  Rounding and storing keep the sign of a number, so that sums, products
and quotients of numbers that are not negative are not negative either, whatever is rounded away and
wherever the range ends.  No formula of a distance is negative, then: it may be a NaN. -/
namespace Centroids

open Float.Model (UnpackedFloat)
open Float.Model.UnpackedFloat (Sign packComponents roundWithAccuracy)

/-- A NaN, a zero, or of this sign. -/
def Leans (s : Sign) : UnpackedFloat → Prop
  | .infinity t | .finite t _ _ _ => t = s
  | .zero _ | .notANumber => True

namespace Leans

variable {format : Float.Model.Format} {s t : Sign} {u v : UnpackedFloat}

theorem exists_sign (u : UnpackedFloat) : ∃ s, Leans s u := by
  cases u with
  | infinity s => exact ⟨s, rfl⟩
  | finite s m e hm => exact ⟨s, rfl⟩
  | zero s => exact ⟨s, trivial⟩
  | notANumber => exact ⟨.positive, trivial⟩

theorem lt_zero_eq_false_iff : u.lt (.zero .positive) = false ↔ Leans .positive u := by
  rcases u with (_ | _) | _ | (_ | _) | ⟨_ | _, m, e, hm⟩ <;>
    simp [UnpackedFloat.lt, UnpackedFloat.compare, Leans]

/-- What is not less than something above zero is not zero either. -/
theorem of_not_lt {sign : Sign} (hv : UnpackedFloat.lt (.zero sign) v = true)
    (h : u.lt v = false) : Leans .positive u ∧ ∀ sign, u ≠ .zero sign := by
  rcases v with (_ | _) | _ | (_ | _) | ⟨_ | _, n, f, hn⟩ <;> cases hv <;>
    rcases u with (_ | _) | _ | (_ | _) | ⟨_ | _, m, e, hm⟩ <;>
    simp_all [UnpackedFloat.lt, UnpackedFloat.compare, Leans,
      show compare Sign.negative Sign.positive = .lt from rfl]

theorem round {m : Nat} {e : Int} {a : UnpackedFloat.Accuracy} :
    Leans s (roundWithAccuracy format s m e a) := by
  unfold roundWithAccuracy
  dsimp only
  split <;> trivial

theorem normalize {n : Int} (hn : 0 ≤ n) (e : Int) :
    Leans .positive (.normalize format n e .positive) := by
  unfold UnpackedFloat.normalize
  split
  · rename_i hlt
    rw [Int.compare_eq_lt] at hlt
    omega
  · trivial
  · exact round

theorem refit (h : Leans s u) : Leans s (refit format u) := by
  cases u with
  | finite t m e hm =>
    cases h
    exact round
  | _ => exact h

section Store

theorem unpack_components (s : Sign) (exponent : BitVec format.exponentBits)
    (mantissa : BitVec format.mantissaBitsWithoutImplicit) :
    Leans s (.unpack format (packComponents format s exponent mantissa)) := by
  unfold UnpackedFloat.unpack
  simp only [UnpackedFloat.unpackMantissa_packComponents,
    UnpackedFloat.unpackExponent_packComponents, unpackSign_components, ofBitVec_toBitVec]
  split
  · split <;> trivial
  · split
    · split <;> trivial
    · trivial

/-- What is stored keeps its sign, if it does not become zero. -/
theorem store (h : Leans s u) : Leans s (.unpack format (UnpackedFloat.pack format u)) := by
  cases u with
  | notANumber =>
    change Leans s (.unpack format (UnpackedFloat.packedNaN format))
    rw [UnpackedFloat.unpack_packedNaN]
    trivial
  | infinity t =>
    cases h
    exact unpack_components s _ _
  | zero t =>
    change Leans s (.unpack format (UnpackedFloat.packedZero format t))
    rw [UnpackedFloat.unpack_packedZero]
    trivial
  | finite t m e hm =>
    cases h
    unfold UnpackedFloat.pack
    dsimp only
    split
    · exact unpack_components s _ _
    · split <;> exact unpack_components s _ _

end Store

section Operations

theorem abs (u : UnpackedFloat) : Leans .positive u.abs := by
  cases u <;> trivial

theorem sqrt (u : UnpackedFloat) : Leans .positive (u.sqrt format) := by
  rcases u with (_ | _) | _ | _ | @⟨_ | _, m, e, hm⟩ <;> try trivial
  exact round

theorem mul (hu : Leans s u) (hv : Leans t v) : Leans (s * t) (.mul format u v) := by
  rcases u with _ | _ | _ | _ <;> cases hu <;> rcases v with _ | _ | _ | _ <;> cases hv <;>
    first | trivial | exact round

/-- A quotient by zero would have the sign of that zero. -/
theorem div (hu : Leans s u) (hv : Leans t v) (hne : ∀ sign, v ≠ .zero sign) :
    Leans (s / t) (.div format u v) := by
  rcases u with _ | _ | _ | _ <;> cases hu <;> rcases v with _ | _ | sign | _ <;> cases hv <;>
    first | trivial | exact round | exact absurd rfl (hne sign)

theorem add (hu : Leans .positive u) (hv : Leans .positive v) :
    Leans .positive (.add format u v) := by
  rcases u with _ | _ | a | ⟨_, m, e, hm⟩ <;> cases hu <;>
    rcases v with _ | _ | b | ⟨_, n, f, hn⟩ <;> cases hv <;> try trivial
  · cases a <;> cases b <;> trivial
  · exact normalize (Int.add_nonneg (Int.natCast_nonneg _) (Int.natCast_nonneg _)) _

end Operations

end Leans

/-- Numbers that are stored in a format.  An operation is done on unpacked numbers, and its result is
stored. -/
class Formatted (α : Type) [Scalar α] where
  format : Float.Model.Format
  unpack : α → UnpackedFloat
  unpack_zero : unpack 0 = .zero .positive
  lt_iff : ∀ x y : α, Scalar.lt x y = true ↔ (unpack x).lt (unpack y) = true
  unpack_add : ∀ x y : α, unpack (x + y) =
    .unpack format (UnpackedFloat.pack format (.add format (unpack x) (unpack y)))
  unpack_mul : ∀ x y : α, unpack (x * y) =
    .unpack format (UnpackedFloat.pack format (.mul format (unpack x) (unpack y)))
  unpack_div : ∀ x y : α, unpack (x / y) =
    .unpack format (UnpackedFloat.pack format (.div format (unpack x) (unpack y)))
  unpack_sqrt : ∀ x : α, unpack (Scalar.sqrt x) =
    .unpack format (UnpackedFloat.pack format (.sqrt format (unpack x)))
  unpack_abs : ∀ x : α, unpack (Scalar.abs x) =
    .unpack format (UnpackedFloat.pack format (unpack x).abs)
  lt_tiny : Scalar.lt (0 : α) Scalar.tiny = true

instance : Formatted Float32 where
  format := .binary32
  unpack := Single.unpack
  unpack_zero := rfl
  lt_iff _ _ := decide_eq_true_iff
  unpack_add _ _ := rfl
  unpack_mul _ _ := rfl
  unpack_div _ _ := rfl
  unpack_sqrt _ := rfl
  unpack_abs _ := rfl
  lt_tiny := by decide +kernel

instance : Formatted Float where
  format := .binary64
  unpack := Double.unpack
  unpack_zero := rfl
  lt_iff _ _ := decide_eq_true_iff
  unpack_add _ _ := rfl
  unpack_mul _ _ := rfl
  unpack_div _ _ := rfl
  unpack_sqrt _ := rfl
  unpack_abs _ := rfl
  lt_tiny := by decide +kernel

namespace Scalar

variable {α : Type} [Scalar α]

/-- Not less than zero; nor is a NaN. -/
def NotNegative (x : α) : Prop := lt x 0 = false

variable [Formatted α] {w x y : α} {xs : List α}

theorem notNegative_iff : NotNegative x ↔ Leans .positive (Formatted.unpack x) := by
  unfold NotNegative
  have hzero : Formatted.unpack (0 : α) = .zero .positive := Formatted.unpack_zero
  rw [← Leans.lt_zero_eq_false_iff, ← hzero, ← Bool.not_eq_true, ← Bool.not_eq_true,
    Formatted.lt_iff]

theorem lt_self (x : α) : lt x x = false := by
  rw [← Bool.not_eq_true, Formatted.lt_iff, unpacked_lt_iff]
  exact fun h => lt_irrefl _ h.2.2

theorem notNegative_zero : NotNegative (0 : α) := by
  rw [notNegative_iff, Formatted.unpack_zero]
  trivial

theorem notNegative_abs (x : α) : NotNegative (abs x) := by
  rw [notNegative_iff, Formatted.unpack_abs]
  exact (Leans.abs _).store

theorem notNegative_sqrt (x : α) : NotNegative (sqrt x) := by
  rw [notNegative_iff, Formatted.unpack_sqrt]
  exact (Leans.sqrt _).store

theorem notNegative_mul_self (x : α) : NotNegative (x * x) := by
  obtain ⟨s, hx⟩ := Leans.exists_sign (Formatted.unpack x)
  have hsquare : s * s = .positive := by cases s <;> rfl
  rw [notNegative_iff, Formatted.unpack_mul, ← hsquare]
  exact (hx.mul hx).store

/-- A weight that is not negative does not change the sign of a difference. -/
theorem NotNegative.weigh (hw : NotNegative w) (x : α) : NotNegative (Formula.weigh w x) := by
  obtain ⟨s, hx⟩ := Leans.exists_sign (Formatted.unpack x)
  rw [notNegative_iff] at hw
  have hweighed : Leans (.positive * s) (Formatted.unpack (w * x)) := by
    rw [Formatted.unpack_mul]
    exact (hw.mul hx).store
  have hsquare : .positive * s * s = Sign.positive := by cases s <;> rfl
  unfold Formula.weigh
  rw [notNegative_iff, Formatted.unpack_mul, ← hsquare]
  exact (hweighed.mul hx).store

theorem NotNegative.add (hx : NotNegative x) (hy : NotNegative y) : NotNegative (x + y) := by
  rw [notNegative_iff] at hx hy ⊢
  rw [Formatted.unpack_add]
  exact (hx.add hy).store

theorem NotNegative.div (hx : NotNegative x) (hy : NotNegative y)
    (hne : ∀ sign, Formatted.unpack y ≠ .zero sign) : NotNegative (x / y) := by
  rw [notNegative_iff] at hx hy ⊢
  rw [Formatted.unpack_div]
  exact (hx.div hy hne).store

/-- A denominator that is not below the least one is not zero. -/
theorem notNegative_of_not_lt (hy : lt y tiny = false) :
    NotNegative y ∧ ∀ sign, Formatted.unpack y ≠ .zero sign := by
  have htiny := (Formatted.lt_iff (0 : α) tiny).1 Formatted.lt_tiny
  rw [Formatted.unpack_zero] at htiny
  rw [← Bool.not_eq_true, Formatted.lt_iff, Bool.not_eq_true] at hy
  obtain ⟨hpos, hne⟩ := Leans.of_not_lt htiny hy
  exact ⟨notNegative_iff.2 hpos, hne⟩

theorem NotNegative.div_of_not_lt (hx : NotNegative x) (hy : lt y tiny = false) :
    NotNegative (x / y) :=
  hx.div (notNegative_of_not_lt hy).1 (notNegative_of_not_lt hy).2

theorem notNegative_total (h : ∀ x ∈ xs, NotNegative x) : NotNegative (total xs) := by
  induction xs using List.reverseRecOn with
  | nil => exact notNegative_zero
  | append_singleton xs x ih =>
    rw [List.forall_mem_append, List.forall_mem_singleton] at h
    rw [total_concat]
    exact (ih h.1).add h.2

theorem notNegative_greatest (h : ∀ x ∈ xs, NotNegative x) : NotNegative (greatest xs) := by
  cases xs with
  | nil => exact notNegative_zero
  | cons x xs => exact h _ (greatest_mem (List.cons_ne_nil x xs))

end Scalar

namespace Formula

variable {α : Type} [Scalar α]

/-- Weights, if there are any, are such as are accepted. -/
def Accepted : Formula α → Prop
  | weighted weights _ => checkWeights (.ofList weights) = .ok weights
  | _ => True

theorem Accepted.notNegative {weights : List α} {squared : Bool}
    (h : (weighted weights squared).Accepted) : ∀ w ∈ weights, Scalar.NotNegative w := by
  change checkWeights (.ofList weights) = .ok weights at h
  unfold checkWeights at h
  split at h
  · cases h
  · split at h
    · cases h
    · rename_i hnone
      rw [Grid.toList_ofList] at hnone
      intro w hw
      have hfalse := List.any_eq_false.1 (Bool.eq_false_iff.2 hnone) w hw
      exact Bool.eq_false_iff.2 hfalse

theorem notNegative_zipWith {g : α → α → α} (h : ∀ x y, Scalar.NotNegative (g x y))
    (xs ys : List α) : ∀ z ∈ List.zipWith g xs ys, Scalar.NotNegative z := by
  intro z hz
  obtain ⟨i, hi, rfl⟩ := List.mem_iff_getElem.1 hz
  rw [List.getElem_zipWith]
  exact h _ _

variable [Formatted α] {f : Formula α}

theorem notNegative_quotient (x c : α) : Scalar.NotNegative (canberra.part x c) := by
  change Scalar.NotNegative (if _ then _ else _)
  split
  · exact Scalar.notNegative_zero
  · apply (Scalar.notNegative_abs _).div_of_not_lt
    unfold Scalar.atLeast
    split
    · exact Scalar.lt_self _
    · rename_i hle
      exact Bool.eq_false_iff.2 hle

theorem notNegative_parts (hf : f.Accepted) (width : Nat) (point center : List α) :
    ∀ x ∈ f.parts width point center, Scalar.NotNegative x := by
  cases f with
  | euclidean squared => exact notNegative_zipWith (fun _ _ => Scalar.notNegative_mul_self _) _ _
  | weighted weights squared =>
    intro x hx
    obtain ⟨i, hi, rfl⟩ := List.mem_iff_getElem.1 hx
    simp only [parts, List.getElem_zipWith]
    have hweights : ∀ x ∈ stretchRow width weights, Scalar.NotNegative x :=
      forall_stretchRow Scalar.notNegative_zero hf.notNegative
    exact (hweights _ (List.getElem_mem _)).weigh _
  | manhattan => exact notNegative_zipWith (fun _ _ => Scalar.notNegative_abs _) _ _
  | chebyshev => exact notNegative_zipWith (fun _ _ => Scalar.notNegative_abs _) _ _
  | canberra => exact notNegative_zipWith notNegative_quotient _ _

/-- A distance is not negative, whatever overflows on the way. -/
theorem notNegative_between (hf : f.Accepted) (width : Nat) (point center : List α) :
    Scalar.NotNegative (f.between width point center) := by
  have hparts := notNegative_parts hf width point center
  have hgather : Scalar.NotNegative (f.gather (f.parts width point center)) := by
    cases f with
    | chebyshev => exact Scalar.notNegative_greatest hparts
    | _ => exact Scalar.notNegative_total hparts
  unfold between
  cases f with
  | euclidean squared =>
    cases squared with
    | false => exact Scalar.notNegative_sqrt _
    | true => exact hgather
  | weighted weights squared =>
    cases squared with
    | false => exact Scalar.notNegative_sqrt _
    | true => exact hgather
  | _ => exact hgather

end Formula

end Centroids

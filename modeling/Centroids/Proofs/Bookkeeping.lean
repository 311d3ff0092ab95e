import Centroids.Proofs.Choosing
import Centroids.Proofs.Monotone
import Centroids.Proofs.Sampling
import Centroids.Proofs.Measuring

/-! What a seeding that draws rows one by one keeps account of.  Whatever candidates are tried, each row
holds the squared distance to the nearest of all chosen rows; the weights are these distances, without
those of chosen rows; and the first of the candidates with the smallest potential is kept, so that
the potential never grows. -/
namespace Centroids

open Float.Model (UnpackedFloat)
open Float.Model.UnpackedFloat (Sign packComponents)

section Numbers

variable {format : Float.Model.Format} {u : UnpackedFloat}

theorem isNaN_unpack_components {sign : Sign} {exponent : BitVec format.exponentBits}
    {mantissa : BitVec format.mantissaBitsWithoutImplicit} (h : exponent ≠ -1#_ ∨ mantissa = 0#_) :
    (UnpackedFloat.unpack format (packComponents format sign exponent mantissa)).isNaN = false := by
  unfold UnpackedFloat.unpack
  simp only [UnpackedFloat.unpackMantissa_packComponents,
    UnpackedFloat.unpackExponent_packComponents]
  split
  · rename_i hmax
    rw [if_pos (h.resolve_left (not_not_intro hmax))]
    rfl
  · split
    · split <;> rfl
    · rfl

theorem ofNat_ne_neg_one {bits n : Nat} (h : ¬ 2 ^ bits ≤ n + 1) :
    BitVec.ofNat bits n ≠ -BitVec.ofNat bits 1 := by
  intro heq
  have hvalue := congrArg BitVec.toNat heq
  rw [BitVec.neg_one_eq_allOnes, BitVec.toNat_allOnes, BitVec.toNat_ofNat,
    Nat.mod_eq_of_lt (by omega)] at hvalue
  omega

/-- What is stored is a number if it was one before. -/
theorem isNaN_store (h : u.isNaN = false) :
    (UnpackedFloat.unpack format (UnpackedFloat.pack format u)).isNaN = false := by
  have hbits : 2 ≤ 2 ^ format.exponentBits := by
    have := Nat.pow_le_pow_right (show 0 < 2 by decide) format.he
    simpa using this
  cases u with
  | notANumber => cases h
  | infinity sign => exact isNaN_unpack_components (.inr rfl)
  | zero sign => exact isNaN_unpack_components (.inl (ofNat_ne_neg_one (n := 0) (by omega)))
  | finite sign m e hm =>
    unfold UnpackedFloat.pack
    dsimp only
    split
    · exact isNaN_unpack_components (.inr rfl)
    · rename_i hfits
      split
      · exact isNaN_unpack_components (.inl (ofNat_ne_neg_one hfits))
      · exact isNaN_unpack_components (.inl (ofNat_ne_neg_one (n := 0) (by omega)))

theorem isNaN_round {sign : Sign} {m : Nat} {e : Int} {a : UnpackedFloat.Accuracy} :
    (UnpackedFloat.roundWithAccuracy format sign m e a).isNaN = false := by
  unfold UnpackedFloat.roundWithAccuracy
  dsimp only
  split <;> rfl

theorem isNaN_mul_self (h : u.isNaN = false) : (UnpackedFloat.mul format u u).isNaN = false := by
  cases u with
  | notANumber => cases h
  | finite sign m e hm => exact isNaN_round
  | _ => rfl

theorem isNaN_refit (h : u.isNaN = false) : (refit format u).isNaN = false := by
  cases u with
  | notANumber => cases h
  | finite sign m e hm => exact isNaN_round
  | _ => rfl

/-- Numbers of which squares, as doubles, are numbers. -/
class SquareKept (α : Type) [Scalar α] [Widening α Float] : Prop where
  isNaN_square : ∀ x : α, Scalar.isNaN x = false →
    Scalar.isNaN (Widening.widen (x * x) : Float) = false

instance : SquareKept Float where
  isNaN_square x hx := by
    rw [isNaN_eq_false_iff] at hx
    exact isNaN_eq_false_iff.2 (isNaN_store (isNaN_mul_self hx))

instance : SquareKept Float32 where
  isNaN_square x hx := by
    have hself : (x == x) = true := by simpa [Scalar.isNaN] using hx
    have hclean : (Single.unpack x).isNaN = false := ((single_beq_iff x x).1 hself).1
    exact isNaN_eq_false_iff.2
      (isNaN_store (isNaN_store (isNaN_refit (isNaN_store (isNaN_mul_self hclean)))))

/-- A square is an amount, unless it is that of a NaN. -/
theorem isAmount_square {α : Type} [Scalar α] [Widening α Float] [Formatted α] [SignKept α]
    [SquareKept α] {x : α} (hx : Scalar.isNaN x = false) :
    Scalar.IsAmount (Widening.widen (x * x) : Float) :=
  ⟨SignKept.widen _ (Scalar.notNegative_mul_self x), SquareKept.isNaN_square x hx⟩

end Numbers

/-- A list of calculations changes no state. -/
theorem step_mapM_lift_eq_ok {σ β γ : Type} {f : β → Except Fault γ} {xs : List β} {ys : List γ}
    {s t : σ} : (xs.mapM fun x => (liftM (f x) : EStateM Fault σ γ)) s = .ok ys t ↔
      xs.map f = ys.map .ok ∧ s = t := by
  induction xs generalizing ys s with
  | nil => cases ys <;> simp [step_pure_eq_ok]
  | cons x xs ih =>
    simp only [step_mapM_cons_eq_ok, step_lift_eq_ok, ih]
    constructor
    · rintro ⟨y, u, zs, ⟨hy, rfl⟩, ⟨hzs, rfl⟩, rfl⟩
      simp [hy, hzs]
    · rintro ⟨hall, rfl⟩
      obtain ⟨y, zs, rfl, hy, hzs⟩ := List.map_eq_cons_iff.1 hall.symm
      exact ⟨y, s, zs, ⟨hy.symm, rfl⟩, ⟨hzs.symm, rfl⟩, rfl⟩

/-- Whether a choice is made, and of what kind. -/
def Random.returns {β : Type} (m : Random β) (kind : β → Generator → Bool) (g : Generator) : Bool :=
  match m g with
  | .ok x g' => kind x g'
  | .error _ _ => false

theorem Random.returns_eq_true {β : Type} {m : Random β} {kind : β → Generator → Bool}
    {g : Generator} : m.returns kind g = true ↔ ∃ x g', m g = .ok x g' ∧ kind x g' = true := by
  unfold returns
  cases m g <;> simp

namespace Scalar

variable {α : Type} [Scalar α] [Ranked α] {x y : α}

/-- The lesser of two numbers is one of them, and neither is below it. -/
theorem least_cases (hx : isNaN x = false) (hy : isNaN y = false) :
    least x y = x ∧ le x y = true ∨ least x y = y ∧ le y x = true := by
  unfold least below
  by_cases hlt : lt y x = true
  · simp [hx, hlt, le_of_lt hlt]
  · refine .inl ⟨by simp [hx, hy, hlt], ?_⟩
    by_contra hle
    exact hlt (lt_of_not_le hx hy hle)

end Scalar

namespace Spread

section Best

variable {ω : Type} [Sampled ω]

theorem best_eq_foremost (continuations : List (Spread ω)) :
    best continuations = (Donor.foremost (fun _ => true) (fun p q => Scalar.lt q p)
      (continuations.map fun c => (c.potential, c))).map (·.2) := by
  cases continuations with
  | nil => rfl
  | cons s rest =>
    have hrest : ∀ b : Spread ω,
        some (rest.foldl (fun b c => if Scalar.lt c.potential b.potential then c else b) b) =
          ((rest.map fun c => (c.potential, c)).foldl
            (Donor.prefer (fun _ => true) (fun p q => Scalar.lt q p)) (some (b.potential, b))).map
              (·.2) := by
      induction rest with
      | nil => exact fun _ => rfl
      | cons c rest ih =>
        intro b
        simp only [List.foldl_cons, List.map_cons, Donor.prefer]
        split <;> exact ih _
    exact hrest s

variable [Ranked ω]

/-- Of several continuations the first with the smallest potential is kept. -/
theorem exists_split_of_best {continuations : List (Spread ω)} {t : Spread ω}
    (hnan : ∀ c ∈ continuations, Scalar.isNaN c.potential = false)
    (h : best continuations = some t) : ∃ before after, continuations = before ++ t :: after ∧
      (∀ c ∈ before, Scalar.lt t.potential c.potential = true) ∧
      ∀ c ∈ after, Scalar.le t.potential c.potential = true := by
  rw [best_eq_foremost] at h
  obtain ⟨⟨v, c⟩, hforemost, rfl⟩ := Option.map_eq_some_iff.1 h
  have hordered : Ordered (fun _ => true) (fun p q => Scalar.lt q p)
      (fun v : ω => OrderDual.toDual (Ranked.rank v))
      (continuations.map fun c => (c.potential, c)) := by
    constructor
    · intro x hx y hy
      obtain ⟨c, hc, rfl⟩ := List.mem_map.1 hx
      obtain ⟨d, hd, rfl⟩ := List.mem_map.1 hy
      simp [Ranked.lt_iff, hnan c hc, hnan d hd]
    · simp
  obtain ⟨-, before, after, hsplit, hbefore, hafter⟩ :=
    Donor.foremost_of_eq_some hordered hforemost
  obtain ⟨first, rest, rfl, hfirst, hrest⟩ := List.map_eq_append_iff.1 hsplit
  obtain ⟨d, last, rfl, hd, hlast⟩ := List.map_eq_cons_iff.1 hrest
  cases hd
  refine ⟨first, last, rfl, ?_, ?_⟩
  · intro c hc
    rw [← hfirst] at hbefore
    exact hbefore _ (List.mem_map_of_mem hc)
  · intro c hc
    rw [← hlast] at hafter
    by_contra hle
    have hlt := Scalar.lt_of_not_le (hnan _ (by simp)) (hnan c (by simp [hc])) hle
    exact Bool.false_ne_true ((hafter _ (List.mem_map_of_mem hc)).symm.trans hlt)

end Best

section Growth

variable {α ω : Type} [Scalar α] [Sampled ω] [Widening α ω] {metric : Metric α} {points : Points α}
  {count rounds : Nat} {s t : Spread ω} {g g' : Generator}

theorem start_chosen (h : start metric points g = .ok s g') :
    s.Chosen metric points ∧ s.chosen.length = 1 := by
  obtain ⟨row, u, -, h⟩ := step_bind_eq_ok.1 h
  obtain ⟨ds, v, hlift, h⟩ := step_bind_eq_ok.1 h
  obtain ⟨rfl, rfl⟩ := step_pure_eq_ok.1 h
  exact ⟨.start (step_lift_eq_ok.1 hlift).1, rfl⟩

/-- A round draws candidates, makes a continuation of each and goes on with the best. -/
theorem grow_succ_eq_ok (h : grow metric points count (rounds + 1) s g = .ok t g') :
    ∃ rows u continuations next, s.candidates count g = .ok rows u ∧
      rows.map (s.add metric points) = continuations.map .ok ∧ best continuations = some next ∧
      grow metric points count rounds next u = .ok t g' := by
  unfold grow at h
  obtain ⟨rows, u, hrows, h⟩ := step_bind_eq_ok.1 h
  obtain ⟨continuations, v, hmap, h⟩ := step_bind_eq_ok.1 h
  obtain ⟨hall, rfl⟩ := step_mapM_lift_eq_ok.1 hmap
  cases hbest : best continuations with
  | none =>
    rw [hbest] at h
    cases h
  | some next =>
    rw [hbest] at h
    exact ⟨rows, u, continuations, next, hrows, hall, hbest, h⟩

theorem exists_row_of_mem {rows : List Nat} {continuations : List (Spread ω)}
    (hall : rows.map (s.add metric points) = continuations.map .ok) (ht : t ∈ continuations) :
    ∃ row ∈ rows, s.add metric points row = .ok t := by
  have hmem : Except.ok t ∈ rows.map (s.add metric points) := by
    rw [hall]
    exact List.mem_map_of_mem ht
  exact List.mem_map.1 hmem

theorem chosen_of_grow (hs : s.Chosen metric points)
    (h : grow metric points count rounds s g = .ok t g') : t.Chosen metric points := by
  induction rounds generalizing s g with
  | zero =>
    obtain ⟨rfl, -⟩ := step_pure_eq_ok.1 h
    exact hs
  | succ rounds ih =>
    obtain ⟨rows, u, continuations, next, -, hall, hbest, h⟩ := grow_succ_eq_ok h
    obtain ⟨row, -, hadd⟩ := exists_row_of_mem hall (best_mem hbest)
    exact ih (hs.add hadd) h

/-- Each row has the squared distance to the nearest of all chosen rows. -/
def Measures (metric : Metric α) (points : Points α) (s : Spread ω) : Prop :=
  s.nearest.length = points.size ∧ ∀ (i : Nat) (w : ω), s.nearest[i]? = some w →
    (∃ row ∈ s.chosen, ∃ ds, squares metric points row = .ok ds ∧ ds[i]? = some w) ∧
    ∀ row ∈ s.chosen, ∃ (ds : List ω) (v : ω), squares metric points row = .ok ds ∧
      ds[i]? = some v ∧ Scalar.le w v = true

theorem Chosen.measures [Ranked ω] (hnan : ∀ (row : Nat) (ds : List ω),
      squares metric points row = .ok ds → ∀ d ∈ ds, Scalar.isNaN d = false)
    (h : s.Chosen metric points) : s.Measures metric points := by
  refine ⟨h.length_nearest, ?_⟩
  induction h with
  | @start row ds hds =>
    intro i w hw
    have hself := Scalar.le_refl (hnan row ds hds w (List.mem_of_getElem? hw))
    simpa [hds] using ⟨hw, w, hw, hself⟩
  | @add s t row hs hadd ih =>
    obtain ⟨ds, hds, rfl⟩ := map_eq_ok.1 hadd
    intro i w hw
    obtain ⟨x, y, hx, hy, rfl⟩ := List.getElem?_zipWith_eq_some.1 hw
    obtain ⟨⟨before, hbefore, others, hothers, hsame⟩, hall⟩ := ih i x hx
    have hxnan := hnan before others hothers x (List.mem_of_getElem? hsame)
    have hynan := hnan row ds hds y (List.mem_of_getElem? hy)
    simp only [List.forall_mem_append, List.forall_mem_singleton]
    obtain ⟨hleast, hle⟩ | ⟨hleast, hle⟩ := Scalar.least_cases hxnan hynan <;> rw [hleast]
    · refine ⟨⟨before, List.mem_append_left _ hbefore, others, hothers, hsame⟩, hall, ?_⟩
      exact ⟨ds, y, hds, hy, hle⟩
    · refine ⟨⟨row, by simp, ds, hds, hy⟩, ?_, ds, y, hds, hy, Scalar.le_refl hynan⟩
      intro r hr
      obtain ⟨es, v, hes, hv, hxv⟩ := hall r hr
      exact ⟨es, v, hes, hv, Scalar.le_trans hle hxv⟩

variable {clusters : Int} {i : Nat} {h : Generator}

/-- The rows chosen and the generator at the head of round `i`, if more rows are to be chosen. -/
def Head (metric : Metric α) (points : Points α) (count : Nat) (clusters : Int) (g : Generator)
    (i : Nat) (s : Spread ω) (h : Generator) : Prop :=
  clusters ≤ points.size ∧ i + 1 < clusters ∧ ∃ first u, start metric points g = .ok first u ∧
    grow metric points count i first u = .ok s h

theorem Head.chosen (hhead : Head metric points count clusters g i s h) :
    s.Chosen metric points ∧ s.chosen.length = i + 1 ∧ ∀ row ∈ s.chosen, row < points.size := by
  obtain ⟨-, -, first, u, hstart, hgrow⟩ := hhead
  obtain ⟨hfirst, hone⟩ := start_chosen hstart
  obtain ⟨row, hrow, hchosen⟩ := start_eq_ok hstart
  obtain ⟨hlength, hbound⟩ := grow_eq_ok hgrow (by simpa [hchosen] using hrow)
  exact ⟨chosen_of_grow hfirst hgrow, by omega, hbound⟩

theorem getElem?_weights {i : Nat} {w : ω} (h : s.nearest[i]? = some w) :
    s.weights[i]? = some (if i ∈ s.chosen then 0 else w) := by
  simp [weights, h]

/-- The sum of the squared distances to the nearest center, with one row more as a center. -/
def potentialWith (metric : Metric α) (points : Points α) (s : Spread ω) (row : Nat) :
    Except Fault ω :=
  (squares metric points row).map fun ds => Scalar.total (List.zipWith Scalar.least s.nearest ds)

theorem potentialWith_eq (s : Spread ω) (row : Nat) :
    s.potentialWith metric points row = (s.add metric points row).map potential := by
  unfold potentialWith add
  cases squares metric points row <;> rfl

/-- One row more is chosen, the first of those with the smallest potential. -/
def Picks (metric : Metric α) (points : Points α) (s : Spread ω) (rows : List Nat) (t : Spread ω) :
    Prop :=
  ∃ before row after, rows = before ++ row :: after ∧ s.add metric points row = .ok t ∧
    s.potentialWith metric points row = .ok t.potential ∧
    (∀ r ∈ before, ∃ v, s.potentialWith metric points r = .ok v ∧
      Scalar.lt t.potential v = true) ∧
    ∀ r ∈ after, ∃ v, s.potentialWith metric points r = .ok v ∧ Scalar.le t.potential v = true

theorem picks_of_best [Ranked ω] {rows : List Nat} {continuations : List (Spread ω)}
    (hall : rows.map (s.add metric points) = continuations.map .ok)
    (hnan : ∀ c ∈ continuations, Scalar.isNaN c.potential = false)
    (hbest : best continuations = some t) : s.Picks metric points rows t := by
  obtain ⟨first, last, rfl, hfirst, hlast⟩ := exists_split_of_best hnan hbest
  rw [List.map_append, List.map_cons] at hall
  obtain ⟨before, rest, rfl, hbefore, hrest⟩ := List.map_eq_append_iff.1 hall
  obtain ⟨row, after, rfl, hrow, hafter⟩ := List.map_eq_cons_iff.1 hrest
  have hcandidate : ∀ (rows : List Nat) (others : List (Spread ω)),
      rows.map (s.add metric points) = others.map .ok → ∀ r ∈ rows,
        ∃ c ∈ others, s.potentialWith metric points r = .ok c.potential := by
    intro rows others hsame r hr
    have hmem := List.mem_map_of_mem (f := s.add metric points) hr
    rw [hsame] at hmem
    obtain ⟨c, hc, hadd⟩ := List.mem_map.1 hmem
    refine ⟨c, hc, ?_⟩
    rw [potentialWith_eq, ← hadd]
    rfl
  refine ⟨before, row, after, rfl, hrow, ?_, ?_, ?_⟩
  · rw [potentialWith_eq, hrow]
    rfl
  · intro r hr
    obtain ⟨c, hc, hpotential⟩ := hcandidate before first hbefore r hr
    exact ⟨c.potential, hpotential, hfirst c hc⟩
  · intro r hr
    obtain ⟨c, hc, hpotential⟩ := hcandidate after last hafter r hr
    exact ⟨c.potential, hpotential, hlast c hc⟩

end Growth

section Potential

variable {α : Type} [Scalar α] [Widening α Float] {metric : Metric α} {points : Points α}
  {count rounds : Nat} {s t : Spread Float} {g g' : Generator}

/-- Every squared distance is an amount. -/
def Amounts (metric : Metric α) (points : Points α) : Prop :=
  ∀ (row : Nat) (ds : List Float), squares metric points row = .ok ds → ∀ d ∈ ds, Scalar.IsAmount d

/-- Where no distance is a NaN, squared distances are amounts. -/
theorem amounts_of_numbers [Formatted α] [SignKept α] [SquareKept α]
    (hnan : ∀ row < points.size, ∀ ds, metric.distances points (points.row row) = .ok ds →
      ∀ d ∈ ds, Scalar.isNaN d = false) : Amounts metric points := by
  intro row ds hds
  have hrow := lt_of_squares_eq_ok hds
  unfold squares at hds
  rw [Points.getElem?_rows hrow] at hds
  obtain ⟨distances, hdistances, rfl⟩ := map_eq_ok.1 hds
  intro d hd
  obtain ⟨x, hx, rfl⟩ := List.mem_map.1 hd
  exact isAmount_square (hnan row hrow distances hdistances x hx)

variable (hamounts : Amounts metric points)
include hamounts

theorem Chosen.isAmount (h : s.Chosen metric points) : ∀ d ∈ s.nearest, Scalar.IsAmount d := by
  intro d hd
  obtain ⟨row, -, ds, hds, hmem⟩ := h.exists_squares_of_mem d hd
  exact hamounts row ds hds d hmem

theorem Chosen.isAmount_potential (h : s.Chosen metric points) : Scalar.IsAmount s.potential :=
  Scalar.isAmount_total (h.isAmount hamounts)

/-- One center more does not increase the potential. -/
theorem Chosen.potential_add_le (h : s.Chosen metric points) {row : Nat}
    (hadd : s.add metric points row = .ok t) : Scalar.le t.potential s.potential = true := by
  have hnext := (h.add hadd).isAmount hamounts
  obtain ⟨ds, hds, rfl⟩ := map_eq_ok.1 hadd
  have hlength := h.length_nearest.trans (length_squares hds).symm
  refine Scalar.total_le_total (by simp [hlength]) hnext (h.isAmount hamounts) ?_
  intro p hp
  obtain ⟨i, hi, rfl⟩ := List.mem_iff_getElem.1 hp
  have hlt : i < s.nearest.length ∧ i < ds.length := by simpa [hlength] using hi
  simp only [List.getElem_zip, List.getElem_zipWith]
  have hold := (h.isAmount hamounts _ (List.getElem_mem hlt.1)).isNumber
  have hnew := (hamounts row ds hds _ (List.getElem_mem hlt.2)).isNumber
  obtain ⟨hleast, hle⟩ | ⟨hleast, hle⟩ := Scalar.least_cases hold hnew <;> rw [hleast]
  · exact Scalar.le_refl hold
  · exact hle

theorem Chosen.potential_grow_le (h : s.Chosen metric points)
    (hgrow : grow metric points count rounds s g = .ok t g') :
    Scalar.le t.potential s.potential = true := by
  induction rounds generalizing s g with
  | zero =>
    obtain ⟨rfl, -⟩ := step_pure_eq_ok.1 hgrow
    exact Scalar.le_refl (h.isAmount_potential hamounts).isNumber
  | succ rounds ih =>
    obtain ⟨rows, u, continuations, next, -, hall, hbest, hgrow⟩ := grow_succ_eq_ok hgrow
    obtain ⟨row, -, hadd⟩ := exists_row_of_mem hall (best_mem hbest)
    exact Scalar.le_trans (ih (h.add hadd) hgrow) (h.potential_add_le hamounts hadd)

end Potential

section Rounds

variable {α : Type} [Scalar α] [Widening α Float] {metric : Metric α} {points : Points α}
  {count i : Nat} {clusters : Int} {s : Spread Float} {g h : Generator}

/-- At the head of every round, each row has the squared distance to the nearest of all chosen rows,
and the weights are these without those of chosen rows; candidates are drawn with them, in relation
to their sum, if it is positive.  Of the candidates the first with the smallest potential is
chosen, so the potential never increases, neither in this round nor in any later one. -/
theorem accounts_of_head [Formatted α] [SignKept α] [SquareKept α]
    (hnan : ∀ row < points.size, ∀ ds, metric.distances points (points.row row) = .ok ds →
      ∀ d ∈ ds, Scalar.isNaN d = false)
    (hhead : Head metric points count clusters g i s h) :
    s.chosen.length = i + 1 ∧ (∀ row ∈ s.chosen, row < points.size) ∧
    s.Measures metric points ∧
    (∀ (row : Nat) (w : Float), s.nearest[row]? = some w →
      s.weights[row]? = some (if row ∈ s.chosen then 0 else w)) ∧
    (Scalar.lt 0 (Scalar.total s.weights) = true → s.candidates count h =
      Random.weighted (s.weights.map (· / Scalar.total s.weights)) count h) ∧
    ∀ (rounds : Nat) (t : Spread Float) (h' : Generator),
      grow metric points count (rounds + 1) s h = .ok t h' →
      ∃ rows u next, s.candidates count h = .ok rows u ∧ s.Picks metric points rows next ∧
        grow metric points count rounds next u = .ok t h' ∧
        Scalar.le next.potential s.potential = true ∧
        Scalar.le t.potential next.potential = true := by
  have hamounts := amounts_of_numbers hnan
  obtain ⟨hchosen, hlength, hbound⟩ := hhead.chosen
  have hnumbers : ∀ (row : Nat) (ds : List Float), squares metric points row = .ok ds →
      ∀ d ∈ ds, Scalar.isNaN d = false :=
    fun row ds hds d hd => (hamounts row ds hds d hd).isNumber
  refine ⟨hlength, hbound, hchosen.measures hnumbers, fun row w hw => getElem?_weights hw, ?_, ?_⟩
  · intro hsum
    simp [candidates, hsum]
  · intro rounds t h' hgrow
    obtain ⟨rows, u, continuations, next, hrows, hall, hbest, hrest⟩ := grow_succ_eq_ok hgrow
    obtain ⟨row, -, hadd⟩ := exists_row_of_mem hall (best_mem hbest)
    have hpotentials : ∀ c ∈ continuations, Scalar.isNaN c.potential = false := by
      intro c hc
      obtain ⟨r, -, hr⟩ := exists_row_of_mem hall hc
      exact ((hchosen.add hr).isAmount_potential hamounts).isNumber
    exact ⟨rows, u, next, hrows, picks_of_best hall hpotentials hbest, hrest,
      hchosen.potential_add_le hamounts hadd, (hchosen.add hadd).potential_grow_le hamounts hrest⟩

end Rounds

def scattered : Points Float32 := ⟨1, [[0], [4], [5], [6], [20]], by decide⟩

def varied : Generator := ⟨(Vector.replicate 624 1).set 7 214748364, 0⟩

/-- Of the candidates 1 and 2, drawn in this order, the second is kept. -/
theorem accounts_of_head_scattered : ∃ s h t h',
    Head (.formula .manhattan) scattered 2 3 varied 1 s h ∧ s.chosen = [4, 0] ∧
    grow (.formula .manhattan) scattered 2 1 s h = .ok t h' ∧ t.chosen = [4, 0, 2] ∧
    s.Picks (.formula .manhattan) scattered [1, 2] t ∧
    Scalar.le t.potential s.potential = true := by
  have hends : Random.returns (start (.formula .manhattan) scattered) (fun first u =>
      Random.returns (grow (.formula .manhattan) scattered 2 1 first) (fun s h =>
        Random.returns (s.candidates 2) (fun rows _ =>
          Random.returns (grow (.formula .manhattan) scattered 2 1 s) (fun t _ =>
            s.chosen = [4, 0] ∧ rows = [1, 2] ∧ t.chosen = [4, 0, 2]) h) h) u) varied = true := by
    decide +kernel
  have hclean : (List.range 5).all (fun row =>
      match (Metric.formula .manhattan).distances scattered (scattered.row row) with
      | .ok ds => ds.all fun d => !Scalar.isNaN d
      | .error _ => false) = true := by decide +kernel
  obtain ⟨first, u, hstart, hends⟩ := Random.returns_eq_true.1 hends
  obtain ⟨s, h, hgrow, hends⟩ := Random.returns_eq_true.1 hends
  obtain ⟨rows, v, hrows, hends⟩ := Random.returns_eq_true.1 hends
  obtain ⟨t, h', hround, hends⟩ := Random.returns_eq_true.1 hends
  obtain ⟨hs, rfl, ht⟩ := of_decide_eq_true hends
  have hhead : Head (.formula .manhattan) scattered 2 3 varied 1 s h :=
    ⟨by decide, by decide, first, u, hstart, hgrow⟩
  have hnan : ∀ row < scattered.size, ∀ ds,
      (Metric.formula .manhattan).distances scattered (scattered.row row) = .ok ds →
      ∀ d ∈ ds, Scalar.isNaN d = false := by
    intro row hrow ds hds d hd
    have hlist := List.all_eq_true.1 hclean row (List.mem_range.2 hrow)
    rw [hds] at hlist
    simpa using List.all_eq_true.1 hlist d hd
  obtain ⟨-, -, -, -, -, hrounds⟩ := accounts_of_head hnan hhead
  obtain ⟨rows, u', next, hdraw, hpicks, hrest, hle, -⟩ := hrounds 0 t h' hround
  obtain ⟨rfl, -⟩ := EStateM.Result.ok.inj (hrows.symm.trans hdraw)
  obtain ⟨rfl, rfl⟩ := step_pure_eq_ok.1 hrest
  exact ⟨s, h, next, _, hhead, hs, hround, ht, hpicks, hle⟩

end Spread

end Centroids

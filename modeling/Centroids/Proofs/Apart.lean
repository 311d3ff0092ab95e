import Centroids.Proofs.Bookkeeping
import Centroids.Proofs.Drawing

/-! Seedings choose different rows.  A permutation has no row twice; a draw with weights gives no chosen
row, which has no weight, and where nothing has a weight one of the rows that are left is drawn, of
which there always is one. -/
namespace Centroids

namespace Spread

section Rounds

variable {α ω : Type} [Scalar α] [Sampled ω] [Widening α ω] {metric : Metric α} {points : Points α}
  {count rounds : Nat} {s t : Spread ω} {g g' : Generator}

theorem grow_succ_eq {rows : List Nat} {u : Generator} {continuations : List (Spread ω)}
    {next : Spread ω} (hrows : s.candidates count g = .ok rows u)
    (hall : rows.map (s.add metric points) = continuations.map .ok)
    (hbest : best continuations = some next) (rounds : Nat) :
    grow metric points count (rounds + 1) s g = grow metric points count rounds next u := by
  conv_lhs => unfold grow
  rw [step_bind_of_ok hrows, step_bind_of_ok (step_mapM_lift_eq_ok.2 ⟨hall, rfl⟩), hbest]

/-- Rounds follow on rounds. -/
theorem grow_add (h : grow metric points count rounds s g = .ok t g') (more : Nat) :
    grow metric points count (rounds + more) s g = grow metric points count more t g' := by
  induction rounds generalizing s g with
  | zero =>
    obtain ⟨rfl, rfl⟩ := step_pure_eq_ok.1 h
    rw [Nat.zero_add]
  | succ rounds ih =>
    obtain ⟨rows, u, continuations, next, hrows, hall, hbest, hrest⟩ := grow_succ_eq_ok h
    rw [Nat.succ_add, grow_succ_eq hrows hall hbest, ih hrest]

/-- What holds of the first row and is kept by each round holds at the end, and there is an end. -/
theorem exists_grow_of_rounds {P : Spread ω → Prop} (rounds : Nat) (hs : P s)
    (hround : ∀ i < rounds, ∀ t h, grow metric points count i s g = .ok t h → P t →
      ∃ next u, P next ∧ ∀ more, grow metric points count (more + 1) t h =
        grow metric points count more next u) :
    ∃ t g', grow metric points count rounds s g = .ok t g' ∧ P t := by
  induction rounds with
  | zero => exact ⟨s, g, rfl, hs⟩
  | succ rounds ih =>
    obtain ⟨t, h, hgrow, ht⟩ := ih fun i hi => hround i (Nat.lt_succ_of_lt hi)
    obtain ⟨next, u, hnext, hone⟩ := hround rounds (Nat.lt_succ_self rounds) t h hgrow ht
    exact ⟨next, u, by rw [grow_add hgrow 1, hone 0]; rfl, hnext⟩

/-- At the head of a round there is a row that is not chosen. -/
theorem Head.chosen_lt {clusters : Int} {i : Nat} {h : Generator}
    (hhead : Head metric points count clusters g i s h) :
    s.Chosen metric points ∧ s.chosen.length < points.size := by
  obtain ⟨hchosen, hlength, -⟩ := hhead.chosen
  obtain ⟨hle, hmore, -⟩ := hhead
  exact ⟨hchosen, by omega⟩

/-- What can be checked of the heads of all rounds holds at each of them. -/
theorem Head.of_all {clusters : Int} {P : Spread ω → Generator → Bool}
    (hall : (List.range (clusters.toNat - 1)).all (fun i =>
      !Random.returns (start metric points) (fun first u =>
        Random.returns (grow metric points count i first) (fun s h => !P s h) u) g) = true) :
    ∀ i s h, Head metric points count clusters g i s h → P s h = true := by
  rintro i s h ⟨-, hi, first, u, hstart, hgrow⟩
  have hnone := List.all_eq_true.1 hall i (List.mem_range.2 (by omega))
  by_contra hfails
  have hsome : Random.returns (start metric points) (fun first u =>
      Random.returns (grow metric points count i first) (fun s h => !P s h) u) g = true :=
    Random.returns_eq_true.2
      ⟨first, u, hstart, Random.returns_eq_true.2 ⟨s, h, hgrow, by simpa using hfails⟩⟩
  simp [hsome] at hnone

end Rounds

section Draws

variable {α ω : Type} [Scalar α] [Sampled ω] [Ranked ω] [Widening α ω] {metric : Metric α}
  {points : Points α} {count : Nat} {s : Spread ω} {g : Generator}

/-- A row with a weight is not chosen. -/
theorem not_mem_of_weight {row : Nat} {w : ω} (hw : s.weights[row]? = some w)
    (hpos : Scalar.lt 0 w = true) : row ∉ s.chosen ∧ s.nearest[row]? = some w := by
  simp only [weights, List.getElem?_map, List.getElem?_zipIdx, Option.map_map, Nat.zero_add,
    Option.map_eq_some_iff, Function.comp_apply] at hw
  obtain ⟨x, hx, rfl⟩ := hw
  split at hpos
  · rw [Ranked.lt_iff] at hpos
    exact absurd hpos.2.2 (lt_irrefl _)
  · rename_i hnone
    rw [if_neg hnone]
    exact ⟨hnone, hx⟩

/-- Weights of which a draw gives none that is zero. -/
def Fair (s : Spread ω) : Prop :=
  Random.Fair (s.weights.map (· / Scalar.total s.weights)) ∧
    ∀ w ∈ s.weights, Scalar.lt 0 (w / Scalar.total s.weights) = true → Scalar.lt 0 w = true

/-- Candidates are drawn, none of which is chosen already or as near as a chosen row if some are
not. -/
theorem Chosen.exists_apart (h : s.Chosen metric points) (hlt : s.chosen.length < points.size)
    (hcount : 0 < count) (hfair : Scalar.lt 0 (Scalar.total s.weights) = true → s.Fair)
    (hlively : Scalar.lt 0 (Scalar.total s.weights) = true →
      Random.lively (Random.grains points.size count) g = true) :
    ∃ rows u, s.candidates count g = .ok rows u ∧ rows ≠ [] ∧ ∀ row ∈ rows,
      row < points.size ∧ row ∉ s.chosen ∧ (Scalar.lt 0 (Scalar.total s.weights) = true →
        ∃ w, s.nearest[row]? = some w ∧ Scalar.lt 0 w = true) := by
  by_cases hsum : Scalar.lt 0 (Scalar.total s.weights) = true
  · obtain ⟨hshares, hweights⟩ := hfair hsum
    have hdraws := hlively hsum
    rw [← h.length_shares] at hdraws
    obtain ⟨rows, u, hdraw, hlength, hrows⟩ := hshares.exists_weighted hdraws
    refine ⟨rows, u, ?_, List.ne_nil_of_length_pos (by omega), ?_⟩
    · unfold candidates
      rw [if_pos hsum]
      exact hdraw
    · intro row hrow
      obtain ⟨share, hshare, hmoves⟩ := hrows row hrow
      obtain ⟨w, hw, rfl⟩ := by simpa using hshare
      have hpos := hweights w (List.mem_of_getElem? hw) hmoves
      obtain ⟨hnone, hnearest⟩ := not_mem_of_weight hw hpos
      refine ⟨?_, hnone, fun _ => ⟨w, hnearest, hpos⟩⟩
      rw [← h.length_nearest]
      exact (List.getElem?_eq_some_iff.1 hnearest).1
  · obtain ⟨row, hrow, u, hdraw⟩ := h.candidates_of_remaining hlt hsum count g
    obtain ⟨hbound, hnone⟩ := h.mem_remaining.1 hrow
    refine ⟨[row], u, hdraw, List.cons_ne_nil _ _, ?_⟩
    simp [hbound, hnone, hsum]

end Draws

section Doubles

variable {α : Type} [Scalar α] [Widening α Float] [Formatted α] [SignKept α] {metric : Metric α}
  {points : Points α} {s : Spread Float}

/-- Finite squares are amounts. -/
theorem amounts_of_finite (hfinite : ∀ row < points.size, ∃ ds : List Float,
      squares metric points row = .ok ds ∧ ∀ d ∈ ds, Scalar.isFinite d = true) :
    Amounts metric points := by
  intro row ds hds d hd
  obtain ⟨others, hothers, hall⟩ := hfinite row (lt_of_squares_eq_ok hds)
  obtain rfl : ds = others := Except.ok.inj (hds.symm.trans hothers)
  refine ⟨?_, ?_⟩
  · unfold squares at hds
    split at hds
    · obtain ⟨distances, -, rfl⟩ := map_eq_ok.1 hds
      obtain ⟨x, -, rfl⟩ := List.mem_map.1 hd
      exact SignKept.widen _ (Scalar.notNegative_mul_self x)
    · cases hds
  · have hclean : (Double.unpack d).isFinite = true := hall d hd
    rw [isNaN_eq_false_iff]
    generalize Double.unpack d = u at hclean
    cases u <;> first | rfl | cases hclean

omit [Formatted α] [SignKept α] in
theorem Chosen.fair (h : s.Chosen metric points) (hamounts : Amounts metric points)
    (hfinite : Scalar.isFinite (Scalar.total s.weights) = true)
    (hpos : Scalar.lt 0 (Scalar.total s.weights) = true) : s.Fair := by
  have hweights : ∀ w ∈ s.weights, Scalar.IsAmount w := by
    intro w hw
    obtain ⟨⟨d, i⟩, hd, rfl⟩ := List.mem_map.1 hw
    dsimp only
    split
    · exact Scalar.isAmount_zero
    · exact h.isAmount hamounts d (List.fst_mem_of_mem_zipIdx hd)
  obtain ⟨hshared, hmoves⟩ := shared_of_weights hweights hfinite hpos
  exact ⟨hshared.fair, hmoves⟩

end Doubles

end Spread

namespace Seeding

section Takes

variable {α ω : Type} [Scalar α] [Sampled ω] [Widening α ω] {metric : Metric α} {points : Points α}
  {clusters : Int} {count : Nat} {g : Generator}

/-- The centers are rows at so many different places. -/
def Takes (seeding : Seeding) (metric : Metric α) (points : Points α) (clusters : Int)
    (g : Generator) (rows : List Nat) : Prop :=
  rows.Nodup ∧ (rows.length : Int) = clusters ∧ (∀ row ∈ rows, row < points.size) ∧
    ∃ g', seeding.centers metric points clusters g = .ok (points.select rows).rows g'

theorem exists_takes_random (hpos : 0 < clusters) (hle : clusters ≤ points.size)
    (metric : Metric α) (g : Generator) : ∃ rows, random.Takes metric points clusters g rows := by
  obtain ⟨rows, g', hperm, hcenters⟩ := exists_shuffled hle metric g
  have hall : rows.length = points.size := by simpa using hperm.length_eq
  have htaken : takeUpTo clusters rows <+: rows := List.take_prefix _ rows
  refine ⟨takeUpTo clusters rows, ?_, ?_, ?_, g', hcenters⟩
  · exact (hperm.nodup_iff.2 List.nodup_range).sublist htaken.sublist
  · rw [length_takeUpTo hpos (by omega)]
    omega
  · intro row hrow
    exact List.mem_range.1 (hperm.mem_iff.1 (htaken.subset hrow))

/-- If no candidate agrees with a row chosen before, in whatever way, then no two centers do, and there
are centers. -/
theorem exists_takes_spread {κ : Type} (key : Nat → κ) (hpos : 0 < clusters)
    (hle : clusters ≤ points.size)
    (hsquares : ∀ row < points.size, ∃ ds : List ω, Spread.squares metric points row = .ok ds)
    (hround : ∀ (i : Nat) (s : Spread ω) (h : Generator),
      Spread.Head metric points count clusters g i s h →
      ∃ rows u, s.candidates count h = .ok rows u ∧ rows ≠ [] ∧ ∀ row ∈ rows,
        row < points.size ∧ key row ∉ s.chosen.map key) :
    ∃ rows, (spread count).Takes metric points clusters g rows ∧ (rows.map key).Nodup := by
  obtain ⟨row, hrow, u, hdraw⟩ := Random.exists_below (n := points.size) (by omega) g
  obtain ⟨ds, hds⟩ := hsquares row hrow
  have hstart : Spread.start metric points g = .ok (⟨[row], ds⟩ : Spread ω) u := by
    unfold Spread.start
    rw [step_bind_of_ok hdraw, step_bind_of_ok (step_lift_eq_ok.2 ⟨hds, rfl⟩)]
    rfl
  obtain ⟨t, g', hgrow, ht⟩ : ∃ t g',
      Spread.grow metric points count (clusters.toNat - 1) ⟨[row], ds⟩ u = .ok t g' ∧
        (t.chosen.map key).Nodup := by
    refine Spread.exists_grow_of_rounds (P := fun s => (s.chosen.map key).Nodup) _
      (List.nodup_singleton _) ?_
    intro i hi s h hgrow hs
    obtain ⟨rows, v, hrows, hne, hkeep⟩ := hround i s h ⟨hle, by omega, _, u, hstart, hgrow⟩
    obtain ⟨r, hr, next, w, hadd, hmore⟩ := Spread.grow_of_candidates
      (fun r hr => hsquares r (hkeep r hr).1) hrows hne
    refine ⟨next, w, ?_, hmore⟩
    rw [(Spread.add_eq_ok hadd).1, List.map_append, List.map_singleton]
    exact hs.append (List.nodup_singleton _) (by simpa using (hkeep r hr).2)
  obtain ⟨hlength, hbound⟩ := Spread.grow_eq_ok hgrow (by simpa using hrow)
  refine ⟨t.chosen, ⟨ht.of_map, ?_, hbound, g', ?_⟩, ht⟩
  · rw [hlength, List.length_singleton]
    omega
  · unfold Seeding.centers
    rw [if_neg (by omega)]
    exact (step_bind_of_ok hstart).trans (step_bind_of_ok hgrow)

/-- Whenever rows are drawn with weights, none of the numbers that are drawn is zero. -/
def Lively (metric : Metric α) (points : Points α) (count : Nat) (clusters : Int) (g : Generator) :
    Prop :=
  ∀ (i : Nat) (s : Spread ω) (h : Generator), Spread.Head metric points count clusters g i s h →
    Scalar.lt 0 (Scalar.total s.weights) = true →
      Random.lively (Random.grains points.size count) h = true

end Takes

end Seeding

end Centroids

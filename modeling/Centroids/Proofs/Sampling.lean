import Centroids.Proofs.Fitting

/-! When a seeding fails.  A permutation can always be drawn; rows are drawn one by one as long as
there are weights to draw with.  Where the metric fits the points, only weights that are no
probabilities stop a seeding with as many centers as there are points or less. -/
namespace Centroids

namespace Random

theorem exists_shuffle {β : Type} (xs : List β) (g : Generator) :
    ∃ ys g', shuffle xs g = .ok ys g' := by
  fun_induction shuffle xs generalizing g with
  | case1 => exact ⟨[], g, rfl⟩
  | case2 x => exact ⟨[x], g, rfl⟩
  | case3 x y rest ih =>
    obtain ⟨z, -, u, hz⟩ := exists_below (Nat.succ_pos (rest.length + 1)) g
    obtain ⟨zs, v, hzs⟩ := ih z u
    refine ⟨(exchange x (y :: rest) z).1 :: zs, v, ?_⟩
    rw [step_bind_of_ok hz, step_bind_of_ok hzs]
    rfl

section Weights

variable {ω : Type} [Sampled ω] {weights : List ω}

/-- Weights from which a choice can be made. -/
def Sampleable (weights : List ω) : Prop :=
  (∀ w ∈ weights, Scalar.isFinite w = true ∧ Scalar.lt w 0 = false) ∧
    (Scalar.total weights == 0) = false

theorem checkWeights_cases (weights : List ω) (g : Generator) :
    checkWeights weights g = .ok () g ∨
      ¬ Sampleable weights ∧ checkWeights weights g = .error .samplingWeights g := by
  unfold checkWeights
  split
  · exact .inl rfl
  · rename_i h
    refine .inr ⟨?_, rfl⟩
    rintro ⟨hall, htotal⟩
    apply h
    rw [htotal, Bool.not_false, Bool.and_true, List.all_eq_true]
    intro w hw
    rw [(hall w hw).1, (hall w hw).2]
    rfl

/-- One place is drawn, unless the weights are no probabilities. -/
theorem weighted_one_cases (hne : weights ≠ []) (g : Generator) :
    (∃ k < weights.length, ∃ g', weighted weights 1 g = .ok [k] g') ∨
      ¬ Sampleable weights ∧ ∃ g', weighted weights 1 g = .error .samplingWeights g' := by
  rcases checkWeights_cases weights g with hcheck | ⟨hnone, hcheck⟩
  · left
    have hspeed : ∀ w ∈ weights, ∀ g, ∃ x g',
        (do return w / Sampled.exponential (← grain) : Random ω) g = .ok x g' :=
      fun _ _ _ => ⟨_, _, rfl⟩
    obtain ⟨speeds, g', hspeeds⟩ := exists_step_mapM_eq_ok hspeed g
    have hlength := length_of_step_mapM_eq_ok hspeeds
    have hspeedsne : speeds ≠ [] := by
      apply List.ne_nil_of_length_pos
      rw [hlength]
      exact List.length_pos_iff.2 hne
    have hlt := Scalar.argmax_lt hspeedsne
    rw [hlength] at hlt
    refine ⟨_, hlt, g', ?_⟩
    unfold weighted
    rw [step_bind_of_ok hcheck, if_pos rfl, step_bind_of_ok hspeeds]
    rfl
  · right
    unfold weighted
    exact ⟨hnone, g, step_bind_of_error hcheck⟩

end Weights

end Random

variable {α ω : Type} [Scalar α] [Widening α ω] {metric : Metric α} {f : Formula α} {width : Nat}
  {points : Points α}

namespace Spread

theorem length_squares {row : Nat} {ds : List ω} (h : squares metric points row = .ok ds) :
    ds.length = points.size := by
  unfold squares at h
  split at h
  · rcases map_eq_ok.1 h with ⟨distances, hdistances, rfl⟩
    rw [List.length_map, Metric.length_distances hdistances]
  · cases h

theorem exists_squares {row : Nat} (hfit : f.width? points.dim points.dim = some width)
    (hrow : row < points.size) :
    ∃ ds : List ω, squares (.formula f) points row = .ok ds := by
  unfold squares
  rw [Points.getElem?_rows hrow]
  change ∃ ds, (f.distances points (points.row row)).map _ = _
  rw [Formula.distances_eq_ok hfit (Points.length_row_of_lt hrow)]
  exact ⟨_, rfl⟩

variable [Sampled ω]

/-- Rows chosen one after the other, whatever they were drawn with. -/
inductive Chosen (metric : Metric α) (points : Points α) : Spread ω → Prop
  | start {row : Nat} {ds : List ω} :
      squares metric points row = .ok ds → Chosen metric points ⟨[row], ds⟩
  | add {s t : Spread ω} {row : Nat} :
      Chosen metric points s → s.add metric points row = .ok t → Chosen metric points t

/-- The rows that are chosen when one of so many further ones is drawn. -/
def Grows (metric : Metric α) (points : Points α) (count rounds : Nat) (s : Spread ω)
    (g : Generator) (t : Spread ω) : Prop :=
  ∃ i < rounds, ∃ g', grow metric points count i s g = .ok t g'

/-- Some row has a weight, but the weights in relation to their sum are no probabilities. -/
def Unsampled (s : Spread ω) : Prop :=
  Scalar.lt 0 (Scalar.total s.weights) = true ∧
    ¬ Random.Sampleable (s.weights.map (· / Scalar.total s.weights))

namespace Chosen

variable {s : Spread ω}

theorem length_nearest (h : Chosen metric points s) : s.nearest.length = points.size := by
  induction h with
  | start hds => exact length_squares hds
  | add _ hadd ih =>
    rcases map_eq_ok.1 hadd with ⟨ds, hds, rfl⟩
    rw [List.length_zipWith, ih, length_squares hds, Nat.min_self]

theorem length_shares (h : Chosen metric points s) :
    (s.weights.map (· / Scalar.total s.weights)).length = points.size := by
  unfold weights
  rw [List.length_map, List.length_map, List.length_zipIdx, h.length_nearest]

/-- The nearest chosen row is one of those that were chosen. -/
theorem exists_squares_of_mem (h : Chosen metric points s) : ∀ d ∈ s.nearest,
    ∃ row ∈ s.chosen, ∃ ds, squares metric points row = .ok ds ∧ d ∈ ds := by
  induction h with
  | @start row ds hds => exact fun d hd => ⟨row, List.mem_singleton_self row, ds, hds, hd⟩
  | @add s t row _ hadd ih =>
    obtain ⟨ds, hds, rfl⟩ := map_eq_ok.1 hadd
    intro d hd
    obtain ⟨i, hi, rfl⟩ := List.mem_iff_getElem.1 hd
    rw [List.getElem_zipWith]
    unfold Scalar.least
    split
    · exact ⟨row, List.mem_append_right _ (List.mem_singleton_self row), ds, hds,
        List.getElem_mem _⟩
    · obtain ⟨before, hbefore, others, hothers, hmem⟩ := ih _ (List.getElem_mem _)
      exact ⟨before, List.mem_append_left _ hbefore, others, hothers, hmem⟩

theorem remaining_ne_nil (h : Chosen metric points s) (hlt : s.chosen.length < points.size) :
    s.remaining ≠ [] := by
  intro hnil
  have hall : List.range points.size ⊆ s.chosen := by
    intro row hrow
    by_contra hnone
    have hmem : row ∈ s.remaining := by
      unfold remaining
      rw [h.length_nearest]
      exact List.mem_filter.2 ⟨hrow, by simpa using hnone⟩
    rw [hnil] at hmem
    cases hmem
  have hle := (List.nodup_range.subperm hall).length_le
  rw [List.length_range] at hle
  omega

/-- Rows that are left are those that are not chosen. -/
theorem mem_remaining (h : Chosen metric points s) {row : Nat} :
    row ∈ s.remaining ↔ row < points.size ∧ row ∉ s.chosen := by
  simp [remaining, h.length_nearest]

/-- When no row has a weight, one of those that are left is drawn. -/
theorem candidates_of_remaining (h : Chosen metric points s) (hlt : s.chosen.length < points.size)
    (hsum : ¬ Scalar.lt 0 (Scalar.total s.weights) = true) (count : Nat) (g : Generator) :
    ∃ row ∈ s.remaining, ∃ g', s.candidates count g = .ok [row] g' := by
  have hpos := List.length_pos_iff.2 (h.remaining_ne_nil hlt)
  obtain ⟨k, hk, g', hdraw⟩ := Random.exists_below hpos g
  refine ⟨s.remaining[k], List.getElem_mem hk, g', ?_⟩
  unfold candidates
  rw [if_neg hsum, step_bind_of_ok hdraw, List.getElem?_eq_getElem hk]
  rfl

/-- One candidate is drawn for the next center, unless the weights are no probabilities. -/
theorem candidates_cases (h : Chosen metric points s) (hlt : s.chosen.length < points.size)
    (g : Generator) :
    (∃ row < points.size, ∃ g', s.candidates 1 g = .ok [row] g') ∨
      s.Unsampled ∧ ∃ g', s.candidates 1 g = .error .samplingWeights g' := by
  by_cases hsum : Scalar.lt 0 (Scalar.total s.weights) = true
  · have hweights := h.length_shares
    have hne : s.weights.map (· / Scalar.total s.weights) ≠ [] := by
      apply List.ne_nil_of_length_pos
      omega
    unfold candidates
    rw [if_pos hsum]
    rcases Random.weighted_one_cases hne g with ⟨k, hk, hdraw⟩ | ⟨hnone, herror⟩
    · exact .inl ⟨k, hweights ▸ hk, hdraw⟩
    · exact .inr ⟨⟨hsum, hnone⟩, herror⟩
  · obtain ⟨row, hrow, hdraw⟩ := h.candidates_of_remaining hlt hsum 1 g
    exact .inl ⟨row, (h.mem_remaining.1 hrow).1, hdraw⟩

end Chosen

/-- The best of the rows that were drawn is chosen. -/
theorem grow_of_candidates {count : Nat} {s : Spread ω} {rows : List Nat} {g g' : Generator}
    (hsquares : ∀ row ∈ rows, ∃ ds : List ω, squares metric points row = .ok ds)
    (hdraw : s.candidates count g = .ok rows g') (hne : rows ≠ []) :
    ∃ row ∈ rows, ∃ next u, s.add metric points row = .ok next ∧
      ∀ rounds, grow metric points count (rounds + 1) s g = grow metric points count rounds next u := by
  have hadd : ∀ row ∈ rows, ∀ u : Generator, ∃ next v,
      (liftM (s.add metric points row) : Random (Spread ω)) u = .ok next v := by
    intro row hrow u
    obtain ⟨ds, hds⟩ := hsquares row hrow
    exact ⟨_, u, step_lift_eq_ok.2 ⟨map_eq_ok.2 ⟨ds, hds, rfl⟩, rfl⟩⟩
  obtain ⟨continuations, u, hmap⟩ := exists_step_mapM_eq_ok hadd g'
  have hlength := length_of_step_mapM_eq_ok hmap
  cases hbest : best continuations with
  | none =>
    rw [best_eq_none.1 hbest] at hlength
    exact absurd (List.length_eq_zero_iff.1 hlength.symm) hne
  | some next =>
    obtain ⟨row, hrow, v, w, hlift⟩ := step_of_mem_mapM hmap (best_mem hbest)
    refine ⟨row, hrow, next, u, (step_lift_eq_ok.1 hlift).1, fun rounds => ?_⟩
    conv_lhs => unfold grow
    rw [step_bind_of_ok hdraw, step_bind_of_ok hmap, hbest]

theorem length_add {s t : Spread ω} {row : Nat} (h : s.add metric points row = .ok t) :
    t.chosen.length = s.chosen.length + 1 := by
  rw [(add_eq_ok h).1, List.length_append, List.length_singleton]

section Fit

variable (hfit : f.width? points.dim points.dim = some width)
include hfit

/-- As many rows as are left to be chosen can be, unless weights on the way are no probabilities. -/
theorem grow_cases {rounds : Nat} {s : Spread ω} (h : Chosen (.formula f) points s)
    (hle : s.chosen.length + rounds ≤ points.size) (g : Generator) :
    (∃ t g', grow (.formula f) points 1 rounds s g = .ok t g') ∨
      (∃ t, Grows (.formula f) points 1 rounds s g t ∧ Chosen (.formula f) points t ∧
          Unsampled t) ∧
        ∃ g', grow (.formula f) points 1 rounds s g = .error .samplingWeights g' := by
  induction rounds generalizing s g with
  | zero => exact .inl ⟨s, g, rfl⟩
  | succ rounds ih =>
    rcases h.candidates_cases (by omega) g with ⟨row, hrow, g', hdraw⟩ | ⟨hnone, g', herror⟩
    · obtain ⟨r, -, next, u, hadd, hgrow⟩ := grow_of_candidates
        (by simpa using exists_squares hfit hrow) hdraw (List.cons_ne_nil _ _)
      have hlength := length_add hadd
      rw [hgrow]
      obtain hreturns | ⟨⟨t, ⟨i, hi, v, ht⟩, hnone⟩, herror⟩ := ih (h.add hadd) (by omega) u
      · exact .inl hreturns
      · exact .inr ⟨⟨t, ⟨i + 1, by omega, v, (hgrow i).trans ht⟩, hnone⟩, herror⟩
    · refine .inr ⟨⟨s, ⟨0, Nat.succ_pos rounds, g, rfl⟩, h, hnone⟩, g', ?_⟩
      unfold grow
      exact step_bind_of_error herror

theorem exists_start (hpos : 0 < points.size) (g : Generator) :
    ∃ s g', start (.formula f) points g = .ok (s : Spread ω) g' ∧ Chosen (.formula f) points s ∧
      s.chosen.length = 1 := by
  obtain ⟨row, hrow, g', hdraw⟩ := Random.exists_below hpos g
  obtain ⟨ds, hds⟩ : ∃ ds : List ω, squares (.formula f) points row = .ok ds :=
    exists_squares hfit hrow
  refine ⟨⟨[row], ds⟩, g', ?_, .start hds, rfl⟩
  unfold start
  rw [step_bind_of_ok hdraw, step_bind_of_ok (step_lift_eq_ok.2 ⟨hds, rfl⟩)]
  rfl

end Fit

end Spread

namespace Seeding

variable [Sampled ω]

/-- There are weights on the way to the first centers that are no probabilities. -/
def CanFail (seeding : Seeding) (metric : Metric α) (points : Points α) : Prop :=
  seeding = .spread 1 ∧ ∃ s : Spread ω, s.Chosen metric points ∧ s.Unsampled

/-- The rows that are chosen when a further one is drawn. -/
def Draws (seeding : Seeding) (metric : Metric α) (points : Points α) (clusters : Int)
    (g : Generator) (t : Spread ω) : Prop :=
  ∃ count first g', seeding = .spread count ∧ Spread.start metric points g = .ok first g' ∧
    Spread.Grows metric points count (clusters.toNat - 1) first g' t

section Fit

variable {clusters : Int} (hfit : f.width? points.dim points.dim = some width) (hpos : 0 < clusters)
  (hle : clusters ≤ points.size)
include hle

/-- The first rows of a permutation are returned. -/
theorem exists_shuffled (metric : Metric α) (g : Generator) :
    ∃ rows g', rows.Perm (List.range points.size) ∧ random.centers metric points clusters g =
      .ok (points.select (takeUpTo clusters rows)).rows g' := by
  have hfew : ¬ clusters > points.size := by omega
  obtain ⟨rows, g', hshuffle⟩ := Random.exists_shuffle (List.range points.size) g
  refine ⟨rows, g', Random.shuffle_perm hshuffle, ?_⟩
  unfold Seeding.centers
  rw [if_neg hfew]
  dsimp only
  rw [step_bind_of_ok hshuffle]
  rfl

include hfit hpos

/-- After a first row, the others are chosen one by one. -/
theorem centers_spread (count : Nat) (g : Generator) :
    ∃ (first : Spread ω) (u : Generator), Spread.start (.formula f) points g = .ok first u ∧
      first.Chosen (.formula f) points ∧ first.chosen.length + (clusters.toNat - 1) ≤ points.size ∧
      (spread count).centers (.formula f) points clusters g =
        (Spread.grow (.formula f) points count (clusters.toNat - 1) first >>= fun all =>
          pure (points.select all.chosen).rows) u := by
  have hfew : ¬ clusters > points.size := by omega
  obtain ⟨first, u, hfirst, hchosen, hone⟩ : ∃ (s : Spread ω) (g' : Generator),
      Spread.start (.formula f) points g = .ok s g' ∧ s.Chosen (.formula f) points ∧
        s.chosen.length = 1 := Spread.exists_start hfit (by omega) g
  refine ⟨first, u, hfirst, hchosen, by omega, ?_⟩
  unfold Seeding.centers
  rw [if_neg hfew]
  exact step_bind_of_ok hfirst

/-- A seeding by one candidate at a time or by a permutation returns centers, unless it comes to weights
that are no probabilities, which a permutation does not need. -/
theorem centers_cases {seeding : Seeding} (hseeding : seeding = .spread 1 ∨ seeding = .random)
    (g : Generator) :
    (∃ centers g', seeding.centers (.formula f) points clusters g = .ok centers g') ∨
      (seeding = .spread 1 ∧ ∃ s : Spread ω, seeding.Draws (.formula f) points clusters g s ∧
          s.Chosen (.formula f) points ∧ s.Unsampled) ∧
        ∃ g', seeding.centers (.formula f) points clusters g = .error .samplingWeights g' := by
  rcases hseeding with rfl | rfl
  · obtain ⟨first, u, hfirst, hchosen, hrounds, hcenters⟩ := centers_spread hfit hpos hle 1 g
    rw [hcenters]
    rcases Spread.grow_cases hfit hchosen hrounds u with
      ⟨all, g', hgrow⟩ | ⟨⟨t, hgrows, hnone⟩, g', herror⟩
    · left
      rw [step_bind_of_ok hgrow]
      exact ⟨_, g', rfl⟩
    · exact .inr ⟨⟨rfl, t, ⟨1, first, u, rfl, hfirst, hgrows⟩, hnone⟩, g',
        step_bind_of_error herror⟩
  · obtain ⟨rows, g', -, hcenters⟩ := exists_shuffled hle (.formula f) g
    exact .inl ⟨_, g', hcenters⟩

end Fit

end Seeding

end Centroids

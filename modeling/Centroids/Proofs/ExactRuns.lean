import Centroids.Proofs.Refusal
import Centroids.Proofs.Scaling

/-! How runs end in exact arithmetic.  Weights are squares, and in relation to their sum they are
probabilities, so a seeding that draws at all does not fail; a round fails only for want of a point.
A run returns, fails so, or has no limit and is given up. -/
namespace Centroids

namespace Random

theorem grain_eq_ok {k : Nat} {g g' : Generator} (h : grain g = .ok k g') : k < 2 ^ 53 := by
  obtain ⟨w, u, -, hw⟩ := step_bind_eq_ok.1 h
  obtain ⟨rfl, -⟩ := step_pure_eq_ok.1 hw
  exact Nat.mod_lt _ (by decide)

theorem length_runningSums {ω : Type} [Sampled ω] (start : ω) (weights : List ω) :
    (runningSums start weights).length = weights.length := by
  induction weights generalizing start with
  | nil => rfl
  | cons w weights ih => exact congrArg (· + 1) (ih (start + w))

theorem length_thresholds {ω : Type} [Sampled ω] {weights : List ω} (hne : weights ≠ []) :
    (thresholds weights).length = weights.length := by
  have hpos := List.length_pos_iff.2 hne
  unfold thresholds
  rw [List.length_append, List.length_map, List.length_dropLast, length_runningSums,
    List.length_singleton]
  omega

variable {F : Type} [Field F] [LinearOrder F] [Analytic F] [IsStrictOrderedRing F]

/-- The last threshold is one, and no number that is drawn is above it. -/
theorem length_takeWhile_thresholds {weights : List F} (hne : weights ≠ []) {k : Nat}
    (hk : k < 2 ^ 53) : ((thresholds weights).takeWhile (Scalar.lt · (Sampled.uniform k))).length <
      weights.length := by
  rw [← length_thresholds hne]
  apply lt_of_le_of_ne (List.takeWhile_prefix _).length_le
  intro hall
  have hwhole := (List.takeWhile_prefix (Scalar.lt · (Sampled.uniform k))).eq_of_length hall
  have hone : (Scalar.ofNat 1 : F) ∈ thresholds weights :=
    List.mem_append_right _ (List.mem_singleton.2 rfl)
  rw [← hwhole] at hone
  have hlast := List.mem_takeWhile_imp hone
  have habove : ((1 : Nat) : F) < k / 2 ^ 53 := of_decide_eq_true hlast
  rw [Nat.cast_one, one_lt_div (by positivity)] at habove
  have hlt : (k : F) < 2 ^ 53 := by exact_mod_cast hk
  exact absurd habove hlt.not_gt

/-- As many places are drawn as are asked for. -/
theorem exists_weighted {weights : List F} (hne : weights ≠ []) (hsampleable : Sampleable weights)
    (count : Nat) (g : Generator) : ∃ rows g', weighted weights count g = .ok rows g' ∧
      rows.length = count ∧ ∀ row ∈ rows, row < weights.length := by
  by_cases hone : count = 1
  · subst hone
    obtain ⟨row, hrow, g', hdraw⟩ | ⟨hnone, -⟩ := weighted_one_cases hne g
    · exact ⟨[row], g', hdraw, rfl, by simpa using hrow⟩
    · exact absurd hsampleable hnone
  · obtain hcheck | ⟨hnone, -⟩ := checkWeights_cases weights g
    · let draw : Random Nat := do
        let u : F := Sampled.uniform (← grain)
        return ((thresholds weights).takeWhile (Scalar.lt · u)).length
      obtain ⟨rows, g', hrows⟩ : ∃ rows g', ((List.range count).mapM fun _ => draw) g = .ok rows g' :=
        exists_step_mapM_eq_ok (fun _ _ _ => ⟨_, _, rfl⟩) g
      refine ⟨rows, g', ?_, ?_, ?_⟩
      · unfold weighted
        rw [step_bind_of_ok hcheck, if_neg hone]
        exact hrows
      · rw [length_of_step_mapM_eq_ok hrows, List.length_range]
      · intro row hrow
        obtain ⟨-, -, u, v, hdraw⟩ := step_of_mem_mapM hrows hrow
        obtain ⟨k, w, hgrain, hrow⟩ := step_bind_eq_ok.1 hdraw
        obtain ⟨rfl, -⟩ := step_pure_eq_ok.1 hrow
        exact length_takeWhile_thresholds hne (grain_eq_ok hgrain)
    · exact absurd hsampleable hnone

end Random

section Weights

variable {F : Type} [Field F] [LinearOrder F] [Analytic F] [IsStrictOrderedRing F] {f : Formula F}
  {points : Points F} {s : Spread F}

namespace Exact

variable {weights : List F}

omit [IsStrictOrderedRing F] in
/-- In relation to their sum, weights have the sum one. -/
theorem total_shares (hne : Scalar.total weights ≠ 0) :
    Scalar.total (weights.map (· / Scalar.total weights)) = 1 := by
  have hinverse : weights.map (· / Scalar.total weights) =
      weights.map ((Scalar.total weights)⁻¹ * ·) :=
    List.map_congr_left fun w _ => div_eq_inv_mul w _
  rw [hinverse, total_mul]
  exact inv_mul_cancel₀ hne

theorem sampleable_shares (hnonneg : ∀ w ∈ weights, 0 ≤ w) (hpos : 0 < Scalar.total weights) :
    Random.Sampleable (weights.map (· / Scalar.total weights)) := by
  constructor
  · intro w hw
    obtain ⟨x, hx, rfl⟩ := List.mem_map.1 hw
    refine ⟨rfl, decide_eq_false ?_⟩
    exact not_lt.2 (div_nonneg (hnonneg x hx) hpos.le)
  · rw [total_shares hpos.ne']
    exact decide_eq_false one_ne_zero

end Exact

theorem Spread.squares_nonneg {row : Nat} {ds : List F}
    (h : squares (.formula f) points row = .ok ds) : ∀ d ∈ ds, 0 ≤ d := by
  unfold squares at h
  split at h
  · obtain ⟨distances, -, rfl⟩ := map_eq_ok.1 h
    intro d hd
    obtain ⟨x, -, rfl⟩ := List.mem_map.1 hd
    exact mul_self_nonneg x
  · cases h

namespace Spread.Chosen

variable (h : s.Chosen (.formula f) points)
include h

theorem nearest_nonneg : ∀ d ∈ s.nearest, 0 ≤ d := by
  intro d hd
  obtain ⟨row, -, ds, hds, hmem⟩ := h.exists_squares_of_mem d hd
  exact squares_nonneg hds d hmem

theorem weights_nonneg : ∀ w ∈ s.weights, 0 ≤ w := by
  intro w hw
  obtain ⟨⟨x, i⟩, hx, rfl⟩ := List.mem_map.1 hw
  dsimp only
  split
  · exact le_rfl
  · exact h.nearest_nonneg x (List.fst_mem_of_mem_zipIdx hx)

/-- Weights that are not all zero are probabilities in relation to their sum. -/
theorem sampleable (hsum : Scalar.lt 0 (Scalar.total s.weights) = true) :
    Random.Sampleable (s.weights.map (· / Scalar.total s.weights)) :=
  Exact.sampleable_shares h.weights_nonneg (of_decide_eq_true hsum)

/-- Candidates can be drawn as long as there is a row that is not chosen. -/
theorem exists_candidates (hlt : s.chosen.length < points.size) {count : Nat} (hcount : count ≠ 0)
    (g : Generator) : ∃ rows g', s.candidates count g = .ok rows g' ∧ rows ≠ [] ∧
      ∀ row ∈ rows, row < points.size := by
  by_cases hsum : Scalar.lt 0 (Scalar.total s.weights) = true
  · have hlength := h.length_shares
    have hne : s.weights.map (· / Scalar.total s.weights) ≠ [] := by
      apply List.ne_nil_of_length_pos
      omega
    obtain ⟨rows, g', hdraw, hrows, hbound⟩ :=
      Random.exists_weighted hne (h.sampleable hsum) count g
    rw [hlength] at hbound
    refine ⟨rows, g', ?_, List.ne_nil_of_length_pos (by omega), hbound⟩
    unfold Spread.candidates
    rw [if_pos hsum]
    exact hdraw
  · obtain ⟨row, hrow, g', hdraw⟩ := h.candidates_of_remaining hlt hsum count g
    exact ⟨[row], g', hdraw, List.cons_ne_nil _ _, by simpa using (h.mem_remaining.1 hrow).1⟩

end Spread.Chosen

variable {width : Nat} (hfit : f.width? points.dim points.dim = some width)
include hfit

theorem Spread.exists_grow {count : Nat} (hcount : count ≠ 0) {rounds : Nat}
    (h : s.Chosen (.formula f) points) (hle : s.chosen.length + rounds ≤ points.size)
    (g : Generator) : ∃ t g', grow (.formula f) points count rounds s g = .ok t g' := by
  induction rounds generalizing s g with
  | zero => exact ⟨s, g, rfl⟩
  | succ rounds ih =>
    obtain ⟨rows, u, hdraw, hne, hlt⟩ := h.exists_candidates (by omega) hcount g
    obtain ⟨r, -, next, v, hadd, hgrow⟩ := grow_of_candidates
      (fun row hrow => exists_squares hfit (hlt row hrow)) hdraw hne
    have hlength := length_add hadd
    rw [hgrow]
    exact ih (h.add hadd) (by omega) v

/-- A seeding that draws candidates, or a permutation, returns centers. -/
theorem Seeding.exists_centers {seeding : Seeding} {clusters : Int} (hpos : 0 < clusters)
    (hle : clusters ≤ points.size) (hseeding : seeding ≠ .spread 0) (g : Generator) :
    ∃ centers g', seeding.centers (.formula f) points clusters g = .ok centers g' := by
  cases seeding with
  | spread count =>
    have hcount : count ≠ 0 := fun hzero => hseeding (congrArg spread hzero)
    obtain ⟨first, u, -, hchosen, hrounds, hcenters⟩ := centers_spread hfit hpos hle count g
    obtain ⟨all, g', hgrow⟩ := Spread.exists_grow hfit hcount hchosen hrounds u
    rw [hcenters, step_bind_of_ok hgrow]
    exact ⟨_, g', rfl⟩
  | random =>
    obtain ⟨rows, g', -, hcenters⟩ := exists_shuffled hle (.formula f) g
    exact ⟨_, g', hcenters⟩

end Weights

namespace Trial

/-- Where the metric fits the points, a round fails only for want of a point. -/
theorem round_ends {α ω : Type} [Scalar α] [Sampled ω] [Widening α ω] {plan : Plan α}
    {points : Points α} {f : Formula α} {strategy : Strategy} {width count iteration : Nat}
    {clusters : Partition α} {j : Journal} (hmetric : plan.metric = .formula f)
    (hfit : f.width? points.dim points.dim = some width) (hhandler : plan.handler = strategy)
    (hle : count ≤ points.size) (hstop : isOver plan iteration = .ok false)
    (hs : (Stage.of iteration clusters j).Covers plan.metric points count) :
    (∃ met t, Round plan points (.of iteration clusters j) met t) ∨
      ∃ k, round plan points iteration clusters j = .error .emptyCluster k := by
  by_cases hrefuse : strategy = .refuse
  · rw [hrefuse] at hhandler
    by_cases hempty : ∃ c ∈ clusters, c.isEmpty = true
    · obtain ⟨labels, hassigned, -⟩ := hs
      exact .inr ⟨j, round_refuse hhandler hassigned.divides.toShares hempty⟩
    · have hsizes : ∀ c ∈ clusters, c.size ≠ 0 := fun c hc hzero =>
        hempty ⟨c, hc, beq_iff_eq.2 hzero⟩
      obtain ⟨met, t, hkept⟩ := exists_kept hmetric hfit hs hstop hsizes
      exact .inl ⟨met, t, hkept.toRound⟩
  · obtain hround | ⟨-, herror⟩ := round_cases hmetric hfit hhandler hrefuse hle hstop hs
    · exact .inl hround
    · exact .inr herror

/-- A run on exact points returns, fails for want of a point, or has no limit and is given up. -/
theorem run_ends {F : Type} [Field F] [LinearOrder F] [Analytic F] [IsStrictOrderedRing F]
    {plan : Plan F} {points : Points F} {f : Formula F} {strategy : Strategy} {width : Nat}
    (hmetric : plan.metric = .formula f) (hfit : f.width? points.dim points.dim = some width)
    (hhandler : plan.handler = strategy) (hdetails : plan.verbosity.details.isSome)
    (hordered : plan.limit ≠ .unordered) (hpos : 0 < plan.clusters)
    (hle : plan.clusters ≤ points.size) (hseeding : plan.seeding ≠ .spread 0) (horizon : Nat)
    (j : Journal) :
    (∃ outcome k, run horizon plan points j = .ok outcome k) ∨
      (∃ k, run horizon plan points j = .error .emptyCluster k) ∨
      plan.limit = .unlimited ∧ ∃ k, run horizon plan points j = .error .stalled k := by
  obtain ⟨centers, g, hcenters⟩ := Seeding.exists_centers hfit hpos hle hseeding j.generator
  rw [← hmetric] at hcenters
  obtain ⟨clusters, labels, hstart⟩ := exists_start_of_centers hmetric hfit hpos hcenters
  have hcount : plan.clusters.toNat ≤ points.size := by omega
  have hround : ∀ iteration clusters j,
      (Stage.of iteration clusters j).Covers plan.metric points plan.clusters.toNat →
      isOver plan iteration = .ok false →
      (∃ met t, Round plan points (.of iteration clusters j) met t) ∨
        True ∧ ∃ k, round plan points iteration clusters j = .error .emptyCluster k := by
    intro iteration clusters j hs hstop
    obtain hnext | herror := round_ends hmetric hfit hhandler hcount hstop hs
    · exact .inl hnext
    · exact .inr ⟨trivial, herror⟩
  have hcovers : (Stage.of 0 clusters
      ⟨g, { j.criterion.reset with previous := some (.ofList labels) }, j.notices⟩).Covers
        plan.metric points plan.clusters.toNat := covers_of_start hpos hstart
  rw [run_of_start hstart]
  obtain hend | ⟨-, herror⟩ | ⟨hgoing, hstalled⟩ := rounds_ends hdetails hordered
    (fun _ _ _ hs hround => hround.covers hs) hround (plan.limit.horizon horizon) hcovers
  · exact .inl hend
  · exact .inr (.inl herror)
  · refine .inr (.inr ⟨?_, hstalled⟩)
    cases hlimit : plan.limit with
    | unlimited => rfl
    | unordered => exact absurd hlimit hordered
    | atMost n =>
      rw [hlimit] at hgoing
      have hover := hgoing n (Nat.zero_le n) (by change n < 0 + (n + 1); omega)
      unfold isOver at hover
      rw [hlimit] at hover
      have := of_decide_eq_false (Except.ok.inj hover)
      omega

end Trial

end Centroids

import Centroids.Proofs.Batches
import Centroids.Proofs.Pairwise

/-! What a score adds up.  In exact arithmetic a sample variance needs no mean: it is a share of the
squared differences of all pairs.  So a score is zero only if the members of each cluster are equally
far from its center, and it depends neither on an order nor on clusters with fewer than two
members, which are not measured. -/
namespace Centroids

namespace Distance

variable {α ω : Type} [Scalar α] [Widening α ω] {d : Distance α ω}
  {between : List α → List α → ω} {points : Points α} {center : List α}

/-- Each member has its distance: all of them at once, or one at a time as the answer to all of them
has another shape. -/
inductive Measures (d : Distance α ω) (between : List α → List α → ω) (points : Points α)
    (center : List α) : Prop
  | batched {answer : Answer ω} : d.call points.toGrid (.ofList center) = .ok answer →
      answer.values.shape = [points.size] →
      answer.values.toList = points.rows.map (between · center) → Measures d between points center
  | pairwise {answer : Answer ω} : d.call points.toGrid (.ofList center) = .ok answer →
      answer.values.shape ≠ [points.size] →
      (∀ row ∈ points.rows, ∃ format,
        d.single (.ofList row) (.ofList center) = .ok (format, between row center)) →
      Measures d between points center

theorem rowByRow_eq_ok (hne : points.rows ≠ []) (h : ∀ row ∈ points.rows, ∃ format,
    d.single (.ofList row) (.ofList center) = .ok (format, between row center)) :
    ∃ format, d.rowByRow points center = .ok (format, points.rows.map (between · center)) := by
  have hrows : ∃ answers, points.rows.mapM (fun row => d.single (.ofList row) (.ofList center)) =
      .ok answers ∧ answers.map (·.2) = points.rows.map (between · center) := by
    generalize points.rows = rows at h
    clear hne
    induction rows with
    | nil => exact ⟨[], rfl, rfl⟩
    | cons row rows ih =>
      obtain ⟨format, hrow⟩ := h row (List.mem_cons_self ..)
      obtain ⟨answers, hanswers, hvalues⟩ := ih fun r hr => h r (List.mem_cons_of_mem _ hr)
      refine ⟨(format, between row center) :: answers, ?_, congrArg (_ :: ·) hvalues⟩
      rw [List.mapM_cons, hrow, hanswers]
      rfl
  obtain ⟨answers, hanswers, hvalues⟩ := hrows
  unfold rowByRow
  rw [hanswers, ← hvalues]
  cases answers with
  | nil => exact absurd (List.map_eq_nil_iff.1 hvalues.symm) hne
  | cons answer answers => exact ⟨answer.1, rfl⟩

/-- A formula measures a whole array as it measures the members of a cluster. -/
theorem ofMembers_formula_of_call {f : Formula α} {answer : Answer ω}
    (h : (metric (.formula f) : Distance α ω).call points.toGrid (.ofList center) = .ok answer) :
    (metric (.formula f) : Distance α ω).ofMembers points center = .ok (.native, answer.values.toList) ∧
      answer.values.shape = [points.size] := by
  simp only [call, Metric.call_toGrid] at h
  cases hds : f.distances points center with
  | error e =>
    rw [hds] at h
    cases h
  | ok ds =>
    rw [hds] at h
    cases h
    constructor
    · simp only [ofMembers, hds]
      rw [Grid.toList_map, Grid.toList_ofList]
      rfl
    · exact congrArg ([·]) (Formula.length_distances hds)

theorem Measures.ofMembers_eq (h : d.Measures between points center) (hne : points.rows ≠ []) :
    ∃ format, d.ofMembers points center = .ok (format, points.rows.map (between · center)) := by
  by_cases hformula : ∃ f, d = metric (.formula f)
  · obtain ⟨f, rfl⟩ := hformula
    cases h with
    | batched hcall hshape hlist =>
      rw [(ofMembers_formula_of_call hcall).1, hlist]
      exact ⟨_, rfl⟩
    | pairwise hcall hshape hrows => exact absurd (ofMembers_formula_of_call hcall).2 hshape
  · have hall : d.ofMembers points center = (do
        let answer ← d.call points.toGrid (.ofList center)
        if answer.values.shape = [points.size] then return (answer.format, answer.values.toList)
        else d.rowByRow points center) := by
      cases d with
      | metric m =>
        cases m with
        | formula f => exact absurd ⟨f, rfl⟩ hformula
        | custom name compute => rfl
      | function measure => rfl
      | value v => rfl
    cases h with
    | @batched answer hcall hshape hlist =>
      refine ⟨answer.format, ?_⟩
      rw [hall, hcall, ← hlist]
      exact if_pos hshape
    | pairwise hcall hshape hrows =>
      obtain ⟨format, hrows⟩ := rowByRow_eq_ok hne hrows
      refine ⟨format, ?_⟩
      rw [hall, hcall, ← hrows]
      exact if_neg hshape

end Distance

section Small

variable {F : Type} [Field F] [LinearOrder F] [Analytic F] {d e : Distance F F}

/-- Entries that change nothing can be left out of a loop. -/
theorem foldlM_filter {α β : Type} {f : β → α → Except Fault β} {keep : α → Bool} {xs : List α}
    (h : ∀ b, ∀ x ∈ xs, keep x = false → f b x = .ok b) (b : β) :
    (xs.filter keep).foldlM f b = xs.foldlM f b := by
  induction xs generalizing b with
  | nil => rfl
  | cons x xs ih =>
    have ih := ih fun b y hy => h b y (List.mem_cons_of_mem _ hy)
    rw [List.filter_cons, List.foldlM_cons]
    split
    · rw [List.foldlM_cons]
      exact congrArg _ (funext fun b => ih b)
    · rename_i hskip
      rw [h b x (List.mem_cons_self ..) (by simpa using hskip)]
      exact ih b

theorem foldlM_congr {α β : Type} {f g : β → α → Except Fault β} {xs : List α}
    (h : ∀ b, ∀ x ∈ xs, f b x = g b x) (b : β) : xs.foldlM f b = xs.foldlM g b := by
  induction xs generalizing b with
  | nil => rfl
  | cons x xs ih =>
    rw [List.foldlM_cons, List.foldlM_cons, h b x (List.mem_cons_self ..)]
    exact congrArg _ (funext fun b => ih (fun b y hy => h b y (List.mem_cons_of_mem _ hy)) b)

/-- A loop that adds up what it calculates arrives at the sum. -/
theorem foldlM_add {α F : Type} [AddMonoid F] {calculate : α → Except Fault F} {value : α → F}
    {xs : List α} (h : ∀ x ∈ xs, calculate x = .ok (value x)) (total : F) :
    xs.foldlM (fun total x => (calculate x).map (total + ·)) total =
      .ok (total + (xs.map value).sum) := by
  induction xs generalizing total with
  | nil => exact congrArg Except.ok (add_zero total).symm
  | cons x xs ih =>
    rw [List.foldlM_cons, h x (List.mem_cons_self ..), List.map_cons, List.sum_cons, ← add_assoc]
    exact ih (fun y hy => h y (List.mem_cons_of_mem _ hy)) _

namespace Partition

/-- Clusters that have something to vary. -/
def large {α : Type} (clusters : Partition α) : Partition α := clusters.filter (2 ≤ ·.size)

/-- A cluster with fewer than two members adds nothing to a score, and is not measured. -/
theorem score_eq_large (p : Partition F) : p.score d =
    p.large.foldlM (fun total c => (distanceVariance d c.points c.center).map (total + ·)) 0 := by
  have hskip : ∀ (total : F) (c : Cluster F), c.size < 2 →
      (distanceVariance d c.points c.center).map (total + ·) = .ok total := by
    intro total c hsmall
    have hzero : distanceVariance d c.points c.center = .ok 0 := if_pos hsmall
    rw [hzero]
    exact congrArg Except.ok (add_zero total)
  unfold score large
  rw [foldlM_filter, foldlM_filter]
  · intro total c _ hsmall
    exact hskip total c (not_le.1 (of_decide_eq_false hsmall))
  · intro total c _ hempty
    have hzero : c.size = 0 := by simpa [Cluster.isEmpty] using hempty
    exact hskip total c (by omega)

/-- A score depends on nothing but what is measured in clusters with at least two members. -/
theorem score_congr {p q : Partition F} (hlarge : q.large = p.large)
    (h : ∀ c ∈ p, 2 ≤ c.size → e.ofMembers c.points c.center = d.ofMembers c.points c.center) :
    q.score e = p.score d := by
  rw [score_eq_large, score_eq_large, hlarge]
  apply foldlM_congr
  intro total c hc
  obtain ⟨hmem, hsize⟩ := List.mem_filter.1 hc
  unfold distanceVariance
  rw [h c hmem (of_decide_eq_true hsize)]

end Partition

end Small

section Pairs

variable {F : Type} [Field F]

/-- The squared differences of all ordered pairs, added up. -/
def pairSquares (ds : List F) : F := (ds.map fun x => (ds.map fun y => (x - y) ^ 2).sum).sum

def pairVariance (ds : List F) : F :=
  1 / ((2 : ℕ) * ds.length * (ds.length - 1)) * pairSquares ds

theorem pairVariance_perm {ds es : List F} (h : ds.Perm es) :
    pairVariance ds = pairVariance es := by
  have hrow : ∀ x : F, (ds.map fun y => (x - y) ^ 2).sum = (es.map fun y => (x - y) ^ 2).sum :=
    fun x => (h.map _).sum_eq
  unfold pairVariance pairSquares
  simp only [hrow]
  rw [(h.map _).sum_eq, h.length_eq]

/-- All pairs keep their differences when one number is added to all. -/
theorem pairVariance_add (ds : List F) (k : F) : pairVariance (ds.map (· + k)) = pairVariance ds := by
  simp [pairVariance, pairSquares, Function.comp_def]

variable [LinearOrder F] [IsStrictOrderedRing F]

theorem pairSquares_nonneg (ds : List F) : 0 ≤ pairSquares ds := by
  apply List.sum_nonneg
  rw [List.forall_mem_map]
  intro x _
  apply List.sum_nonneg
  rw [List.forall_mem_map]
  exact fun y _ => sq_nonneg _

theorem pairSquares_eq_zero_iff {ds : List F} : pairSquares ds = 0 ↔ ∀ x ∈ ds, ∀ y ∈ ds, x = y := by
  have hrow : ∀ x : F, ∀ z ∈ ds.map fun y => (x - y) ^ 2, 0 ≤ z := by
    intro x
    rw [List.forall_mem_map]
    exact fun y _ => sq_nonneg _
  constructor
  · intro hzero x hx y hy
    have hrowzero : (ds.map fun y => (x - y) ^ 2).sum = 0 := by
      apply List.all_zero_of_le_zero_le_of_sum_eq_zero _ hzero (List.mem_map_of_mem hx)
      rw [List.forall_mem_map]
      exact fun x _ => List.sum_nonneg (hrow x)
    have hcell := List.all_zero_of_le_zero_le_of_sum_eq_zero (hrow x) hrowzero
      (List.mem_map_of_mem (f := fun y => (x - y) ^ 2) hy)
    exact sub_eq_zero.1 (pow_eq_zero_iff two_ne_zero |>.1 hcell)
  · intro hequal
    apply List.sum_eq_zero
    rw [List.forall_mem_map]
    intro x hx
    apply List.sum_eq_zero
    rw [List.forall_mem_map]
    intro y hy
    rw [hequal x hx y hy, sub_self, zero_pow two_ne_zero]

variable {ds : List F}

section Large

variable (h : 2 ≤ ds.length)
include h

theorem pairVariance_factor_pos : (0 : F) < 1 / ((2 : ℕ) * ds.length * (ds.length - 1)) := by
  have hlength : (2 : F) ≤ ds.length := by exact_mod_cast h
  have hrest : (0 : F) < ds.length - 1 := by linarith
  positivity

theorem pairVariance_nonneg : 0 ≤ pairVariance ds :=
  mul_nonneg (pairVariance_factor_pos h).le (pairSquares_nonneg ds)

theorem pairVariance_eq_zero_iff : pairVariance ds = 0 ↔ ∀ x ∈ ds, ∀ y ∈ ds, x = y := by
  rw [← pairSquares_eq_zero_iff]
  exact mul_eq_zero_iff_left (pairVariance_factor_pos h).ne'

end Large

variable [Analytic F]

/-- What a number deviates from the others, over all numbers, is what they deviate from their
average, twice for each. -/
theorem pairSquares_eq (hne : ds ≠ []) : pairSquares ds =
    2 * ds.length * (ds.map fun x => (x - Scalar.average ds) ^ 2).sum := by
  have hrow : ∀ x : F, (ds.map fun y => (x - y) ^ 2).sum =
      (ds.map fun y => (y - Scalar.average ds) ^ 2).sum +
        ds.length * (x - Scalar.average ds) ^ 2 := by
    intro x
    have hflip : (fun y => (x - y) ^ 2) = fun y : F => (y - x) ^ 2 := funext fun y => sub_sq_comm x y
    rw [hflip, Exact.sum_sq_sub_eq_average hne x, sub_sq_comm]
  unfold pairSquares
  rw [List.map_congr_left fun x _ => hrow x, List.sum_map_add, List.map_const', List.sum_replicate,
    List.sum_map_mul_left, nsmul_eq_mul]
  ring

theorem sampleVariance_eq_pairs (h : 2 ≤ ds.length) : sampleVariance ds = pairVariance ds := by
  have hne : ds ≠ [] := List.ne_nil_of_length_pos (by omega)
  have hlength : (ds.length : F) ≠ 0 := Nat.cast_ne_zero.2 (by omega)
  have hrest : (ds.length : F) - 1 ≠ 0 := by
    rw [sub_ne_zero, Nat.cast_ne_one]
    omega
  have hsquares : (ds.map fun x => (x - Scalar.average ds) * (x - Scalar.average ds)) =
      ds.map fun x => (x - Scalar.average ds) ^ 2 := List.map_congr_left fun x _ => (pow_two _).symm
  have hcount : (Scalar.ofNat (ds.length - 1) : F) = ds.length - 1 := Nat.cast_pred (by omega)
  unfold sampleVariance pairVariance
  dsimp only
  rw [hsquares, hcount, Exact.total_eq_sum, pairSquares_eq hne, Nat.cast_ofNat]
  field_simp

end Pairs

namespace Partition

/-- The same clusters in another order, with their members in another order. -/
def Rearranges {α : Type} (q p : Partition α) : Prop :=
  ∃ r : Partition α, r.Perm p ∧
    List.Forall₂ (fun c e => e.center = c.center ∧ e.points.rows.Perm c.points.rows) r q

variable {F : Type} [Field F] {between : List F → List F → F} {p q : Partition F}

/-- The variances of the distances in each cluster with at least two members, by their pairs. -/
def dispersion (between : List F → List F → F) (p : Partition F) : F :=
  (p.large.map fun c => pairVariance (c.points.rows.map (between · c.center))).sum

theorem dispersion_of_rearranges (h : q.Rearranges p) :
    q.dispersion between = p.dispersion between := by
  obtain ⟨r, hperm, hmembers⟩ := h
  have hsame : q.dispersion between = dispersion between r := by
    unfold dispersion large
    clear hperm
    induction hmembers with
    | nil => rfl
    | @cons c e r q hc hrest ih =>
      obtain ⟨hcenter, hrows⟩ := hc
      have hsize : e.size = c.size := hrows.length_eq
      by_cases hlarge : 2 ≤ c.size
      · rw [List.filter_cons_of_pos (by simpa [hsize] using hlarge),
          List.filter_cons_of_pos (by simpa using hlarge), List.map_cons, List.map_cons,
          List.sum_cons, List.sum_cons, ih, hcenter, pairVariance_perm (hrows.map _)]
      · rw [List.filter_cons_of_neg (by simpa [hsize] using hlarge),
          List.filter_cons_of_neg (by simpa using hlarge), ih]
  rw [hsame]
  exact ((hperm.filter _).map _).sum_eq

theorem dispersion_add (between : List F → List F → F) (k : F) (p : Partition F) :
    p.dispersion (fun x c => between x c + k) = p.dispersion between := by
  refine congrArg List.sum (List.map_congr_left fun c _ => ?_)
  have hadd := pairVariance_add (c.points.rows.map (between · c.center)) k
  rwa [List.map_map] at hadd

variable [LinearOrder F] [IsStrictOrderedRing F]

/-- The variances that are added up are not negative. -/
theorem dispersion_parts (between : List F → List F → F) (p : Partition F) :
    ∀ v ∈ p.large.map fun c => pairVariance (c.points.rows.map (between · c.center)), 0 ≤ v := by
  rw [List.forall_mem_map]
  intro c hc
  have hlarge : 2 ≤ c.points.rows.length := of_decide_eq_true (List.mem_filter.1 hc).2
  exact pairVariance_nonneg (by rwa [List.length_map])

/-- Distances that differ anywhere in a cluster show in the dispersion. -/
theorem dispersion_eq_zero_iff : p.dispersion between = 0 ↔ ∀ c ∈ p, ∀ x ∈ c.points.rows,
    ∀ y ∈ c.points.rows, between x c.center = between y c.center := by
  have hcluster : ∀ c ∈ p.large, pairVariance (c.points.rows.map (between · c.center)) = 0 ↔
      ∀ x ∈ c.points.rows, ∀ y ∈ c.points.rows, between x c.center = between y c.center := by
    intro c hc
    have hlarge : 2 ≤ c.points.rows.length := of_decide_eq_true (List.mem_filter.1 hc).2
    rw [pairVariance_eq_zero_iff (by rwa [List.length_map])]
    simp only [List.forall_mem_map]
  constructor
  · intro hzero c hc x hx y hy
    by_cases hlarge : 2 ≤ c.size
    · have hmem : c ∈ p.large := List.mem_filter.2 ⟨hc, decide_eq_true hlarge⟩
      exact (hcluster c hmem).1 (List.all_zero_of_le_zero_le_of_sum_eq_zero
        (dispersion_parts between p) hzero (List.mem_map_of_mem hmem)) x hx y hy
    · -- Only one member is left to compare.
      have hone : c.points.rows.length ≤ 1 := not_lt.1 hlarge
      match hrows : c.points.rows, hone with
      | [], _ =>
        rw [hrows] at hx
        cases hx
      | [z], _ =>
        rw [hrows, List.mem_singleton] at hx hy
        rw [hx, hy]
  · intro hequal
    apply List.sum_eq_zero
    rw [List.forall_mem_map]
    intro c hc
    exact (hcluster c hc).2 (hequal c (List.mem_filter.1 hc).1)

variable [Analytic F] {d : Distance F F}

/-- Where the members are measured, the score is the dispersion of their distances. -/
theorem score_eq_dispersion
    (h : ∀ c ∈ p, 2 ≤ c.size → d.Measures between c.points c.center) :
    p.score d = .ok (p.dispersion between) := by
  have hvariance : ∀ c ∈ p.large, distanceVariance d c.points c.center =
      .ok (pairVariance (c.points.rows.map (between · c.center))) := by
    intro c hc
    obtain ⟨hmem, hlarge⟩ := List.mem_filter.1 hc
    have hsize : 2 ≤ c.points.size := of_decide_eq_true hlarge
    have hne : c.points.rows ≠ [] := List.ne_nil_of_length_pos (Nat.lt_of_lt_of_le Nat.two_pos hsize)
    obtain ⟨format, hmembers⟩ := (h c hmem hsize).ofMembers_eq hne
    unfold distanceVariance
    rw [if_neg (not_lt.2 hsize), hmembers]
    exact congrArg Except.ok (sampleVariance_eq_pairs (by rwa [List.length_map]))
  rw [score_eq_large, foldlM_add hvariance, zero_add]
  rfl

/-- A score is the sum, over clusters with at least two members, of a share of the squared differences
of the distances in all pairs of members.  It is not negative, and zero exactly when the members of
each cluster are equally far from its center; clusters and members may be put in another order, and
one number may be added to all distances.  Clusters with fewer than two members may be put in or
left out anywhere, whatever the metric would make of them. -/
theorem score_of_measures :
    (∀ (d : Distance F F) (between : List F → List F → F) (p : Partition F),
      (∀ c ∈ p, 2 ≤ c.size → d.Measures between c.points c.center) →
      p.score d = .ok (p.dispersion between) ∧ 0 ≤ p.dispersion between ∧
      (p.dispersion between = 0 ↔ ∀ c ∈ p, ∀ x ∈ c.points.rows, ∀ y ∈ c.points.rows,
        between x c.center = between y c.center) ∧
      (∀ q : Partition F, q.Rearranges p →
        (∀ c ∈ q, 2 ≤ c.size → d.Measures between c.points c.center) → q.score d = p.score d) ∧
      ∀ (e : Distance F F) (k : F), (∀ c ∈ p, 2 ≤ c.size →
        e.Measures (fun x center => between x center + k) c.points c.center) →
        p.score e = p.score d) ∧
    ∀ (d e : Distance F F) (p q : Partition F), q.large = p.large →
      (∀ c ∈ p, 2 ≤ c.size → e.ofMembers c.points c.center = d.ofMembers c.points c.center) →
      q.score e = p.score d := by
  constructor
  · intro d between p h
    have hscore := score_eq_dispersion h
    refine ⟨hscore, List.sum_nonneg (dispersion_parts between p), dispersion_eq_zero_iff, ?_, ?_⟩
    · intro q hrearranged hq
      rw [hscore, score_eq_dispersion hq, dispersion_of_rearranges hrearranged]
    · intro e k he
      rw [hscore, score_eq_dispersion he, dispersion_add]
  · intro d e p q hlarge h
    exact score_congr hlarge h

section Corner

/-- Neither roots nor clocks count in sums of columns. -/
local instance unclocked : Analytic ℚ := ⟨Rat.sqrt, fun _ => 1⟩

/-- Three members with two coordinates. -/
def corner : Cluster ℚ :=
  ⟨[0, 0], ⟨2, [[0, 0], [3, 4], [6, 8]], by simp⟩, none, fun _ => rfl, fun _ h => nomatch h⟩

/-- A single member, which no function of two coordinates measures. -/
def outlier : Cluster ℚ := ⟨[1], ⟨1, [[5]], by simp⟩, none, fun _ => rfl, fun _ h => nomatch h⟩

def cityBlockOf (x center : List ℚ) : ℚ := (cityBlock (α := ℚ) (ω := ℚ) x center).2

theorem corner_measures : (Distance.function columnSums : Distance ℚ ℚ).Measures cityBlockOf
    corner.points corner.center := by
  have hshape : (columnSums (ω := ℚ) corner.points.toGrid (.ofList corner.center)).map
      (·.values.shape) = .ok [2] := by decide +kernel
  obtain ⟨answer, hanswer, htwo⟩ := map_eq_ok.1 hshape
  refine .pairwise hanswer ?_ fun row hrow => ⟨.native, ?_⟩
  · rw [htwo]
    decide
  · exact columnSums_isPairwise row corner.center (corner.points.length_row row hrow)

theorem score_of_measures_corner :
    score (.function columnSums) [corner] = .ok (49 : ℚ) ∧
      score (.function columnSums) [outlier, corner, .bare [7]] = .ok (49 : ℚ) := by
  obtain ⟨hmeasured, hany⟩ := score_of_measures (F := ℚ)
  obtain ⟨hscore, -⟩ := hmeasured (.function columnSums) cityBlockOf [corner] fun c hc _ => by
    rw [List.mem_singleton.1 hc]
    exact corner_measures
  have hvalue : dispersion cityBlockOf [corner] = 49 := by decide +kernel
  rw [hvalue] at hscore
  refine ⟨hscore, ?_⟩
  rw [← hscore]
  exact hany _ _ _ _ (by decide +kernel) fun _ _ _ => rfl

end Corner

end Partition

end Centroids

import Centroids.Proofs.Descent
import Centroids.Proofs.Keeping

/-! Termination of a run without a limit.  In exact arithmetic a round that takes no point and does
not meet the criterion moves a center, so it lowers the cost; where it leads depends on the labels
only, so no labels come twice, and there are only so many. -/
namespace Centroids

theorem length_le_pow_of_nodup {seen : List (List Int)} {count size : Nat} (hnodup : seen.Nodup)
    (hseen : ∀ labels ∈ seen, labels.length = size ∧ ∀ l ∈ labels, 0 ≤ l ∧ l < count) :
    seen.length ≤ count ^ size := by
  let codes := Fintype.piFinset fun _ : Fin size => Finset.Ico (0 : Int) count
  have hcodes : seen.toFinset ⊆ codes.image List.ofFn := by
    intro labels hmem
    rcases hseen labels (List.mem_toFinset.1 hmem) with ⟨rfl, hrange⟩
    refine Finset.mem_image.2 ⟨fun i => labels[i], Fintype.mem_piFinset.2 ?_, List.ofFn_getElem⟩
    intro i
    exact Finset.mem_Ico.2 (hrange _ (List.getElem_mem _))
  calc seen.length = seen.toFinset.card := (List.toFinset_card_of_nodup hnodup).symm
    _ ≤ (codes.image List.ofFn).card := Finset.card_le_card hcodes
    _ ≤ codes.card := Finset.card_image_le
    _ = count ^ size := by simp [codes, Fintype.card_piFinset]

theorem Formula.width_euclidean {α : Type} (squared : Bool) (dim : Nat) :
    (euclidean squared : Formula α).width? dim dim = some dim :=
  Grid.joinLength?_self dim

variable {F : Type} [Field F] [LinearOrder F] [Analytic F] {points : Points F}

/-- What clusters cost with squared distances. -/
def Partition.charge (points : Points F) (clusters : Partition F) : F :=
  (clusters.map (Cluster.charge (.euclidean true) points.dim points)).sum

section Cluster

variable {c : Cluster F} {mean : List F} {least : Nat → F} (hc : c.Within points)
  (hmean : c.points.mean = .ok mean)
  (hleast : ∀ row < points.size,
    least row ≤ (Formula.euclidean true).between points.dim (points.row row) mean)

include hc in
theorem Cluster.Within.charge_eq : c.charge (.euclidean true) points.dim points =
    ((points.select c.places).rows.map fun row =>
      (Formula.euclidean true).between points.dim row c.center).sum := by
  rw [Points.rows_select hc.lt_size, List.map_map]
  rfl

include hc hmean in
theorem Cluster.Within.length_center_of_mean : c.center.length = points.dim := by
  apply hc.length_center
  intro hnil
  have hrows := Formula.rows_ne_nil_of_mean hmean
  rw [hc.selected, Points.rows_select hc.lt_size, hnil] at hrows
  exact hrows rfl

variable [IsStrictOrderedRing F]

include hc hleast in
theorem Cluster.sum_least_le_around : (c.places.map least).sum ≤
    ((points.select c.places).rows.map fun row =>
      (Formula.euclidean true).between points.dim row mean).sum := by
  rw [Points.rows_select hc.lt_size, List.map_map]
  apply List.sum_le_sum
  intro row hrow
  exact hleast row (hc.lt_size row hrow)

include hc hmean hleast in
/-- Rows cost at most as much around the nearest centers as around the one they had. -/
theorem Cluster.sum_least_le_charge :
    (c.places.map least).sum ≤ c.charge (.euclidean true) points.dim points := by
  have hlength := hc.length_center_of_mean hmean
  rw [hc.selected] at hmean
  rw [hc.charge_eq]
  apply (Cluster.sum_least_le_around hc hleast).trans
  exact Formula.sum_between_mean_le hmean rfl (Formula.width_euclidean true points.dim) hlength

include hc hmean hleast in
/-- They cost as much only if that was their mean. -/
theorem Cluster.center_eq_mean
    (h : c.charge (.euclidean true) points.dim points ≤ (c.places.map least).sum) :
    c.center = mean := by
  have hlength := hc.length_center_of_mean hmean
  rw [hc.selected] at hmean
  rw [hc.charge_eq] at h
  exact Formula.eq_mean_of_sum_between_le hmean hlength
    (h.trans (Cluster.sum_least_le_around hc hleast))

end Cluster

namespace Trial

variable {plan : Plan F} {count : Nat} {s t : Stage F}

/-- Rounds in a row that take nothing and do not meet the criterion, with the labels before each. -/
inductive Streak (plan : Plan F) (points : Points F) : Stage F → List (List Int) → Stage F → Prop
  | nil {s : Stage F} : Streak plan points s [] s
  | concat {s t u : Stage F} {seen : List (List Int)} :
      Streak plan points s seen t → Kept plan points t false u →
      Streak plan points s (seen ++ [t.clusters.labels points.size]) u

theorem Streak.regular {seen : List (List Int)} (hs : s.Regular plan.metric points count)
    (h : Streak plan points s seen t) : t.Regular plan.metric points count := by
  induction h with
  | nil => exact hs
  | concat _ hkept ih => exact hkept.regular ih

variable [IsStrictOrderedRing F]

/-- A round that takes nothing and does not meet the criterion lowers the cost. -/
theorem Kept.charge_lt (hmetric : plan.metric = .formula (.euclidean true))
    (hs : s.Regular plan.metric points count) (h : Kept plan points s false t) :
    t.clusters.charge points < s.clusters.charge points := by
  rcases h.exists_mean_ne hs with ⟨moved, hmoved, hne⟩
  rcases hs.covers with ⟨labels, hassigned, -⟩
  rcases h.means hassigned with ⟨hmeans, next, hassign⟩
  have hnext := (assigned_of_assign hassign).1
  have hshares := hassigned.divides.toShares
  rw [hmetric] at hnext
  rcases hnext.exists_least (Formula.width_euclidean true points.dim)
    (hshares.length_of_means hmeans) with ⟨least, hafter, hleast⟩
  have hle : ∀ c ∈ s.clusters,
      (c.places.map least).sum ≤ c.charge (.euclidean true) points.dim points := by
    intro c hc
    rcases h.exists_mean hassigned hc with ⟨mean, hmem, hmean⟩
    exact Cluster.sum_least_le_charge (hshares.within c hc) hmean
      fun row hrow => hleast row hrow mean hmem
  have hlt : (moved.places.map least).sum <
      moved.charge (.euclidean true) points.dim points := by
    by_contra hge
    rcases h.exists_mean hassigned hmoved with ⟨mean, hmem, hmean⟩
    have hcenter := Cluster.center_eq_mean (hshares.within moved hmoved) hmean
      (fun row hrow => hleast row hrow mean hmem) (not_lt.1 hge)
    rw [hcenter] at hne
    exact hne hmean
  calc t.clusters.charge points = (t.clusters.map fun c => (c.places.map least).sum).sum := hafter
    _ = (s.clusters.map fun c => (c.places.map least).sum).sum := by
      rw [hnext.divides.toShares.sum_places, hshares.sum_places]
    _ < s.clusters.charge points := List.sum_lt_sum _ _ hle ⟨moved, hmoved, hlt⟩

namespace Streak

variable {seen : List (List Int)}

/-- Labels were seen before a round that led to at least the cost there is now. -/
theorem exists_kept_of_mem (hmetric : plan.metric = .formula (.euclidean true))
    (hs : s.Regular plan.metric points count) (h : Streak plan points s seen t)
    {labels : List Int} (hlabels : labels ∈ seen) :
    ∃ u v, u.Covers plan.metric points count ∧ u.clusters.labels points.size = labels ∧
      Kept plan points u false v ∧ t.clusters.charge points ≤ v.clusters.charge points := by
  induction h with
  | nil => cases hlabels
  | concat hstreak hkept ih =>
    have hregular := hstreak.regular hs
    rcases List.mem_append.1 hlabels with hbefore | hlast
    · rcases ih hbefore with ⟨u, v, hu, hseen, hround, hle⟩
      exact ⟨u, v, hu, hseen, hround, (hkept.charge_lt hmetric hregular).le.trans hle⟩
    · exact ⟨_, _, hregular.covers, (List.mem_singleton.1 hlast).symm, hkept, le_rfl⟩

/-- No labels come twice: the same round would follow them, at a higher cost than there is now. -/
theorem nodup (hmetric : plan.metric = .formula (.euclidean true))
    (hs : s.Regular plan.metric points count) (h : Streak plan points s seen t) : seen.Nodup := by
  induction h with
  | nil => exact List.nodup_nil
  | concat hstreak hkept ih =>
    have hregular := hstreak.regular hs
    apply List.Nodup.append ih (List.nodup_singleton _)
    rw [List.disjoint_singleton]
    intro hmem
    rcases hstreak.exists_kept_of_mem hmetric hs hmem with ⟨u, v, hu, hsame, hround, hle⟩
    have hclusters := hkept.clusters_eq hregular.covers hu hsame.symm hround
    have hlt := hkept.charge_lt hmetric hregular
    rw [hclusters] at hlt
    exact (hlt.trans_le hle).false

theorem length_le (hmetric : plan.metric = .formula (.euclidean true))
    (hs : s.Regular plan.metric points count) (h : Streak plan points s seen t) :
    seen.length ≤ count ^ points.size := by
  apply length_le_pow_of_nodup (h.nodup hmetric hs)
  intro labels hlabels
  rcases h.exists_kept_of_mem hmetric hs hlabels with ⟨u, -, ⟨others, hassigned, -⟩, rfl, -⟩
  rw [hassigned.labels_eq]
  refine ⟨hassigned.length_labels, ?_⟩
  have hrange := Assignment.labels_lt hassigned.labelled
  rw [List.length_map, hassigned.length_eq] at hrange
  exact hrange

end Streak

/-- Rounds that take nothing do not go on for ever. -/
theorem not_kept_forever (hmetric : plan.metric = .formula (.euclidean true))
    {stages : Nat → Stage F} (hs : (stages 0).Regular plan.metric points count)
    (h : ∀ i, Kept plan points (stages i) false (stages (i + 1))) : False := by
  have hstreak : ∀ n, ∃ seen, seen.length = n ∧ Streak plan points (stages 0) seen (stages n) := by
    intro n
    induction n with
    | zero => exact ⟨[], rfl, .nil⟩
    | succ n ih =>
      rcases ih with ⟨seen, rfl, hseen⟩
      exact ⟨_, by rw [List.length_append]; rfl, hseen.concat (h _)⟩
  rcases hstreak (count ^ points.size + 1) with ⟨seen, hlength, hseen⟩
  have hle := hseen.length_le hmetric hs
  omega

/-- Where no cluster is ever empty, as many rounds as there are labels left to be seen, and one more,
lead to one that meets the criterion. -/
theorem Streak.exists_rounds (hmetric : plan.metric = .formula (.euclidean true))
    (hlimit : plan.limit = .unlimited) (hdetails : plan.verbosity.details.isSome)
    (hs : s.Regular plan.metric points count) {seen : List (List Int)} {left iteration : Nat}
    {clusters : Partition F} {j : Journal} (hleft : seen.length + left = count ^ points.size + 1)
    (h : Streak plan points s seen (.of iteration clusters j))
    (hsizes : ∀ t, Relation.ReflTransGen (Round plan points · false ·) (.of iteration clusters j) t →
      ∀ c ∈ t.clusters, c.size ≠ 0) :
    ∃ n ≤ left, ∀ horizon ≥ n, ∃ outcome k,
      rounds plan points horizon iteration clusters j = .ok outcome k ∧
      outcome.converged = true ∧ outcome.iterations = iteration + n := by
  have hlength := h.length_le hmetric hs
  induction left generalizing seen iteration clusters j with
  | zero => omega
  | succ left ih =>
    have hstop : isOver plan iteration = .ok false := by
      unfold isOver
      rw [hlimit]
    rcases exists_kept hmetric (Formula.width_euclidean true points.dim) (h.regular hs).covers hstop
      (hsizes _ .refl) with ⟨met, t, hkept⟩
    cases met with
    | true =>
      refine ⟨1, by omega, ?_⟩
      intro horizon hhorizon
      rcases Nat.exists_eq_add_of_le' hhorizon with ⟨more, rfl⟩
      rcases rounds_of_met hdetails hkept.toRound more with ⟨k, hrounds, -⟩
      exact ⟨_, k, hrounds, rfl, rfl⟩
    | false =>
      rcases rounds_of_unmet hdetails hkept.toRound with ⟨next, k, rfl, hrounds⟩
      have hnext := h.concat hkept
      have hcount : (seen ++ [clusters.labels points.size]).length + left =
          count ^ points.size + 1 := by
        rw [List.length_append, List.length_singleton]
        omega
      have hlater := fun t ht => hsizes t (.head hkept.toRound ht)
      rcases ih hcount hnext hlater (hnext.length_le hmetric hs) with ⟨n, hn, hend⟩
      refine ⟨n + 1, by omega, ?_⟩
      intro horizon hhorizon
      rcases Nat.exists_eq_add_of_le' (show 1 ≤ horizon by omega) with ⟨more, rfl⟩
      rcases hend more (by omega) with ⟨outcome, k', hmore, hconverged, hiterations⟩
      rw [← hrounds] at hmore
      exact ⟨outcome, k', hmore, hconverged, by omega⟩

/-- In exact arithmetic, with squared distances, no limit and a tolerance that is not negative, rounds
that take nothing do not go on for ever from any stage of a run.  Where no round from a stage on
begins with an empty cluster, the run converges after at most one round more than there are labels
for the points. -/
theorem terminates (hmetric : plan.metric = .formula (.euclidean true)) {maxIter : Value}
    {x : Numeral} (hlimit : plan.limit = .ofValue maxIter) (hvalue : maxIter.numeral? = some x)
    (hneg : x.lt (.int 0) = true) (hdetails : plan.verbosity.details.isSome) {iteration : Nat}
    {clusters : Partition F} {j : Journal}
    (hs : (Stage.of iteration clusters j).Regular plan.metric points count) :
    (¬ ∃ stages : Nat → Stage F, stages 0 = .of iteration clusters j ∧
      ∀ i, Kept plan points (stages i) false (stages (i + 1))) ∧
    ((∀ t, Relation.ReflTransGen (Round plan points · false ·) (.of iteration clusters j) t →
        ∀ c ∈ t.clusters, c.size ≠ 0) →
      ∃ n ≤ count ^ points.size + 1, ∀ horizon ≥ n, ∃ outcome k,
        rounds plan points horizon iteration clusters j = .ok outcome k ∧
        outcome.converged = true ∧ outcome.iterations = iteration + n) := by
  constructor
  · rintro ⟨stages, hfirst, hkept⟩
    rw [← hfirst] at hs
    exact not_kept_forever hmetric hs hkept
  · intro hsizes
    have hunlimited := hlimit.trans (limit_eq_unlimited hvalue hneg)
    exact Streak.exists_rounds hmetric hunlimited hdetails hs (Nat.zero_add _) .nil hsizes

section Spaced

local instance : Analytic ℚ := ⟨Rat.sqrt, fun _ => 1⟩

def endless : Plan ℚ :=
  { clusters := 2
    seeding := .random
    metric := .formula (.euclidean true)
    handler := .strategy .largestVariance
    limit := .ofValue (.int (-1))
    verbosity := ⟨false, some false⟩ }

/-- A generator of zeros takes the first two as centers, so that the second changes its cluster. -/
def spaced : Points ℚ := ⟨1, [[0], [1], [10]], by decide⟩

/-- What the seeding and two rounds lead to: the second changes no label. -/
theorem exists_moves_spaced : ∃ clusters labels g next next' g' g'',
    start endless spaced ⟨Vector.replicate 624 0, 0⟩ = .ok (clusters, labels) g ∧
    move endless spaced clusters g = .ok (next, [0, 0, 1], false) g' ∧
    move endless spaced next g' = .ok (next', [0, 0, 1], false) g'' ∧
    clusters.map (·.size) = [1, 2] ∧ next.map (·.size) = [2, 1] := by
  have hmoves : (match start endless spaced ⟨Vector.replicate 624 0, 0⟩ with
      | .ok (clusters, _) g => match move endless spaced clusters g with
        | .ok (next, labels, reseeded) g' => match move endless spaced next g' with
          | .ok (_, labels', reseeded') _ => some (clusters.map (·.size), next.map (·.size),
            (labels, reseeded), labels', reseeded')
          | .error _ _ => none
        | .error _ _ => none
      | .error _ _ => none) = some ([1, 2], [2, 1], ([0, 0, 1], false), [0, 0, 1], false) := by
    decide +kernel
  split at hmoves
  · rename_i clusters labels g hstart
    split at hmoves
    · rename_i next moved reseeded g' hmove
      split at hmoves
      · rename_i next' moved' reseeded' g'' hagain
        simp only [Option.some.injEq, Prod.mk.injEq] at hmoves
        rcases hmoves with ⟨hsizes, hnext, ⟨rfl, rfl⟩, rfl, rfl⟩
        exact ⟨clusters, labels, g, next, next', g', g'', hstart, hmove, hagain, hsizes, hnext⟩
      · cases hmoves
    · cases hmoves
  · cases hmoves

theorem size_ne_zero {clusters : Partition ℚ} {sizes : List Nat}
    (h : clusters.map (·.size) = sizes) (hpos : 0 ∉ sizes) : ∀ c ∈ clusters, c.size ≠ 0 := by
  intro c hc hzero
  apply hpos
  rw [← h, ← hzero]
  exact List.mem_map_of_mem hc

theorem terminates_spaced : ∃ clusters labels g n,
    start endless spaced ⟨Vector.replicate 624 0, 0⟩ = .ok (clusters, labels) g ∧ n ≤ 2 ^ 3 + 1 ∧
    ∀ horizon ≥ n, ∃ outcome k, rounds endless spaced horizon 0 clusters
        ⟨g, ⟨.int 0, .int 1, [], some (.ofList labels), 0⟩, []⟩ = .ok outcome k ∧
      outcome.converged = true ∧ outcome.iterations = 0 + n := by
  rcases exists_moves_spaced with
    ⟨clusters, labels, g, next, next', g', g'', hstart, hmove, hagain, hsizes, hnext⟩
  let j : Journal := ⟨g, ⟨.int 0, .int 1, [], some (.ofList labels), 0⟩, []⟩
  have hregular : (Stage.of 0 clusters j).Regular endless.metric spaced 2 :=
    @regular_of_start ℚ ℚ _ _ _ endless spaced clusters labels _ g (.int 0) (.int 0)
      ⟨.int 0, .int 1, [], none, 0⟩ (by decide) rfl rfl (by decide) hstart
  have hfirst : ∀ t, Round endless spaced (.of 0 clusters j) false t →
      t.clusters = next ∧ t.generator = g' ∧
        t.criterion.previous = some (.ofList [0, 0, 1]) := by
    intro t h
    rcases h.moves with ⟨labels', reseeded, hmoves, hcheck⟩
    have hsame := hmove.symm.trans hmoves
    injection hsame with hpair hgenerator
    cases hpair
    exact ⟨rfl, hgenerator.symm, (Criterion.check_eq_ok hcheck).1⟩
  -- The second round leaves the labels as they are and so meets the criterion.
  have hsecond : ∀ t u, Round endless spaced (.of 0 clusters j) false t →
      ¬ Round endless spaced t false u := by
    intro t u ht hu
    rcases hfirst t ht with ⟨rfl, rfl, hprevious⟩
    have hkept := ht.regular hregular
    rcases hu.moves with ⟨labels', reseeded, hmoves, hcheck⟩
    have hsame := hagain.symm.trans hmoves
    injection hsame with hpair
    cases hpair
    rcases Criterion.met_of_eq hprevious hkept.patience hkept.tolerance with ⟨c, hmet⟩
    rw [hmet] at hcheck
    cases hcheck
  have hreached : ∀ t, Relation.ReflTransGen (Round endless spaced · false ·)
      (.of 0 clusters j) t → ∀ c ∈ t.clusters, c.size ≠ 0 := by
    intro t ht
    rcases ht.cases_head with rfl | ⟨u, hu, htail⟩
    · exact size_ne_zero hsizes (by decide)
    · rcases htail.cases_head with rfl | ⟨v, hv, -⟩
      · rw [(hfirst u hu).1]
        exact size_ne_zero hnext (by decide)
      · exact absurd hv (hsecond u v hu)
  have hlimit : endless.limit = .ofValue (.int (-1)) := rfl
  rcases (terminates rfl hlimit rfl (by decide) rfl hregular).2 hreached with ⟨n, hn, hend⟩
  exact ⟨clusters, labels, g, n, hstart, hn, hend⟩

end Spaced

end Trial

end Centroids

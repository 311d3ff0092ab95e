import Mathlib
import Centroids.Number.Logarithm
import Centroids.Objective
import Centroids.Proofs.Share

/-! Functions of one point and a center.  All members of a cluster are handed to such a function at
once, and what it makes of them counts if it has as many values as there are members.  So they are
measured one by one exactly when that answer has another shape, or happens to hold their distances. -/
namespace Centroids

variable {α ω : Type}

namespace Distance

section Measuring

variable [Scalar α] [Widening α ω]

/-- A point and a center of one length have one distance; of several points nothing is said. -/
def IsPairwise (d : Distance α ω) (between : List α → List α → Format × ω) : Prop :=
  ∀ x center, x.length = center.length →
    d.single (.ofList x) (.ofList center) = .ok (between x center)

def oneByOne (between : List α → List α → Format × ω) (points : Points α) (center : List α) :
    List ω :=
  points.rows.map fun x => (between x center).2

/-- An answer to all points at once that has another shape, or has the distance of each of them. -/
def Faithful (measure : Grid α → Grid α → Except Fault (Answer ω))
    (between : List α → List α → Format × ω) (points : Points α) (center : List α) : Prop :=
  ∃ answer, measure points.toGrid (.ofList center) = .ok answer ∧
    (answer.values.shape = [points.size] → answer.values.toList = oneByOne between points center)

variable {d : Distance α ω} {measure : Grid α → Grid α → Except Fault (Answer ω)}
  {between : List α → List α → Format × ω} {points : Points α} {center : List α}

theorem IsPairwise.rowByRow_eq (hpair : d.IsPairwise between) (hdim : points.dim = center.length)
    (hpos : 0 < points.size) :
    ∃ format, d.rowByRow points center = .ok (format, oneByOne between points center) := by
  have hrows : points.rows.mapM (fun row => d.single (.ofList row) (.ofList center)) =
      .ok (points.rows.map (between · center)) := by
    rw [mapM_eq_ok, List.map_map]
    apply List.map_congr_left
    intro row hrow
    exact hpair row center ((points.length_row row hrow).trans hdim)
  unfold rowByRow oneByOne
  rw [hrows]
  cases hlist : points.rows with
  | nil => simp [Points.size, hlist] at hpos
  | cons row rows => exact ⟨(between row center).1, by simp [bind, Except.bind, pure, Except.pure]⟩

/-- The shape of the answer to all members decides whether they are measured one by one. -/
theorem IsPairwise.ofMembers_eq (hpair : (function measure).IsPairwise between)
    (hdim : points.dim = center.length) (hpos : 0 < points.size) :
    ((function measure : Distance α ω).ofMembers points center).map (·.2) =
      (measure points.toGrid (.ofList center)).map fun answer =>
        if answer.values.shape = [points.size] then answer.values.toList
        else oneByOne between points center := by
  obtain ⟨format, hrows⟩ := hpair.rowByRow_eq hdim hpos
  cases hall : measure points.toGrid (.ofList center) with
  | error e => simp [ofMembers, call, hall, Except.map, bind, Except.bind]
  | ok answer =>
    by_cases hshape : answer.values.shape = [points.size]
    · simp [ofMembers, call, hall, hshape, Except.map, bind, Except.bind, pure, Except.pure]
    · simp [ofMembers, call, hall, hshape, hrows, Except.map, bind, Except.bind]

theorem IsPairwise.ofMembers_iff (hpair : (function measure).IsPairwise between)
    (hdim : points.dim = center.length) (hpos : 0 < points.size) :
    ((function measure : Distance α ω).ofMembers points center).map (·.2) =
      .ok (oneByOne between points center) ↔ Faithful measure between points center := by
  rw [hpair.ofMembers_eq hdim hpos, map_eq_ok, Faithful]
  refine exists_congr fun answer => and_congr_right fun _ => ?_
  by_cases hshape : answer.values.shape = [points.size] <;> simp [hshape]

end Measuring

end Distance

section Scores

variable [Scalar α] [Sampled ω] [Widening α ω]
  {measure : Grid α → Grid α → Except Fault (Answer ω)}
  {between : List α → List α → Format × ω}

/-- The variance of the distances that the members have one by one. -/
def ownVariance (between : List α → List α → Format × ω) (points : Points α) (center : List α) : ω :=
  if points.size < 2 then 0 else sampleVariance (Distance.oneByOne between points center)

def Partition.ownScore (between : List α → List α → Format × ω) (partition : Partition α) : ω :=
  (partition.filter (!·.isEmpty)).foldl
    (fun total c => total + ownVariance between c.points c.center) 0

theorem distanceVariance_eq_own (hpair : (Distance.function measure).IsPairwise between)
    {points : Points α} {center : List α} (hdim : points.size ≠ 0 → points.dim = center.length)
    (hfaithful : 2 ≤ points.size → Distance.Faithful measure between points center) :
    distanceVariance (.function measure) points center = .ok (ownVariance between points center) := by
  unfold distanceVariance ownVariance
  by_cases hfew : points.size < 2
  · simp [hfew]
  · have hmembers := (hpair.ofMembers_iff (hdim (by omega)) (by omega)).2 (hfaithful (by omega))
    obtain ⟨ds, hds, hvalues⟩ := map_eq_ok.1 hmembers
    simp [hfew, hds, hvalues, Except.map]

theorem Partition.score_eq_own (hpair : (Distance.function measure).IsPairwise between)
    {partition : Partition α}
    (hfaithful : ∀ c ∈ partition, 2 ≤ c.size → Distance.Faithful measure between c.points c.center) :
    score (.function measure) partition = .ok (ownScore between partition) := by
  have hfold : ∀ (clusters : List (Cluster α)) (total : ω),
      (∀ c ∈ clusters, 2 ≤ c.size → Distance.Faithful measure between c.points c.center) →
      clusters.foldlM (fun total c =>
        (distanceVariance (.function measure) c.points c.center).map (total + ·)) total =
        .ok (clusters.foldl (fun total c => total + ownVariance between c.points c.center) total) := by
    intro clusters
    induction clusters with
    | nil => exact fun total _ => rfl
    | cons c clusters ih =>
      intro total h
      have hc := distanceVariance_eq_own hpair c.dim_eq (h c (by simp))
      have hrest := ih (total + ownVariance between c.points c.center) fun e he => h e (by simp [he])
      rw [List.foldlM_cons, hc]
      exact hrest
  exact hfold _ 0 fun c hc => hfaithful c (List.mem_filter.1 hc).1

/-- Of a function of one point and a center: the distances of members are what it gives for each of
them exactly when its answer to all of them is faithful, and then so are variances and scores.  An
answer with one value for each member is taken in any case, and an error is passed on. -/
theorem Distance.ofMembers_of_pairwise (hpair : (function measure).IsPairwise between) :
    (∀ (points : Points α) (center : List α), points.dim = center.length → 0 < points.size →
      ((function measure).ofMembers points center).map (·.2) =
        ((measure points.toGrid (.ofList center)).map fun answer =>
          if answer.values.shape = [points.size] then answer.values.toList
          else oneByOne between points center) ∧
      (((function measure).ofMembers points center).map (·.2) =
        .ok (oneByOne between points center) ↔ Faithful measure between points center) ∧
      (Faithful measure between points center → distanceVariance (function measure) points center =
        .ok (ownVariance between points center))) ∧
    ∀ partition : Partition α,
      (∀ c ∈ partition, 2 ≤ c.size → Faithful measure between c.points c.center) →
      partition.score (function measure) = .ok (partition.ownScore between) := by
  refine ⟨?_, fun partition hfaithful => Partition.score_eq_own hpair hfaithful⟩
  intro points center hdim hpos
  exact ⟨hpair.ofMembers_eq hdim hpos, hpair.ofMembers_iff hdim hpos,
    fun hfaithful => distanceVariance_eq_own hpair (fun _ => hdim) fun _ => hfaithful⟩

end Scores

section Columns

variable [Scalar α]

theorem Grid.toList_eq_entries {g : Grid α} {n : Nat} (h : g.shape = [n]) :
    g.toList = (List.range n).map fun i => g.entry [i] := by
  obtain ⟨shape, entries⟩ := g
  subst h
  apply List.ext_getElem
  · simp [toList, Vector.toList]
  intro i hi _
  have hlt : i < n := by simpa [toList, Vector.toList] using hi
  have hsize : i < entries.toArray.size := by simpa using hlt
  have hoffset : offset [n] [i] = i := Nat.mul_one i
  simp only [toList, Vector.toList, entry, hoffset, Array.getD_eq_getD_getElem?, List.getElem_map,
    List.getElem_range, Array.getElem_toList, getElem?_pos entries.toArray i hsize,
    Option.getD_some]

/-- The entries of a single axis are gathered into one value. -/
theorem Grid.exists_fold? {β : Type} {g : Grid α} {n : Nat} (h : g.shape = [n]) (f : List α → β) :
    ∃ r, g.fold? 0 f = some r ∧ r.toList = [f g.toList] := by
  unfold fold?
  rw [toList_eq_entries h, h]
  exact ⟨_, rfl, toList_tabulate _ _⟩

/-- The sides between points and a center, added up along the first axis: the distance of one point,
but the sums of the columns of several. -/
def columnSums [Widening α ω] (points center : Grid α) : Except Fault (Answer ω) := do
  let some sides := points.zipWith? (fun x c => Scalar.abs (x - c)) center | throw .shapeMismatch
  match sides.fold? 0 Scalar.total with
  | some sums => return ⟨.native, sums.map Widening.widen⟩
  | none => throw .missingAxis

def cityBlock [Widening α ω] (x center : List α) : Format × ω :=
  (.native, Widening.widen (Formula.manhattan.between x.length x center))

theorem columnSums_isPairwise [Widening α ω] :
    (Distance.function columnSums : Distance α ω).IsPairwise cityBlock := by
  intro x center hlength
  obtain ⟨sides, hsides, hlist⟩ :=
    Grid.zipWith?_ofList (f := fun x c : α => Scalar.abs (x - c)) hlength
  have hshape : sides.shape = [x.length] := by
    have hjoin : Grid.joinShape? (Grid.ofList x).shape (Grid.ofList center).shape =
        some [x.length] := by
      simp [Grid.joinShape?, Grid.joinReversed?, Grid.joinLength?, Grid.ofList, hlength]
    unfold Grid.zipWith? at hsides
    rw [hjoin] at hsides
    cases hsides
    rfl
  obtain ⟨sums, hsums, hsum⟩ := Grid.exists_fold? hshape Scalar.total
  have hbetween : Formula.manhattan.between x.length x center =
      Scalar.total (List.zipWith (fun x c => Scalar.abs (x - c)) x center) := by
    unfold Formula.between Formula.parts
    rw [Formula.stretchRow_of_length rfl, Formula.stretchRow_of_length hlength.symm]
    rfl
  simp [Distance.single, Distance.call, columnSums, hsides, hsums, Grid.single?, hsum, hlist,
    cityBlock, hbetween, bind, Except.bind, pure, Except.pure]

end Columns

/-- As many members as coordinates. -/
def squareCorner : Points Float32 := ⟨2, [[0, 0], [3, 4]], by simp⟩

/-- One member more than there are coordinates. -/
def longCorner : Points Float32 := ⟨2, [[0, 0], [3, 4], [6, 8]], by simp⟩

theorem ofMembers_of_pairwise_long :
    ((Distance.function columnSums : Distance Float32 Float).ofMembers longCorner [0, 0]).map (·.2) =
        .ok (Distance.oneByOne cityBlock longCorner [0, 0]) ∧
      (distanceVariance (.function columnSums) longCorner [0, 0] : Except Fault Float) = .ok 49 := by
  have hshape : (columnSums (ω := Float) longCorner.toGrid (.ofList [0, 0])).map
      (·.values.shape) = .ok [2] := by decide +kernel
  have hfaithful : Distance.Faithful (ω := Float) columnSums cityBlock longCorner [0, 0] := by
    obtain ⟨answer, hanswer, htwo⟩ := map_eq_ok.1 hshape
    refine ⟨answer, hanswer, fun hthree => ?_⟩
    rw [htwo] at hthree
    cases hthree
  have hvariance : ownVariance (cityBlock (ω := Float)) longCorner [0, 0] = 49 := by decide +kernel
  obtain ⟨-, hiff, hown⟩ := (Distance.ofMembers_of_pairwise (ω := Float) columnSums_isPairwise).1
    longCorner [0, 0] rfl (by decide)
  rw [hvariance] at hown
  exact ⟨hiff.2 hfaithful, hown hfaithful⟩

/-- With as many members as coordinates, the sums of the columns pass for distances. -/
theorem ofMembers_pairwise_square :
    (Distance.function columnSums : Distance Float32 Float).IsPairwise cityBlock ∧
    ((Distance.function columnSums : Distance Float32 Float).ofMembers squareCorner [0, 0]).map
      (·.2) = .ok [3, 4] ∧
    Distance.oneByOne (cityBlock (ω := Float)) squareCorner [0, 0] = [0, 7] ∧
    ((Distance.function columnSums : Distance Float32 Float).ofMembers squareCorner [0, 0]).map
      (·.2) ≠ .ok (Distance.oneByOne cityBlock squareCorner [0, 0]) := by
  exact ⟨columnSums_isPairwise, by decide +kernel, by decide +kernel, by decide +kernel⟩

end Centroids

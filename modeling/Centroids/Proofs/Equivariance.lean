import Centroids.Proofs.ExactRuns
import Centroids.Proofs.SimilarSeeding
import Centroids.Proofs.SimilarUpdate

/-! Runs on similar points.  Every stage of a run on the images of points is the image of the stage of
the run on the points themselves: the same rows are drawn and taken, the same labels are given, and
the same rounds come to the same end.  Scores are multiplied by the square of the factor by which
distances grow. -/
namespace Centroids

section Lengths

variable {α ω : Type} [Scalar α] [Sampled ω] [Widening α ω] {points : Points α}
  {centers : List (List α)} {g g' : Generator}

/-- Whatever the strategy, the next centers have as many coordinates as the points. -/
theorem Update.length_of_centers {f : Formula α} {width : Nat} {strategy : Strategy}
    {clusters : Partition α} {reseeded : Bool}
    (hfit : f.width? points.dim points.dim = some width) (hshares : clusters.Shares points)
    (hle : clusters.length ≤ points.size)
    (h : Update.centers strategy (.metric (.formula f) : Distance α ω) clusters g =
      .ok (centers, reseeded) g') : ∀ center ∈ centers, center.length = points.dim := by
  have hne := (Update.centers_eq_ok.1 h).1
  by_cases hrefuse : strategy = .refuse
  · subst hrefuse
    have hkept : reseeded = false := by
      by_contra hreseeded
      have hempty := (Update.reseeded_iff hshares h).1 (by simpa using hreseeded)
      rw [Update.centers_refuse hshares hempty] at h
      cases h
    rw [hkept] at h
    exact hshares.length_of_means ((Update.centers_kept hshares).1 h).2.1
  · have hmeasures : ∀ available, ∀ c ∈ clusters, c.left available ≠ [] →
        strategy.Measures (.metric (.formula f) : Distance α ω) (c.donor points available) :=
      fun available c hc hleft => Strategy.measures_of_formula hrefuse hfit (hshares.within c hc) hleft
    obtain ⟨next, moved, t, hnext, hwalk⟩ | ⟨⟨t, herror⟩, -⟩ :=
      Update.centers_cases (g := g) hshares hne hle hmeasures
    · cases h.symm.trans hnext
      exact hwalk.length_center List.length_replicate
    · cases h.symm.trans herror

end Lengths

namespace Journal

variable {β β' γ γ' : Type} {u : β → β'} {v : γ → γ'}

theorem draw_image {choice : Random β} {choice' : Random β'} {j : Journal}
    (h : choice' j.generator = (u <$> choice) j.generator) :
    draw choice' j = (u <$> draw choice) j := by
  rw [step_map_eq] at h ⊢
  unfold draw
  rw [h]
  cases choice j.generator with
  | ok x g => rfl
  | error e g => rfl

end Journal

namespace Similarity

variable {F : Type} [Field F] [LinearOrder F] [Analytic F] [IsStrictOrderedRing F]

def outcome (m : Similarity F) (o : Trial.Outcome F) : Trial.Outcome F :=
  { o with clusters := m.partition o.clusters }

variable {m : Similarity F} {plan : Trial.Plan F} {f : Formula F} {k : F} {p : Points F}
  {strategy : Strategy} (hk : m.Scales f k) (hmetric : plan.metric = .formula f)
include hk hmetric

theorem start_image (g : Generator) : Trial.start plan (m.points p) g =
    (Prod.map m.partition id <$> Trial.start plan p) g := by
  unfold Trial.start
  rw [hmetric]
  apply step_bind_image (centers_points hk plan.seeding plan.clusters g)
  intro centers g' hcenters
  exact step_lift_image (assign_points hk hmetric (Seeding.length_of_centers hcenters)) g'

variable (hhandler : plan.handler = strategy)
include hhandler

theorem move_image {clusters : Partition F} (hshares : clusters.Shares p)
    (hle : clusters.length ≤ p.size) (g : Generator) :
    Trial.move plan (m.points p) (m.partition clusters) g =
      (Prod.map m.partition id <$> Trial.move plan p clusters) g := by
  unfold Trial.move
  rw [hmetric, hhandler]
  apply step_bind_image (centers_partition hk strategy
    (fun c hc => ⟨_, hshares.numbered c hc⟩) g)
  rintro ⟨centers, reseeded⟩ g' hcenters
  have hlength := Update.length_of_centers (hk.fit p.dim) hshares hle hcenters
  apply step_bind_image (step_lift_image (assign_points hk hmetric hlength) g')
  rintro ⟨next, labels⟩ g'' _
  rfl

variable {count : Nat} (hle : count ≤ p.size)
include hle

theorem round_image {iteration : Nat} {clusters : Partition F} {j : Journal}
    (hs : (Trial.Stage.of iteration clusters j).Covers plan.metric p count) :
    Trial.round plan (m.points p) iteration (m.partition clusters) j =
      (Prod.map m.partition id <$> Trial.round plan p iteration clusters) j := by
  obtain ⟨before, hassigned, -⟩ := hs
  have hmove := move_image hk hmetric hhandler hassigned.divides.toShares
    (hassigned.length_eq.trans_le hle)
  unfold Trial.round
  apply step_bind_image (Journal.draw_image (hmove j.generator))
  rintro ⟨next, labels, reseeded⟩ drawn _
  apply step_bind_image_right
  intro met checked _
  apply step_bind_image_right
  intro _ reported _
  rfl

/-- Rounds on the images are the images of the rounds. -/
theorem rounds_image {horizon iteration : Nat} {clusters : Partition F} {j : Journal}
    (hs : (Trial.Stage.of iteration clusters j).Covers plan.metric p count) :
    Trial.rounds plan (m.points p) horizon iteration (m.partition clusters) j =
      (m.outcome <$> Trial.rounds plan p horizon iteration clusters) j := by
  induction horizon generalizing iteration clusters j with
  | zero => rfl
  | succ horizon ih =>
    unfold Trial.rounds
    apply step_bind_image_right
    intro stop before hlift
    obtain ⟨hstop, rfl⟩ := step_lift_eq_ok.1 hlift
    cases stop with
    | true => rfl
    | false =>
      apply step_bind_image (round_image hk hmetric hhandler hle hs)
      rintro ⟨next, met⟩ after hround
      have hnext := (Trial.round_eq_ok hstop hround).covers hs
      cases met with
      | true => cases plan.verbosity.reports <;> rfl
      | false => exact ih hnext

omit hle

/-- A run on the images ends as the run does, with the image of what it returns, and leaves the same
behind. -/
theorem run_image (hpos : 0 < plan.clusters) (hle : plan.clusters ≤ p.size) (horizon : Nat)
    (j : Journal) :
    Trial.run horizon plan (m.points p) j = (m.outcome <$> Trial.run horizon plan p) j := by
  have hcount : plan.clusters.toNat ≤ p.size := by omega
  unfold Trial.run
  apply step_bind_image (Journal.draw_image (start_image hk hmetric j.generator))
  rintro ⟨clusters, labels⟩ drawn hdraw
  apply step_bind_image_right
  intro _ reset hreset
  cases hreset
  apply step_bind_image_right
  intro met checked hobserve
  obtain ⟨g, hstart, rfl⟩ := Journal.draw_eq_ok.1 hdraw
  obtain ⟨c, hcheck, rfl⟩ := Journal.check_eq_ok.1 hobserve
  rw [Criterion.check_first rfl] at hcheck
  cases hcheck
  exact rounds_image hk hmetric hhandler hcount (Trial.covers_of_start hpos hstart)

end Similarity

section Score

/-- Where the metric fits points of every dimension, every partition has a score. -/
theorem Partition.exists_score {α ω : Type} [Scalar α] [Sampled ω] [Widening α ω] {f : Formula α}
    (hfit : ∀ dim, f.width? dim dim = some dim) (clusters : Partition α) :
    ∃ v, Partition.score (.metric (.formula f) : Distance α ω) clusters = .ok v := by
  have hvariance : ∀ c ∈ clusters.filter (!·.isEmpty), ∃ v,
      distanceVariance (.metric (.formula f) : Distance α ω) c.points c.center = .ok v := by
    intro c hc
    have hempty := (List.mem_filter.1 hc).2
    have hsize : c.points.size ≠ 0 := by simpa [Cluster.isEmpty, Cluster.size] using hempty
    unfold distanceVariance
    split
    · exact ⟨0, rfl⟩
    · rw [Formula.ofMembers_eq_ok (hfit c.points.dim) (c.dim_eq hsize).symm]
      exact ⟨_, rfl⟩
  unfold Partition.score
  generalize clusters.filter (!·.isEmpty) = filled at hvariance
  generalize (0 : ω) = x
  induction filled generalizing x with
  | nil => exact ⟨x, rfl⟩
  | cons c filled ih =>
    obtain ⟨v, hv⟩ := hvariance c (List.mem_cons_self ..)
    rw [List.foldlM_cons, hv]
    exact ih (fun d hd => hvariance d (List.mem_cons_of_mem _ hd)) (x + v)

variable {F : Type} [Field F] [LinearOrder F] [Analytic F] {m : Similarity F} {f : Formula F} {k : F}

/-- The score of the images is the score times the square of the factor of the distances. -/
theorem Similarity.score_image (hk : m.Scales f k) (clusters : Partition F) :
    Partition.score (.metric (.formula f) : Distance F F) (m.partition clusters) =
      (k ^ 2 * ·) <$> Partition.score (.metric (.formula f) : Distance F F) clusters := by
  have hfilled : ∀ c ∈ clusters.filter (!·.isEmpty), c.center.length = c.points.dim := by
    intro c hc
    have hempty := (List.mem_filter.1 hc).2
    exact (c.dim_eq (by simpa [Cluster.isEmpty, Cluster.size] using hempty)).symm
  have hfilter : (m.partition clusters).filter (!·.isEmpty) =
      (clusters.filter (!·.isEmpty)).map m.cluster := by
    unfold partition
    rw [List.filter_map]
    congr 2
    funext c
    exact congrArg (fun n => !(n == 0)) (m.size_cluster c)
  unfold Partition.score
  rw [hfilter, List.foldlM_map]
  generalize clusters.filter (!·.isEmpty) = filled at hfilled
  have hfold : ∀ x : F, filled.foldlM (fun total c => (distanceVariance (.metric (.formula f) :
        Distance F F) (m.cluster c).points (m.cluster c).center).map (total + ·)) (k ^ 2 * x) =
      (k ^ 2 * ·) <$> filled.foldlM (fun total c => (distanceVariance (.metric (.formula f) :
        Distance F F) c.points c.center).map (total + ·)) x := by
    induction filled with
    | nil => exact fun x => rfl
    | cons c filled ih =>
      intro x
      rw [List.foldlM_cons, List.foldlM_cons]
      refine bind_image (u := (k ^ 2 * ·)) ?_ fun y _ =>
        ih (fun d hd => hfilled d (List.mem_cons_of_mem _ hd)) y
      have hvariance := distanceVariance_points hk (hfilled c (List.mem_cons_self ..))
      change Except.map _ (distanceVariance _ (m.points c.points) (m.row c.center)) = _
      rw [hvariance]
      cases distanceVariance (.metric (.formula f) : Distance F F) c.points c.center with
      | error e => rfl
      | ok v => exact congrArg Except.ok (mul_add (k ^ 2) x v).symm
  have hzero := hfold 0
  rwa [mul_zero] at hzero

end Score

namespace Trial

variable {F : Type} [Field F] [LinearOrder F] [Analytic F]

/-- Two runs that end alike, one on points and one on their images: both return, the second the image
of what the first returns, with a score that is a multiple of the first score; or both fail for want
of a point; or, without a limit, neither has come to its end.  They leave the same behind. -/
inductive Alike (m : Similarity F) (plan : Plan F) (p : Points F) (horizon : Nat) (j : Journal)
    (scale : F) : Prop
  | returned {outcome : Outcome F} {k : Journal} {v : F} :
      run horizon plan p j = .ok outcome k →
      run horizon plan (m.points p) j = .ok (m.outcome outcome) k →
      Partition.score (.metric plan.metric) outcome.clusters = .ok v →
      Partition.score (.metric plan.metric) (m.outcome outcome).clusters = .ok (scale * v) →
      Alike m plan p horizon j scale
  | failed {k : Journal} :
      run horizon plan p j = .error .emptyCluster k →
      run horizon plan (m.points p) j = .error .emptyCluster k → Alike m plan p horizon j scale
  | unfinished {k : Journal} : plan.limit = .unlimited →
      run horizon plan p j = .error .stalled k →
      run horizon plan (m.points p) j = .error .stalled k → Alike m plan p horizon j scale

/-- In exact arithmetic, runs on points and on their images under a similarity end alike: the same rows
in each cluster, the same rounds, the same record and the same draws, around the images of the
centers.  Scores grow with the square of the factor, and for squared distances with its fourth
power. -/
theorem run_alike [IsStrictOrderedRing F] {plan : Plan F} {f : Formula F} {strategy : Strategy}
    {p : Points F} (hmetric : plan.metric = .formula f) (hf : f.IsNorm)
    (hroots : f = .euclidean false → ∀ y : F, 0 ≤ y → 0 ≤ Scalar.sqrt y ∧ Scalar.sqrt y ^ 2 = y)
    (hhandler : plan.handler = strategy) (hdetails : plan.verbosity.details.isSome)
    (hordered : plan.limit ≠ .unordered) (hpos : 0 < plan.clusters) (hle : plan.clusters ≤ p.size)
    (hseeding : plan.seeding ≠ .spread 0) (m : Similarity F) (horizon : Nat) (j : Journal) :
    Alike m plan p horizon j (m.factor ^ (2 * f.order)) := by
  have hk := Formula.scales m hf hroots
  have himage := Similarity.run_image hk hmetric hhandler hpos hle horizon j
  rw [step_map_eq] at himage
  obtain ⟨outcome, k, hrun⟩ | ⟨k, hrun⟩ | ⟨hlimit, k, hrun⟩ := run_ends hmetric (hk.fit p.dim)
    hhandler hdetails hordered hpos hle hseeding horizon j
  · rw [hrun] at himage
    obtain ⟨v, hv⟩ : ∃ v : F, Partition.score (.metric (.formula f)) outcome.clusters = .ok v :=
      Partition.exists_score hk.fit outcome.clusters
    have hscore := Similarity.score_image hk outcome.clusters
    rw [hv, ← pow_mul, mul_comm f.order] at hscore
    rw [← hmetric] at hv hscore
    exact .returned hrun himage hv hscore
  · rw [hrun] at himage
    exact .failed hrun himage
  · rw [hrun] at himage
    exact .unfinished hlimit hrun himage

section Gapped

/-- Neither is needed where distances are squared and two candidates are drawn at a time. -/
local instance rationalClocks : Analytic ℚ := ⟨Rat.sqrt, fun _ => 1⟩

noncomputable local instance realClocks : Analytic ℝ :=
  ⟨Real.sqrt, fun k => -Real.log (1 - k / (2 ^ 53 : Nat))⟩

def paired {F : Type} (squared : Bool) : Plan F :=
  { clusters := 2
    seeding := .spread 2
    metric := .formula (.euclidean squared)
    handler := .strategy .farthestPoint
    limit := .atMost 10
    verbosity := ⟨false, some false⟩ }

def gapped (F : Type) [NatCast F] : Points F :=
  ⟨1, [[(0 : Nat)], [(1 : Nat)], [(5 : Nat)], [(20 : Nat)]], by simp⟩

def doubling {F : Type} [Field F] [LinearOrder F] [IsStrictOrderedRing F] : Similarity F :=
  ⟨(2 : Nat), fun _ => (3 : Nat), Nat.cast_pos.2 two_pos⟩

def fresh : Journal := ⟨⟨Vector.replicate 624 0, 0⟩, ⟨.int 0, .int 1, [], none, 0⟩, []⟩

/-- Twice the distances between rationals have sixteen times the score with squared distances; reals
have roots. -/
theorem run_alike_gapped :
    (∃ (outcome : Outcome ℚ) (k : Journal) (v : ℚ),
      outcome.clusters.map (·.indices) = [some [0, 1, 2], some [3]] ∧
      run 9 (paired true) (gapped ℚ) fresh = .ok outcome k ∧
      run 9 (paired true) (doubling.points (gapped ℚ)) fresh = .ok (doubling.outcome outcome) k ∧
      Partition.score (.metric (.formula (.euclidean true))) outcome.clusters = .ok v ∧
      Partition.score (.metric (.formula (.euclidean true))) (doubling.outcome outcome).clusters =
        .ok (16 * v)) ∧
    Alike doubling (paired false) (gapped ℝ) 9 fresh (2 ^ 2) := by
  have hends : (match run 9 (paired true) (gapped ℚ) fresh with
      | .ok outcome _ => outcome.clusters.map (·.indices)
      | .error _ _ => []) = [some [0, 1, 2], some [3]] := by decide +kernel
  have hscale : (2 : ℚ) ^ (2 * 2) = 16 := by norm_num
  constructor
  · have halike : Alike doubling (paired true) (gapped ℚ) 9 fresh (2 ^ (2 * 2)) :=
      run_alike (f := .euclidean true) rfl trivial nofun rfl rfl (by decide) (by decide) (by decide)
        (by decide) doubling 9 fresh
    rw [hscale] at halike
    cases halike with
    | returned hrun himage hv hscore =>
      rw [hrun] at hends
      exact ⟨_, _, _, hends, hrun, himage, hv, hscore⟩
    | failed hrun _ =>
      rw [hrun] at hends
      cases hends
    | unfinished hlimit => cases hlimit
  · exact run_alike (f := .euclidean false) rfl trivial
      (fun _ y hy => ⟨Real.sqrt_nonneg y, Real.sq_sqrt hy⟩) rfl rfl (by decide) (by decide)
      (by change (2 : Int) ≤ ((4 : Nat) : Int); decide) (by decide) doubling 9 fresh

end Gapped

end Trial

end Centroids

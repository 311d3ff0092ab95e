import Centroids.Proofs.Record

/-! Runs with different limits.  A limit is looked at only where a run asks whether it is over, so two
runs that differ in nothing else go through the same stages for as long as both go on: the one
with the lower limit is the beginning of the other. -/
namespace Centroids

namespace Trial

variable {α ω : Type} {plan : Plan α} {points : Points α} {limit limit' : Limit}

def Plan.bounded (plan : Plan α) (limit : Limit) : Plan α := { plan with limit }

theorem isOver_bounded_atMost (n iteration : Nat) :
    isOver (plan.bounded (.atMost n)) iteration = .ok (decide (n ≤ iteration)) := rfl

/-- Before the lower of two limits a run is not over. -/
theorem isOver_bounded_of_lt {m iteration : Nat}
    (hlimit : limit = .unlimited ∨ ∃ n ≥ m, limit = .atMost n) (hlt : iteration < m) :
    isOver (plan.bounded limit) iteration = .ok false := by
  obtain rfl | ⟨n, hn, rfl⟩ := hlimit
  · rfl
  · rw [isOver_bounded_atMost, decide_eq_false (by omega)]

variable [Scalar α] [Sampled ω] [Widening α ω]

theorem move_bounded (clusters : Partition α) :
    move (plan.bounded limit) points clusters = move plan points clusters := rfl

theorem start_bounded : start (plan.bounded limit) points = start plan points := rfl

theorem round_bounded (iteration : Nat) (clusters : Partition α) :
    round (plan.bounded limit) points iteration clusters = round plan points iteration clusters := rfl

/-- What a round leads to does not depend on the limit. -/
theorem Round.eq_of_bounded {s t t' : Stage α} {met met' : Bool}
    (h : Round (plan.bounded limit) points s met t)
    (h' : Round (plan.bounded limit') points s met' t') : met = met' ∧ t = t' := by
  obtain ⟨labels, reseeded, hmove, hcheck⟩ := h.moves
  obtain ⟨labels', reseeded', hmove', hcheck'⟩ := h'.moves
  have hnext := h.next.trans h'.next.symm
  rw [move_bounded] at hmove hmove'
  cases t
  cases t'
  cases hmove.symm.trans hmove'
  cases hcheck.symm.trans hcheck'
  cases hnext
  exact ⟨rfl, rfl⟩

namespace Course

variable {g : Generator} {c : Criterion} {count count' : Nat} {met met' : Bool}
  {stage stage' : Nat → Stage α} (h : Course (plan.bounded limit) points g c count met stage)
  (h' : Course (plan.bounded limit') points g c count' met' stage')
include h h'

/-- Stages that both runs come to are the same. -/
theorem stage_eq {i : Nat} (hi : i ≤ count) (hi' : i ≤ count') : stage i = stage' i := by
  induction i with
  | zero =>
    obtain ⟨clusters, labels, g₁, hstart, hfirst⟩ := h.seeded
    obtain ⟨clusters', labels', g₂, hstart', hfirst'⟩ := h'.seeded
    rw [start_bounded] at hstart hstart'
    cases hstart.symm.trans hstart'
    rw [hfirst, hfirst']
  | succ i ih =>
    have hround := h.round i hi
    rw [ih (by omega) (by omega)] at hround
    exact (hround.eq_of_bounded (h'.round i hi')).2

/-- A run that ends while the other goes on was stopped by its limit. -/
theorem over_of_lt (hlt : count < count') : isOver (plan.bounded limit) count = .ok true := by
  cases met with
  | false => exact h.over_of_unmet rfl
  | true =>
    have hpos := h.pos_of_met rfl
    have hlast : count - 1 + 1 = count := by omega
    have hround := h.round (count - 1) (by omega)
    have hround' := h'.round (count - 1) (by omega)
    rw [h.stage_eq h' (by omega) (by omega)] at hround
    have hmet := (hround.eq_of_bounded hround').1
    rw [hlast, beq_self_eq_true, beq_false_of_ne hlt.ne, Bool.and_false] at hmet
    cases hmet

end Course

/-- The run with the lower limit ends where the other does, or at its limit. -/
theorem Course.count_eq_min {m : Nat} {g : Generator} {c : Criterion} {count count' : Nat}
    {met met' : Bool} {stage stage' : Nat → Stage α}
    (hlimit : limit = .unlimited ∨ ∃ n ≥ m, limit = .atMost n)
    (h : Course (plan.bounded (.atMost m)) points g c count met stage)
    (h' : Course (plan.bounded limit) points g c count' met' stage') : count = min m count' := by
  have hle := h.le_limit rfl
  obtain hlt | rfl | hlt := lt_trichotomy count count'
  · have hover := h.over_of_lt h' hlt
    rw [isOver_bounded_atMost] at hover
    have := of_decide_eq_true (Except.ok.inj hover)
    omega
  · omega
  · have hover := h'.over_of_lt h hlt
    rw [isOver_bounded_of_lt hlimit (by omega)] at hover
    cases hover

/-- An error of the rounds up to a limit comes as well where the limit is higher. -/
theorem rounds_error_bounded {m horizon horizon' iteration : Nat} {clusters : Partition α}
    {j k : Journal} {e : Fault} (hlimit : limit = .unlimited ∨ ∃ n ≥ m, limit = .atMost n)
    (hhorizon : iteration + horizon = m + 1) (hpos : 0 < horizon) (hle : horizon ≤ horizon')
    (h : rounds (plan.bounded (.atMost m)) points horizon iteration clusters j = .error e k) :
    rounds (plan.bounded limit) points horizon' iteration clusters j = .error e k := by
  induction horizon generalizing horizon' iteration clusters j with
  | zero => omega
  | succ horizon ih =>
    obtain ⟨more, rfl⟩ := Nat.exists_eq_add_of_le' (show 1 ≤ horizon' by omega)
    by_cases hlast : m ≤ iteration
    · have hover : isOver (plan.bounded (.atMost m)) iteration = .ok true := by
        rw [isOver_bounded_atMost, decide_eq_true hlast]
      rw [rounds_of_over hover] at h
      cases h
    have hgoing : isOver (plan.bounded (.atMost m)) iteration = .ok false := by
      rw [isOver_bounded_atMost, decide_eq_false hlast]
    have hgoing' : isOver (plan.bounded limit) iteration = .ok false :=
      isOver_bounded_of_lt hlimit (by omega)
    rw [rounds_of_going hgoing, round_bounded] at h
    rw [rounds_of_going hgoing', round_bounded]
    cases hround : round plan points iteration clusters j with
    | error e' k' =>
      rw [step_bind_of_error hround] at h
      rw [step_bind_of_error hround]
      exact h
    | ok answer k' =>
      obtain ⟨next, met⟩ := answer
      rw [step_bind_of_ok hround] at h
      rw [step_bind_of_ok hround]
      cases met with
      | true =>
        -- Nothing can fail any more.
        cases hreports : (plan.bounded (.atMost m)).verbosity.reports <;>
          simp only [hreports, if_true] at h <;> cases h
      | false => exact ih (by omega) (by omega) (by omega) h

/-- A run up to a limit that fails does so as well with a higher limit, if it is followed far enough. -/
theorem run_error_bounded {m horizon horizon' : Nat} {j k : Journal} {e : Fault}
    (hlimit : limit = .unlimited ∨ ∃ n ≥ m, limit = .atMost n)
    (hhorizon : limit = .unlimited → m < horizon')
    (h : run horizon (plan.bounded (.atMost m)) points j = .error e k) :
    run horizon' (plan.bounded limit) points j = .error e k := by
  cases hstart : start plan points j.generator with
  | error e' g =>
    have hunseeded : ∀ l, start (plan.bounded l) points j.generator = .error e' g := fun _ => hstart
    rw [run_of_start_error (hunseeded _)] at h ⊢
    exact h
  | ok seeded g =>
    obtain ⟨clusters, labels⟩ := seeded
    have hseeded : ∀ l, start (plan.bounded l) points j.generator = .ok (clusters, labels) g :=
      fun _ => hstart
    rw [run_of_start (hseeded _)] at h
    rw [run_of_start (hseeded _)]
    refine rounds_error_bounded hlimit (Nat.zero_add _) (Nat.succ_pos m) ?_ h
    obtain rfl | ⟨n, hn, rfl⟩ := hlimit
    · exact hhorizon rfl
    · exact Nat.succ_le_succ hn

end Trial

namespace Clusterer

/-- The same clusterer with another limit. -/
def bounded (s : Session Clusterer) (limit : Value) : Session Clusterer :=
  { s with procedure :=
    { s.procedure with parameters := s.procedure.parameters.set (.maxIter limit) } }

def Prepared.bounded (p : Prepared) (limit : Limit) : Prepared :=
  { p with plan := p.plan.bounded limit }

variable {data : Dataset} {s : Session Clusterer} {v w : Value}

/-- What a run starts from depends on the limit in nothing but the limit. -/
theorem prepare_bounded : (bounded s v).procedure.prepare data =
    (s.procedure.prepare data).map (·.bounded (.ofValue v)) := by
  have hvalidate : (bounded s v).procedure.validate data = s.procedure.validate data := rfl
  have hcomponents : (bounded s v).procedure.components = s.procedure.components := rfl
  unfold prepare
  rw [hvalidate, hcomponents]
  cases s.procedure.validate data with
  | error e => rfl
  | ok points =>
    change (clusterCount points.size s.procedure.clusters >>= _) =
      Except.map _ (clusterCount points.size s.procedure.clusters >>= _)
    cases clusterCount points.size s.procedure.clusters with
    | error e => rfl
    | ok clusters =>
      cases s.procedure.components with
      | error e => rfl
      | ok components => rfl

theorem exists_prepare_of_bounded {p : Prepared} (h : (bounded s v).procedure.prepare data = .ok p) :
    ∃ q, s.procedure.prepare data = .ok q ∧ p = q.bounded (.ofValue v) := by
  rw [prepare_bounded] at h
  obtain ⟨q, hq, rfl⟩ := map_eq_ok.1 h
  exact ⟨q, hq, rfl⟩

section Lockstep

variable {horizon horizon' : Nat} {a b : Trial.Outcome Float32} {S T : Session Clusterer} {m n : Int}
  (hv : v.numeral? = some (.int m)) (hw : w.numeral? = some (.int n)) (hm : 0 ≤ m)
  (hn : n < 0 ∨ m ≤ n)
include hv hw hm hn

theorem limits_of_numerals : Limit.ofValue v = .atMost m.toNat ∧
    (Limit.ofValue w = .unlimited ∨ ∃ k ≥ m.toNat, Limit.ofValue w = .atMost k) := by
  constructor
  · exact Limit.ofValue_of_nonneg hv hm
  · obtain hneg | hle := hn
    · exact .inl (Limit.ofValue_of_neg hw hneg)
    · exact .inr ⟨n.toNat, by omega, Limit.ofValue_of_nonneg hw (hm.trans hle)⟩

/-- The runs with two limits that return have the same stages, of which the one with the lower limit
has as many as the other or as it may have. -/
theorem exists_courses (ha : run horizon data (bounded s v) = .ok a S)
    (hb : run horizon' data (bounded s w) = .ok b T) :
    ∃ p stage, Course data (bounded s w) b T p stage ∧ a.iterations = min m.toNat b.iterations ∧
      S.procedure.iterations = a.iterations ∧ a.clusters = (stage a.iterations).clusters ∧
      S.procedure.generator = (stage a.iterations).generator ∧
      S.procedure.criterion = some (stage a.iterations).criterion := by
  obtain ⟨hlower, hupper⟩ := limits_of_numerals hv hw hm hn
  obtain ⟨p, stage, hA⟩ := exists_course ha
  obtain ⟨q, stage', hB⟩ := exists_course hb
  obtain ⟨r, hr, rfl⟩ := exists_prepare_of_bounded hA.prepared
  obtain ⟨r', hr', rfl⟩ := exists_prepare_of_bounded hB.prepared
  cases hr.symm.trans hr'
  have hstages := hA.stages
  rw [hlower] at hstages
  have hcount := hstages.count_eq_min hupper hB.stages
  have hsame : stage a.iterations = stage' a.iterations :=
    hstages.stage_eq hB.stages le_rfl (by omega)
  refine ⟨_, stage', hB, hcount, hA.iterations_eq, ?_, ?_, ?_⟩
  · rw [hA.clusters_eq, hsame]
  · rw [hA.generator_eq, hsame]
  · rw [hA.criterion_eq, hsame]

/-- An error up to the lower limit comes as well with the other, if that run is followed so far. -/
theorem exists_error_bounded {e : Fault} (hhorizon : n < 0 → m < horizon')
    (h : run horizon data (bounded s v) = .error e S) :
    ∃ T, run horizon' data (bounded s w) = .error e T := by
  obtain ⟨hlower, hupper⟩ := limits_of_numerals hv hw hm hn
  have hfar : Limit.ofValue w = .unlimited → m.toNat < horizon' := by
    intro hunlimited
    obtain hneg | hle := hn
    · have := hhorizon hneg
      omega
    · rw [Limit.ofValue_of_nonneg hw (hm.trans hle)] at hunlimited
      cases hunlimited
  obtain ⟨hfails, -⟩ | ⟨p, k, hprepare, htrial, -⟩ := run_eq_error.1 h
  · rw [prepare_bounded] at hfails
    cases hprepare : s.procedure.prepare data with
    | ok p =>
      rw [hprepare] at hfails
      cases hfails
    | error e' =>
      rw [hprepare] at hfails
      cases hfails
      refine ⟨_, run_eq_error.2 (.inl ⟨?_, rfl⟩)⟩
      rw [prepare_bounded, hprepare]
      rfl
  · obtain ⟨q, hq, rfl⟩ := exists_prepare_of_bounded hprepare
    have hprepare' : (bounded s w).procedure.prepare data = .ok (q.bounded (.ofValue w)) := by
      rw [prepare_bounded, hq]
      rfl
    change Trial.run horizon (q.plan.bounded (.ofValue v)) q.points (q.journal s) = _ at htrial
    rw [hlower] at htrial
    have htrial' := Trial.run_error_bounded hupper hfar htrial
    exact ⟨_, run_eq_error.2 (.inr ⟨_, k, hprepare', htrial', rfl⟩)⟩

end Lockstep

/-- A run with a limit is the beginning of one with a higher limit or none.  When the longer one has no
more rounds than the limit, both are the same; else the shorter one stops at its limit, where the
longer one still goes on.  Where the shorter one fails, the longer one does so too. -/
theorem run_bounded {horizon horizon' : Nat} {m n : Int} (hv : v.numeral? = some (.int m))
    (hw : w.numeral? = some (.int n)) (hm : 0 ≤ m) (hn : n < 0 ∨ m ≤ n) :
    (∀ a S b T, run horizon data (bounded s v) = .ok a S →
      run horizon' data (bounded s w) = .ok b T →
      (T.procedure.iterations ≤ m → a.clusters = b.clusters ∧
        S.procedure.iterations = T.procedure.iterations ∧
        S.procedure.generator = T.procedure.generator ∧
        S.procedure.criterion = T.procedure.criterion) ∧
      (m < T.procedure.iterations → S.procedure.iterations = m ∧
        ∃ p stage, Course data (bounded s w) b T p stage ∧ a.clusters = (stage m.toNat).clusters ∧
        ∃ c c', S.procedure.criterion = some c ∧ T.procedure.criterion = some c' ∧
          c.history = c'.history.take m.toNat)) ∧
    ((n < 0 → m < horizon') → ∀ e S, run horizon data (bounded s v) = .error e S →
      ∃ T, run horizon' data (bounded s w) = .error e T) := by
  constructor
  · intro a S b T ha hb
    obtain ⟨p, stage, hcourse, hcount, hiterations, hclusters, hgenerator, hcriterion⟩ :=
      exists_courses hv hw hm hn ha hb
    have hiterations' := hcourse.iterations_eq
    constructor
    · intro hle
      have hsame : a.iterations = b.iterations := by omega
      rw [hsame] at hclusters hgenerator hcriterion
      refine ⟨hclusters.trans hcourse.clusters_eq.symm, by omega, ?_, ?_⟩
      · exact hgenerator.trans hcourse.generator_eq.symm
      · exact hcriterion.trans hcourse.criterion_eq.symm
    · intro hlt
      have hlast : a.iterations = m.toNat := by omega
      rw [hlast] at hclusters hcriterion
      refine ⟨by omega, p, stage, hcourse, hclusters, _, _, hcriterion, hcourse.criterion_eq, ?_⟩
      exact hcourse.stages.history_eq_take hcourse.pos hcourse.patience_eq (by omega)
  · intro hhorizon e S h
    exact exists_error_bounded hv hw hm hn hhorizon h

/-- One round of the two that there are without a limit. -/
theorem run_bounded_pairing : ∃ a S b T,
    run 9 triple (bounded pairing (.int 1)) = .ok a S ∧
    run 9 triple (bounded pairing (.int (-1))) = .ok b T ∧ T.procedure.iterations = 2 ∧
    S.procedure.iterations = 1 ∧
    ∃ c c', S.procedure.criterion = some c ∧ T.procedure.criterion = some c' ∧
      c.history = c'.history.take 1 := by
  have hruns : (match run 9 triple (bounded pairing (.int 1)),
        run 9 triple (bounded pairing (.int (-1))) with
      | .ok _ _, .ok _ T => some T.procedure.iterations
      | _, _ => none) = some 2 := by decide +kernel
  cases ha : run 9 triple (bounded pairing (.int 1)) with
  | error e S =>
    rw [ha] at hruns
    cases hruns
  | ok a S =>
    cases hb : run 9 triple (bounded pairing (.int (-1))) with
    | error e T =>
      rw [ha, hb] at hruns
      cases hruns
    | ok b T =>
      rw [ha, hb] at hruns
      have htwo := Option.some.inj hruns
      have hprefix := (run_bounded (m := 1) (n := -1) rfl rfl (by decide) (by decide)).1 a S b T ha hb
      obtain ⟨hone, p, stage, -, -, hhistory⟩ := hprefix.2 (by omega)
      exact ⟨a, S, b, T, rfl, rfl, htwo, by omega, hhistory⟩

end Clusterer

end Centroids

import Centroids.Proofs.Course
import Centroids.Proofs.FixedPoint

/-! The record of a run.  Every round adds one entry, which tells how many rows changed their cluster and
whether there was an empty cluster before it; a run goes on exactly after entries that are not
stable, as far as its limit allows. -/
namespace Centroids

namespace Partition

variable {α : Type}

/-- The place of the first cluster that holds a row. -/
def label (clusters : Partition α) (row : Nat) : Nat := clusters.findIdx fun c => row ∈ c.places

/-- How many rows have another label after than before. -/
def changes (size : Nat) (before after : Partition α) : Nat :=
  (List.range size).countP fun row => after.label row ≠ before.label row

theorem labels_eq_map (clusters : Partition α) (size : Nat) :
    clusters.labels size = (List.range size).map fun row => Int.ofNat (clusters.label row) := rfl

theorem countP_labels (size : Nat) (before after : Partition α) :
    (List.zipWith (· != ·) (after.labels size) (before.labels size)).countP id =
      changes size before after := by
  unfold changes
  simp only [labels_eq_map, List.zipWith_map, List.zipWith_self, List.countP_map]
  apply List.countP_congr
  simp

theorem labels_eq_of_changes {size : Nat} {before after : Partition α}
    (h : changes size before after = 0) : after.labels size = before.labels size := by
  rw [labels_eq_map, labels_eq_map]
  apply List.map_congr_left
  intro row hrow
  have hsame := List.countP_eq_zero.1 h row hrow
  simp only [ne_eq, decide_not, Bool.not_eq_true', decide_eq_false_iff_not, not_not] at hsame
  rw [hsame]

end Partition

namespace Criterion

/-- Where one stable comparison is enough, the criterion is met by the stable ones. -/
theorem isMet_record_eq {c : Criterion} (hpatience : c.patience = .int 1) (now : Grid Int)
    (e : Entry) : (c.record now e).isMet = c.isStable e := by
  unfold isMet record
  cases c.isStable e with
  | false => rfl
  | true =>
    simp only [hpatience, if_true, Numeral.le_int]
    simp

theorem isStable_eq_true {c : Criterion} {e : Entry} : c.isStable e = true ↔
    Numeral.le (.double e.fraction) c.tolerance = true ∧ e.reseeded = false := by
  simp [isStable]

theorem isStable_eq_false {c : Criterion} {e : Entry} : c.isStable e = false ↔
    Numeral.le (.double e.fraction) c.tolerance = false ∨ e.reseeded = true := by
  unfold isStable
  rw [Bool.and_eq_false_iff, Bool.not_eq_false']

theorem isStable_congr {c d : Criterion} (h : c.tolerance = d.tolerance) (e : Entry) :
    c.isStable e = d.isStable e := by
  unfold isStable
  rw [h]

end Criterion

section Step

variable {α ω : Type} [Scalar α] [Sampled ω] [Widening α ω] {points : Points α}

/-- Points are taken exactly when some cluster is empty. -/
theorem Update.reseeded_iff {handler : Handler α} {distance : Distance α ω} {clusters : Partition α}
    {next : List (List α)} {reseeded : Bool} {g g' : Generator} (h : clusters.Shares points)
    (hcenters : centers handler distance clusters g = .ok (next, reseeded) g') :
    reseeded = true ↔ ∃ c ∈ clusters, c.isEmpty = true := by
  constructor
  · intro hreseeded
    by_contra hnone
    have hmeans : ∀ c ∈ clusters, ∃ mean, c.points.mean = .ok mean := by
      intro c hc
      refine ⟨_, if_neg ?_⟩
      intro hzero
      exact hnone ⟨c, hc, beq_iff_eq.2 hzero⟩
    obtain ⟨means, hmeans⟩ := exists_mapM_eq_ok hmeans
    have hne : clusters ≠ [] := (centers_eq_ok.1 hcenters).1
    have hkept : centers handler distance clusters g = .ok (means, false) g :=
      (centers_kept h).2 ⟨hne, hmeans, rfl⟩
    rw [hcenters] at hkept
    cases hkept
    cases hreseeded
  · rintro ⟨c, hc, hempty⟩
    by_contra hkept
    rw [Bool.not_eq_true] at hkept
    subst hkept
    have hmem := List.mem_map_of_mem (f := fun c => c.points.mean) hc
    rw [mapM_eq_ok.1 ((centers_kept h).1 hcenters).2.1] at hmem
    obtain ⟨mean, -, hmean⟩ := List.mem_map.1 hmem
    have hnone : c.points.mean = .error .emptyMean := if_pos (beq_iff_eq.1 hempty)
    rw [hnone] at hmean
    cases hmean

/-- What the entry of a round says: its number, how many rows changed their label, their share of all
rows, and whether there was an empty cluster before it. -/
structure Entry.Describes (e : Entry) (iteration size : Nat) (before after : Partition α) :
    Prop where
  iteration_eq : e.iteration = .int iteration
  changed_eq : e.changed = Partition.changes size before after
  fraction_eq : e.fraction = Criterion.share e.changed size
  reseeded_iff : e.reseeded = true ↔ ∃ c ∈ before, c.isEmpty = true

namespace Trial

variable {plan : Plan α} {count : Nat}

/-- A round adds an entry that describes it, and meets the criterion when that is stable. -/
theorem Round.exists_entry {s t : Stage α} {met : Bool} (hs : s.Covers plan.metric points count)
    (hpatience : s.criterion.patience = .int 1) (h : Round plan points s met t) :
    ∃ e : Entry, e.Describes s.iteration points.size s.clusters t.clusters ∧
      t.criterion.history = s.criterion.history ++ [e] ∧ s.criterion.isStable e = met := by
  obtain ⟨before, hassigned, hprevious⟩ := hs
  obtain ⟨labels, reseeded, hmove, hcheck⟩ := h.moves
  obtain ⟨centers, hcenters, hassign⟩ := move_eq_ok.1 hmove
  have hnext := (assigned_of_assign hassign).1
  have hlength := hnext.length_labels.trans hassigned.length_labels.symm
  rw [Criterion.check_next hprevious (Criterion.compare_ofList hlength)] at hcheck
  have hchanges : (List.zipWith (· != ·) labels before).countP id =
      Partition.changes points.size s.clusters t.clusters := by
    rw [← Partition.countP_labels, hnext.labels_eq, hassigned.labels_eq]
  rw [hchanges, hnext.length_labels] at hcheck
  obtain ⟨hmet, hcriterion⟩ := Prod.mk.inj (Except.ok.inj hcheck)
  rw [Criterion.isMet_record_eq hpatience] at hmet
  refine ⟨_, ⟨rfl, rfl, rfl, ?_⟩, ?_, hmet⟩
  · exact Update.reseeded_iff hassigned.divides.toShares hcenters
  · rw [← hcriterion]
    rfl

namespace Course

variable {g : Generator} {c : Criterion} {met : Bool} {stage : Nat → Stage α}
  (h : Course plan points g c count met stage)
include h

theorem asked_eq {i : Nat} (hi : i ≤ count) :
    (stage i).criterion.tolerance = c.tolerance ∧ (stage i).criterion.patience = c.patience := by
  have hround : ∀ s met t,
      s.criterion.tolerance = c.tolerance ∧ s.criterion.patience = c.patience →
      Round plan points s met t →
      t.criterion.tolerance = c.tolerance ∧ t.criterion.patience = c.patience := by
    rintro s met t hs hround
    obtain ⟨labels, reseeded, -, hcheck⟩ := hround.moves
    obtain ⟨-, htolerance, hpatience⟩ := Criterion.check_eq_ok hcheck
    exact ⟨htolerance.trans hs.1, hpatience.trans hs.2⟩
  refine h.invariant ?_ hround hi
  obtain ⟨clusters, labels, g', -, hfirst⟩ := h.seeded
  rw [hfirst]
  exact ⟨rfl, rfl⟩

variable (hpos : 0 < plan.clusters) (hpatience : c.patience = .int 1)
include hpos hpatience

theorem exists_entry {i : Nat} (hi : i < count) :
    ∃ e : Entry, e.Describes i points.size (stage i).clusters (stage (i + 1)).clusters ∧
      (stage (i + 1)).criterion.history = (stage i).criterion.history ++ [e] ∧
      c.isStable e = (met && i + 1 == count) := by
  have hasked := h.asked_eq hi.le
  obtain ⟨e, hdescribes, hhistory, hstable⟩ :=
    (h.round i hi).exists_entry (h.covers hpos hi.le) (hasked.2.trans hpatience)
  rw [h.iteration_eq hi.le] at hdescribes
  rw [Criterion.isStable_congr hasked.1] at hstable
  exact ⟨e, hdescribes, hhistory, hstable⟩

theorem length_history {i : Nat} (hi : i ≤ count) : (stage i).criterion.history.length = i := by
  induction i with
  | zero =>
    obtain ⟨clusters, labels, g', -, hfirst⟩ := h.seeded
    rw [hfirst]
    rfl
  | succ i ih =>
    obtain ⟨e, -, hhistory, -⟩ := h.exists_entry hpos hpatience hi
    rw [hhistory, List.length_append, ih (by omega)]
    rfl

/-- The record is only added to. -/
theorem history_prefix {i j : Nat} (hij : i ≤ j) (hj : j ≤ count) :
    (stage i).criterion.history <+: (stage j).criterion.history := by
  induction j, hij using Nat.le_induction with
  | base => exact List.prefix_refl _
  | succ j hij ih =>
    obtain ⟨e, -, hhistory, -⟩ := h.exists_entry hpos hpatience hj
    rw [hhistory]
    exact (ih (by omega)).trans (List.prefix_append _ _)

theorem history_eq_take {i : Nat} (hi : i ≤ count) :
    (stage i).criterion.history = (stage count).criterion.history.take i := by
  have htake := List.prefix_iff_eq_take.1 (h.history_prefix hpos hpatience hi le_rfl)
  rwa [h.length_history hpos hpatience hi] at htake

/-- The entry of each round stands in the record at its number. -/
theorem exists_getElem?_history {i : Nat} (hi : i < count) :
    ∃ e : Entry, (stage count).criterion.history[i]? = some e ∧
      e.Describes i points.size (stage i).clusters (stage (i + 1)).clusters ∧
      c.isStable e = (met && i + 1 == count) := by
  obtain ⟨e, hdescribes, hhistory, hstable⟩ := h.exists_entry hpos hpatience hi
  refine ⟨e, ?_, hdescribes, hstable⟩
  have hlength := h.length_history hpos hpatience hi.le
  have hat : (stage (i + 1)).criterion.history[i]? = some e := by
    rw [hhistory, List.getElem?_append_right hlength.le, hlength, Nat.sub_self]
    rfl
  rw [h.history_eq_take hpos hpatience hi, List.getElem?_take_of_lt (Nat.lt_succ_self i)] at hat
  exact hat

end Course

end Trial

end Step

namespace Clusterer

variable {horizon : Nat} {data : Dataset} {s t : Session Clusterer}
  {outcome : Trial.Outcome Float32}

theorem Course.patience_eq {p : Prepared} {stage : Nat → Trial.Stage Float32}
    (h : Course data s outcome t p stage) : p.criterion.patience = .int 1 :=
  (Option.some.inj (Criterion.numerals_of_make (prepare_eq_ok h.prepared).2.2.2).2).symm

namespace Course

variable {p : Prepared} {stage : Nat → Trial.Stage Float32} (h : Course data s outcome t p stage)
include h

theorem exists_criterion : ∃ criterion, t.procedure.criterion = some criterion ∧
    s.procedure.parameters.tol.numeral? = some criterion.tolerance ∧
    criterion.history = (stage outcome.iterations).criterion.history := by
  have htolerance := Criterion.numeral_of_make (prepare_eq_ok h.prepared).2.2.2
  rw [← (h.stages.asked_eq le_rfl).1] at htolerance
  exact ⟨_, h.criterion_eq, htolerance, rfl⟩

/-- The criterion that a run leaves behind has an entry for each round. -/
theorem exists_record : ∃ criterion, t.procedure.criterion = some criterion ∧
    s.procedure.parameters.tol.numeral? = some criterion.tolerance ∧
    criterion.history.length = outcome.iterations ∧
    ∀ i < outcome.iterations, ∃ e, criterion.history[i]? = some e ∧
      e.Describes i p.points.size (stage i).clusters (stage (i + 1)).clusters ∧
      criterion.isStable e = (outcome.converged && i + 1 == outcome.iterations) := by
  obtain ⟨criterion, hcriterion, htolerance, hhistory⟩ := h.exists_criterion
  have hlength := h.stages.length_history h.pos h.patience_eq le_rfl
  have hasked := Criterion.numeral_of_make (prepare_eq_ok h.prepared).2.2.2
  have hsame : criterion.tolerance = p.criterion.tolerance :=
    Option.some.inj (htolerance.symm.trans hasked)
  refine ⟨criterion, hcriterion, htolerance, hhistory ▸ hlength, ?_⟩
  intro i hi
  obtain ⟨e, hat, hdescribes, hstable⟩ :=
    h.stages.exists_getElem?_history h.pos h.patience_eq hi
  rw [← hhistory] at hat
  rw [← Criterion.isStable_congr hsame] at hstable
  exact ⟨e, hat, hdescribes, hstable⟩

variable {m : Int} (hlimit : s.procedure.parameters.maxIter.numeral? = some (.int m))
include hlimit

theorem iterations_le (hm : 0 ≤ m) : outcome.iterations ≤ m := by
  have hplan := (plan_of_prepare h.prepared).2.2.1
  rw [Limit.ofValue_of_nonneg hlimit hm] at hplan
  have hle := h.stages.le_limit hplan
  omega

/-- A run that has not come to its limit has met its criterion. -/
theorem converged_of_going (hgoing : outcome.iterations < m ∨ m < 0) : outcome.converged = true := by
  have hplan := (plan_of_prepare h.prepared).2.2.1
  apply h.stages.met_of_going
  unfold Trial.isOver
  rw [hplan]
  by_cases hm : 0 ≤ m
  · rw [Limit.ofValue_of_nonneg hlimit hm]
    have hnot : ¬ m.toNat ≤ outcome.iterations := by omega
    simp [hnot]
  · rw [Limit.ofValue_of_neg hlimit (by omega)]

end Course

/-- The record of a run that returns has one entry for each round, which tells what it changed and
whether it took points.  No entry but the last is stable; the last one is when the run has not
come to its limit. -/
theorem record_of_run (h : run horizon data s = .ok outcome t) :
    ∃ p stage criterion, Course data s outcome t p stage ∧
      t.procedure.criterion = some criterion ∧
      s.procedure.parameters.tol.numeral? = some criterion.tolerance ∧
      criterion.history.length = outcome.iterations ∧
      (∀ i < outcome.iterations, ∃ e, criterion.history[i]? = some e ∧
        e.Describes i p.points.size (stage i).clusters (stage (i + 1)).clusters ∧
        (i + 1 < outcome.iterations →
          Numeral.le (.double e.fraction) criterion.tolerance = false ∨ e.reseeded = true)) ∧
      ∀ m : Int, s.procedure.parameters.maxIter.numeral? = some (.int m) →
        (0 ≤ m → outcome.iterations ≤ m) ∧
        (outcome.iterations < m ∨ m < 0 → ∃ e, criterion.history.getLast? = some e ∧
          Numeral.le (.double e.fraction) criterion.tolerance = true ∧ e.reseeded = false) := by
  obtain ⟨p, stage, hcourse⟩ := exists_course h
  obtain ⟨criterion, hcriterion, htolerance, hlength, hentry⟩ := hcourse.exists_record
  refine ⟨p, stage, criterion, hcourse, hcriterion, htolerance, hlength, ?_, ?_⟩
  · intro i hi
    obtain ⟨e, hat, hdescribes, hstable⟩ := hentry i hi
    refine ⟨e, hat, hdescribes, ?_⟩
    intro hmore
    rw [beq_false_of_ne hmore.ne, Bool.and_false] at hstable
    exact Criterion.isStable_eq_false.1 hstable
  · intro m hlimit
    refine ⟨hcourse.iterations_le hlimit, ?_⟩
    intro hgoing
    have hmet := hcourse.converged_of_going hlimit hgoing
    have hpos := hcourse.stages.pos_of_met hmet
    obtain ⟨e, hat, -, hstable⟩ := hentry (outcome.iterations - 1) (by omega)
    have hlast : outcome.iterations - 1 + 1 = outcome.iterations := by omega
    rw [hmet, hlast, beq_self_eq_true] at hstable
    refine ⟨e, ?_, Criterion.isStable_eq_true.1 hstable⟩
    rw [List.getLast?_eq_getElem?, hlength]
    exact hat

/-- Two rounds, of which the first moves a point to the other cluster and the second none. -/
theorem record_of_run_pairing : ∃ outcome t criterion, run 9 triple pairing = .ok outcome t ∧
    t.procedure.criterion = some criterion ∧ outcome.iterations = 2 ∧
    criterion.history.map (fun e => (e.changed, e.reseeded)) = [(1, false), (0, false)] ∧
    ∃ first last, criterion.history[0]? = some first ∧ criterion.history.getLast? = some last ∧
      Numeral.le (.double first.fraction) criterion.tolerance = false ∧
      Numeral.le (.double last.fraction) criterion.tolerance = true := by
  have hrecord : (match run 9 triple pairing with
      | .ok outcome t => t.procedure.criterion.map fun c =>
        (outcome.iterations, c.history.map fun e => (e.changed, e.reseeded))
      | .error _ _ => none) = some (2, [(1, false), (0, false)]) := by decide +kernel
  cases hrun : run 9 triple pairing with
  | error e t =>
    rw [hrun] at hrecord
    cases hrecord
  | ok outcome t =>
    rw [hrun] at hrecord
    obtain ⟨p, stage, criterion, -, hcriterion, -, -, hentries, hlimit⟩ := record_of_run hrun
    dsimp only at hrecord
    rw [hcriterion] at hrecord
    obtain ⟨hcount, hhistory⟩ := Prod.mk.inj (Option.some.inj hrecord)
    obtain ⟨first, hfirst, -, hunstable⟩ := hentries 0 (by omega)
    obtain ⟨last, hlast, hstable, -⟩ := (hlimit (-1) rfl).2 (.inr (by decide))
    refine ⟨outcome, t, criterion, rfl, hcriterion, hcount, hhistory, first, last, hfirst, hlast,
      ?_, hstable⟩
    have hkept : (first.changed, first.reseeded) = (1, false) := by
      have hat := congrArg (·[0]?) hhistory
      simpa [hfirst] using hat
    refine (hunstable (by omega)).resolve_right ?_
    rw [(Prod.mk.inj hkept).2]
    exact Bool.false_ne_true

end Clusterer

end Centroids

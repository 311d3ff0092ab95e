import Mathlib
import Centroids.Proofs.Agreement
import Centroids.Proofs.Record

/-! A criterion under any sequence of resets and checks.  It keeps a count and the assignments it saw
last; the count is the length of the run of stable entries at the end of the record, so it tells
whether as many entries as asked for are stable. -/
namespace Centroids

section Suffix

variable {α : Type} {p : α → Bool}

/-- How long the last run is, told by the entries at the end. -/
theorem le_length_rtakeWhile {xs : List α} {n : Nat} :
    n ≤ (xs.rtakeWhile p).length ↔ n ≤ xs.length ∧ ∀ x ∈ xs.drop (xs.length - n), p x := by
  induction xs using List.reverseRecOn generalizing n with
  | nil => simp
  | append_singleton xs x ih =>
    cases n with
    | zero => simp
    | succ n =>
      have hdrop : (xs ++ [x]).drop (xs.length - n) = xs.drop (xs.length - n) ++ [x] :=
        List.drop_append_of_le_length (by omega)
      rw [List.length_append, List.length_singleton, Nat.add_sub_add_right, hdrop]
      cases hx : p x with
      | false => simp [List.rtakeWhile_concat_neg, hx]
      | true =>
        have hlast := ih (n := n)
        simp only [List.rtakeWhile_concat_pos _ _ _ hx, List.length_append, List.length_singleton,
          List.forall_mem_append, List.forall_mem_singleton]
        grind

end Suffix

namespace Criterion

inductive Operation
  | reset
  | check (o : Observation)

/-- The entry of a comparison in which some labels of all changed. -/
def entryFor (c : Criterion) (o : Observation) (changed count : Nat) : Entry :=
  ⟨o.iteration.getD (.int c.history.length), changed, share changed count, o.reseeded⟩

/-- Counts an entry that is stable; any other entry ends the row. -/
def tally (e : Entry) : EStateM Fault Criterion Bool := do
  if (← get).isStable e then
    modify fun c => { c with stable := c.stable + 1 }
    return Numeral.le (← get).patience (.int (← get).stable)
  else
    modify fun c => { c with stable := 0 }
    return false

/-- A check as changes of the criterion, one at a time: the entry is added, then it is counted, and
the assignments are remembered last. -/
def watch (o : Observation) : EStateM Fault Criterion Bool := do
  let some now := o.assignments | throw .missingField
  match (← get).previous with
  | none =>
    modify fun c => { c with previous := some now }
    return false
  | some before =>
    let (changed, count) ← (compare now before : Except Fault (Nat × Nat))
    let e := (← get).entryFor o changed count
    modify fun c => { c with history := c.history ++ [e] }
    let met ← tally e
    modify fun c => { c with previous := some now }
    return met

/-- What a check can come to. -/
theorem check_cases (c : Criterion) (o : Observation) :
    (o.assignments = none ∧ c.check o = .error .missingField) ∨
    (∃ now, o.assignments = some now ∧ c.previous = none ∧
      c.check o = .ok (false, { c with previous := some now })) ∨
    ∃ now before, o.assignments = some now ∧ c.previous = some before ∧
      ((∃ e, compare now before = .error e ∧ c.check o = .error e) ∨
      ∃ changed count, compare now before = .ok (changed, count) ∧
        let next := c.record now (c.entryFor o changed count)
        c.check o = .ok (next.isMet, next)) := by
  obtain ⟨assignments, iteration, reseeded⟩ := o
  cases assignments with
  | none => exact .inl ⟨rfl, rfl⟩
  | some now =>
    cases hprevious : c.previous with
    | none => exact .inr (.inl ⟨now, rfl, rfl, check_first hprevious now iteration reseeded⟩)
    | some before =>
      refine .inr (.inr ⟨now, before, rfl, rfl, ?_⟩)
      cases hcompare : compare now before with
      | error e =>
        refine .inl ⟨e, rfl, ?_⟩
        simp [check, hprevious, hcompare, bind, Except.bind]
      | ok counts =>
        exact .inr ⟨counts.1, counts.2, rfl, check_next hprevious hcompare iteration reseeded⟩

theorem tally_eq (e : Entry) (c : Criterion) :
    tally e c =
      let next := { c with stable := if c.isStable e then c.stable + 1 else 0 }
      .ok next.isMet next := by
  refine (step_bind_of_ok rfl).trans ?_
  cases hstable : c.isStable e with
  | false => rfl
  | true =>
    have hmet : isMet { c with stable := c.stable + 1 } =
        Numeral.le c.patience (.int (c.stable + 1 : Nat)) := by
      simp [isMet]
    simp only [if_true, hmet]
    rfl

/-- The changes of a check are those of its result, and a check that fails changes nothing. -/
theorem watch_eq (o : Observation) (c : Criterion) :
    watch o c = match c.check o with
      | .ok (met, next) => .ok met next
      | .error e => .error e c := by
  obtain ⟨assignments, iteration, reseeded⟩ := o
  cases assignments with
  | none => rfl
  | some now =>
    obtain ⟨tolerance, patience, history, previous, stable⟩ := c
    cases previous with
    | none => rfl
    | some before =>
      cases hcompare : compare now before with
      | error e =>
        simp only [check, hcompare]
        refine (step_bind_of_ok rfl).trans (step_bind_of_error ?_)
        rw [hcompare]
        rfl
      | ok counts =>
        rw [check_next rfl hcompare]
        have hread := step_lift_eq_ok (s := Criterion.mk tolerance patience history (some before) stable)
          |>.2 ⟨hcompare, rfl⟩
        refine (step_bind_of_ok rfl).trans ((step_bind_of_ok hread).trans ?_)
        exact (step_bind_of_ok rfl).trans
          ((step_bind_of_ok rfl).trans ((step_bind_of_ok (tally_eq _ _)).trans rfl))

/-- One operation, whether it fails or not. -/
def perform (c : Criterion) : Operation → Criterion
  | .reset => c.reset
  | .check o => finalState (watch o c)

def after (c : Criterion) (ops : List Operation) : Criterion := ops.foldl perform c

/-- Whether assignments can be compared with the last of those that were seen. -/
def fits (seen : List (Grid Int)) (now : Grid Int) : Bool :=
  match seen.getLast? with
  | none => true
  | some before => (compare now before).isOk

/-- The assignments accepted since the last reset. -/
def accept (seen : List (Grid Int)) : Operation → List (Grid Int)
  | .reset => []
  | .check o =>
    match o.assignments with
    | none => seen
    | some now => if fits seen now then seen ++ [now] else seen

def accepted (ops : List Operation) : List (Grid Int) := ops.foldl accept []

theorem after_concat (c : Criterion) (ops : List Operation) (op : Operation) :
    c.after (ops ++ [op]) = (c.after ops).perform op := by
  simp [after]

theorem accepted_concat (ops : List Operation) (op : Operation) :
    accepted (ops ++ [op]) = accept (accepted ops) op := by
  simp [accepted]

/-- What a criterion holds that was asked for a tolerance and a patience and has seen assignments. -/
structure Tracks (tolerance patience : Numeral) (seen : List (Grid Int)) (c : Criterion) : Prop where
  tolerance_eq : c.tolerance = tolerance
  patience_eq : c.patience = patience
  previous_eq : c.previous = seen.getLast?
  length_history : c.history.length = seen.length - 1
  stable_eq : c.stable = (c.history.rtakeWhile c.isStable).length

/-- What a check that succeeds leaves behind: nothing is recorded of the first assignments, and one
entry of any later ones, which compares them with those accepted just before. -/
inductive Records (c : Criterion) (seen : List (Grid Int)) (o : Observation) (now : Grid Int) :
    Criterion → Bool → Prop
  | first : seen = [] → Records c seen o now { c with previous := some now } false
  | later {before : Grid Int} {changed count : Nat} : seen.getLast? = some before →
      compare now before = .ok (changed, count) →
      Records c seen o now (c.record now (c.entryFor o changed count))
        (c.record now (c.entryFor o changed count)).isMet

section Step

variable {tolerance patience : Numeral} {seen : List (Grid Int)} {c : Criterion}

theorem Tracks.reset (h : c.Tracks tolerance patience seen) : c.reset.Tracks tolerance patience [] where
  tolerance_eq := h.tolerance_eq
  patience_eq := h.patience_eq
  previous_eq := rfl
  length_history := rfl
  stable_eq := rfl

theorem stable_record (h : c.stable = (c.history.rtakeWhile c.isStable).length) (now : Grid Int)
    (e : Entry) : (c.record now e).stable =
      ((c.record now e).history.rtakeWhile (c.record now e).isStable).length := by
  have hsame : (c.record now e).isStable = c.isStable := rfl
  rw [hsame, history_record]
  cases he : c.isStable e with
  | false => simp [record, he, List.rtakeWhile_concat_neg]
  | true => simp [record, he, List.rtakeWhile_concat_pos, h]

theorem Tracks.records (h : c.Tracks tolerance patience seen) {o : Observation} {now : Grid Int}
    {next : Criterion} {met : Bool} (hnext : Records c seen o now next met) :
    next.Tracks tolerance patience (seen ++ [now]) := by
  cases hnext with
  | first hseen =>
    subst hseen
    exact ⟨h.tolerance_eq, h.patience_eq, rfl, h.length_history, h.stable_eq⟩
  | later hbefore hcompare =>
    refine ⟨h.tolerance_eq, h.patience_eq, ?_, ?_, stable_record h.stable_eq now _⟩
    · simp [record]
    · have hpos : seen ≠ [] := by
        rintro rfl
        cases hbefore
      have := List.length_pos_iff.2 hpos
      simp only [history_record, List.length_append, List.length_singleton, h.length_history]
      omega

/-- The answer is read off what the check leaves behind, also where nothing was compared. -/
theorem Tracks.met_eq (h : c.Tracks tolerance patience seen) {o : Observation} {now : Grid Int}
    {next : Criterion} {met : Bool} (hnext : Records c seen o now next met) : met = next.isMet := by
  cases hnext with
  | first hseen =>
    have hhistory : c.history = [] := by
      rw [← List.length_eq_zero_iff, h.length_history, hseen]
      rfl
    have hstable : c.stable = 0 := by
      rw [h.stable_eq, hhistory]
      rfl
    simp [isMet, hstable]
  | later _ _ => rfl

/-- A check succeeds when the assignments are there and fit, and otherwise it changes nothing. -/
theorem Tracks.check_cases (h : c.Tracks tolerance patience seen) (o : Observation) :
    (∃ now met next, o.assignments = some now ∧ c.check o = .ok (met, next) ∧
      accept seen (.check o) = seen ++ [now] ∧ Records c seen o now next met) ∨
    ∃ e, c.check o = .error e ∧ accept seen (.check o) = seen ∧
      (o.assignments = none ∨ ∃ now before, o.assignments = some now ∧
        seen.getLast? = some before ∧ compare now before = .error e) := by
  rcases c.check_cases o with ⟨hnone, hcheck⟩ | ⟨now, hnow, hprevious, hcheck⟩ |
    ⟨now, before, hnow, hprevious, hcompare⟩
  · exact .inr ⟨_, hcheck, by simp [accept, hnone], .inl hnone⟩
  · rw [h.previous_eq] at hprevious
    refine .inl ⟨now, _, _, hnow, hcheck, by simp [accept, fits, hnow, hprevious], .first ?_⟩
    exact List.getLast?_eq_none_iff.1 hprevious
  · rw [h.previous_eq] at hprevious
    rcases hcompare with ⟨e, hcompare, hcheck⟩ | ⟨changed, count, hcompare, hcheck⟩
    · refine .inr ⟨e, hcheck, ?_, .inr ⟨now, before, hnow, hprevious, hcompare⟩⟩
      simp [accept, fits, hnow, hprevious, hcompare, Except.isOk, Except.toBool]
    · refine .inl ⟨now, _, _, hnow, hcheck, ?_, .later hprevious hcompare⟩
      simp [accept, fits, hnow, hprevious, hcompare, Except.isOk, Except.toBool]

theorem Tracks.perform (h : c.Tracks tolerance patience seen) (op : Operation) :
    (c.perform op).Tracks tolerance patience (accept seen op) := by
  cases op with
  | reset => exact h.reset
  | check o =>
    rw [Criterion.perform, watch_eq]
    rcases h.check_cases o with ⟨now, met, next, -, hcheck, haccept, hnext⟩ | ⟨e, hcheck, haccept, -⟩
    · rw [hcheck, haccept]
      exact h.records hnext
    · rw [hcheck, haccept]
      exact h

end Step

theorem tracks_after {tolerance patience : Value} {new : Criterion}
    (hnew : make tolerance patience = .ok new) (ops : List Operation) :
    (new.after ops).Tracks new.tolerance new.patience (accepted ops) := by
  induction ops using List.reverseRecOn with
  | nil =>
    obtain ⟨tol, count, -, -, rfl⟩ := exists_of_make hnew
    exact ⟨rfl, rfl, rfl, rfl, rfl⟩
  | append_singleton ops op ih =>
    rw [after_concat, accepted_concat]
    exact ih.perform op

theorem patience_of_make {tolerance patience : Value} {c : Criterion}
    (h : make tolerance patience = .ok c) : c.patience.lt (.int 1) = false := by
  obtain ⟨tol, count, htolerance, hcount, rfl⟩ := exists_of_make h
  cases hlt : count.lt (.int 1) with
  | false => rfl
  | true =>
    simp only [make, htolerance, hcount, hlt, if_true] at h
    split at h <;> exact nomatch h

/-- The criterion is met when as many entries as asked for are there and the last ones are stable. -/
theorem Tracks.isMet_iff {tolerance : Numeral} {n : Nat} {seen : List (Grid Int)} {c : Criterion}
    (h : c.Tracks tolerance (.int n) seen) (hn : 0 < n) :
    c.isMet = true ↔ n ≤ c.history.length ∧ ∀ e ∈ c.history.drop (c.history.length - n),
      Numeral.le (.double e.fraction) tolerance = true ∧ e.reseeded = false := by
  have hcount : c.isMet = true ↔ n ≤ c.stable := by
    simp only [isMet, h.patience_eq, Numeral.le_int, Bool.and_eq_true, bne_iff_ne,
      decide_eq_true_iff]
    omega
  rw [hcount, h.stable_eq, le_length_rtakeWhile]
  simp only [isStable_eq_true, h.tolerance_eq]

/-- After any resets and checks, a check fails only where the assignments are missing or do not
compare with those accepted just before, and then changes nothing.  Any other check is met when as
many entries were recorded since the last reset as asked for and the last ones are stable. -/
theorem check_after {tolerance patience : Value} {tol : Numeral} {n : Nat} {new : Criterion}
    (hnew : make tolerance patience = .ok new) (htolerance : tolerance.numeral? = some tol)
    (hpatience : patience.numeral? = some (.int n)) (ops : List Operation) (o : Observation) :
    let c := new.after ops
    let seen := accepted ops
    c.history.length = seen.length - 1 ∧
    ((∃ now met next, c.check o = .ok (met, next) ∧ watch o c = .ok met next ∧
      o.assignments = some now ∧ accepted (ops ++ [.check o]) = seen ++ [now] ∧
      Records c seen o now next met ∧
      (met = true ↔ n ≤ next.history.length ∧
        ∀ e ∈ next.history.drop (next.history.length - n),
          Numeral.le (.double e.fraction) tol = true ∧ e.reseeded = false)) ∨
    ∃ e, c.check o = .error e ∧ watch o c = .error e c ∧ accepted (ops ++ [.check o]) = seen ∧
      (o.assignments = none ∨ ∃ now before, o.assignments = some now ∧
        seen.getLast? = some before ∧ compare now before = .error e)) := by
  intro c seen
  have htracks : c.Tracks new.tolerance new.patience seen := tracks_after hnew ops
  obtain ⟨hnewtolerance, hnewpatience⟩ := numerals_of_make hnew
  have hpos := patience_of_make hnew
  rw [← Option.some.inj (htolerance.symm.trans hnewtolerance),
    ← Option.some.inj (hpatience.symm.trans hnewpatience)] at htracks
  rw [← Option.some.inj (hpatience.symm.trans hnewpatience), Numeral.lt_int] at hpos
  have hn : 0 < n := by
    have := of_decide_eq_false hpos
    omega
  refine ⟨htracks.length_history, ?_⟩
  rw [accepted_concat, watch_eq]
  rcases htracks.check_cases o with ⟨now, met, next, hnow, hcheck, haccept, hnext⟩ |
    ⟨e, hcheck, haccept, hcause⟩
  · refine .inl ⟨now, met, next, hcheck, by rw [hcheck], hnow, haccept, hnext, ?_⟩
    rw [htracks.met_eq hnext]
    exact (htracks.records hnext).isMet_iff hn
  · exact .inr ⟨e, hcheck, by rw [hcheck], haccept, hcause⟩

def shown (labels : List Int) : Observation := ⟨some (.ofList labels), none, false⟩

/-- New, with half of the labels free to change, twice in a row. -/
def lenient : Criterion := ⟨.double 0.5, .int 2, [], none, 0⟩

/-- Before the reset the labels change too much, and after it two checks fail. -/
def visits : List Operation :=
  [.check (shown [0, 0, 0, 0]), .check (shown [0, 1, 1, 1]), .reset, .check ⟨none, none, false⟩,
    .check (shown [0, 0, 0, 0]), .check (shown [0, 0]), .check (shown [0, 0, 0, 1])]

theorem check_after_visits : make (.double 0.5) (.int 2) = .ok lenient ∧
    ∃ next, watch (shown [0, 0, 1, 1]) (lenient.after visits) = .ok true next ∧
      next.history.length = 2 ∧ ∀ e ∈ next.history,
        Numeral.le (.double e.fraction) (.double 0.5) = true ∧ e.reseeded = false := by
  have hmake : make (.double 0.5) (.int 2) = .ok lenient := rfl
  have htolerance : (Value.double 0.5).numeral? = some (.double 0.5) := rfl
  have hpatience : (Value.int 2).numeral? = some (.int (2 : Nat)) := rfl
  have hends : (match check (lenient.after visits) (shown [0, 0, 1, 1]) with
      | .ok (met, next) => met && next.history.length == 2
      | .error _ => false) = true := rfl
  refine ⟨hmake, ?_⟩
  obtain ⟨-, ⟨now, met, next, hcheck, hwatch, -, -, -, hmet⟩ | ⟨e, hcheck, -⟩⟩ :=
    check_after hmake htolerance hpatience visits (shown [0, 0, 1, 1])
  · rw [hcheck, Bool.and_eq_true, beq_iff_eq] at hends
    obtain ⟨hyes, hlength⟩ := hends
    have hstable := (hmet.1 hyes).2
    rw [hlength] at hstable
    rw [hyes] at hwatch
    exact ⟨next, hwatch, hlength, hstable⟩
  · rw [hcheck] at hends
    cases hends

end Criterion

end Centroids

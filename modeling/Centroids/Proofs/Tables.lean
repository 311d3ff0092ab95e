import Centroids.Proofs.Batches
import Centroids.Proofs.Choosing
import Centroids.Proofs.Narrowing
import Centroids.Dataset

/-! Which data is accepted.  A value stands for points if it is a list of numbers, one for each point, or a
list of lists of numbers that are of one length; it is accepted if there are points, they have
coordinates, and all numbers are finite in the format in which they are stored.  Everything else is
refused, for its value or for its type, however deep or uneven it is; and points that were accepted
are accepted again, as they are. -/
namespace Centroids

namespace Fault

/-- Faults of data: what is not asked for, and what is of a type that is not accepted. -/
def OfData : Fault → Prop
  | missingData | dataRank _ | noSamples | noFeatures | nanEntry | infiniteEntry | ragged
  | notTabular _ | entryType => True
  | _ => False

theorem OfData.kind {e : Fault} (h : e.OfData) : e.kind = .value ∨ e.kind = .type := by
  cases e <;> first | exact .inl rfl | exact .inr rfl | exact h.elim

end Fault

section Refusal

variable {β γ : Type}

/-- A calculation that fails, if at all, for the data. -/
def Judges (m : Except Fault β) : Prop := ∀ e, m = .error e → e.OfData

theorem Judges.ok (b : β) : Judges (.ok b) := fun _ h => nomatch h

theorem Judges.error {e : Fault} (h : e.OfData) : Judges (.error e : Except Fault β) := by
  intro e' h'
  cases h'
  exact h

theorem Judges.bind {m : Except Fault β} {f : β → Except Fault γ} (hm : Judges m)
    (hf : ∀ b, Judges (f b)) : Judges (m >>= f) := by
  intro e h
  cases m with
  | error e' =>
    cases h
    exact hm e rfl
  | ok b => exact hf b e h

theorem Judges.map {m : Except Fault β} (hm : Judges m) (f : β → γ) : Judges (m.map f) := by
  intro e h
  cases m with
  | error e' =>
    cases h
    exact hm e rfl
  | ok b => cases h

theorem Judges.mapM {f : β → Except Fault γ} {xs : List β} (h : ∀ x ∈ xs, Judges (f x)) :
    Judges (xs.mapM f) := by
  intro e herror
  obtain ⟨x, hx, hfail⟩ := exists_of_mapM_eq_error herror
  exact h x hx e hfail

end Refusal

namespace Grid

variable {α : Type} {number : Value → Except Fault α}

theorem judges_shapeOf (depth : Nat) (v : Value) : Judges (shapeOf depth v) := by
  induction depth generalizing v with
  | zero =>
    unfold shapeOf
    split
    · exact .ok _
    · exact .ok _
    · exact .error trivial
  | succ depth ih =>
    unfold shapeOf
    split
    · exact .ok _
    · exact .ok _
    · exact (ih _).map _

theorem judges_numbers (h : ∀ v, Judges (number v)) (shape : List Nat) (v : Value) :
    Judges (numbers number shape v) := by
  induction shape generalizing v with
  | nil => exact (h v).map _
  | cons n shape ih =>
    unfold numbers
    split
    · exact .error trivial
    · split
      · exact (Judges.mapM fun item _ => ih item).map _
      · exact .error trivial

theorem judges_ofValue (h : ∀ v, Judges (number v)) (v : Value) : Judges (ofValue number v) := by
  refine (judges_shapeOf _ _).bind fun shape => (judges_numbers h _ _).bind fun xs => ?_
  split
  · exact .ok _
  · exact .error trivial

theorem shapeOf_of_none {v : Value} (h : v.items? = none) (depth : Nat) : shapeOf depth v = .ok [] := by
  unfold shapeOf
  rw [h]

theorem shapeOf_cons {v first : Value} {rest : List Value} (h : v.items? = some (first :: rest))
    (depth : Nat) :
    shapeOf (depth + 1) v = (shapeOf depth first).map ((rest.length + 1) :: ·) := by
  conv_lhs => unfold shapeOf
  rw [h]

theorem ofEntries?_eq_some {shape : List Nat} {xs : List α} {g : Grid α} :
    ofEntries? shape xs = some g ↔ g.shape = shape ∧ g.toList = xs := by
  unfold ofEntries?
  constructor
  · intro h
    split at h
    · cases h
      exact ⟨rfl, rfl⟩
    · cases h
  · rintro ⟨rfl, rfl⟩
    rw [dif_pos (by simp [toList, Vector.toList])]
    exact congrArg some (eq_of_toList rfl rfl)

theorem ofValue_eq_ok {v : Value} {g : Grid α} : ofValue number v = .ok g ↔
    shapeOf maxRank v = .ok g.shape ∧ numbers number g.shape v = .ok g.toList := by
  unfold ofValue
  constructor
  · intro h
    obtain ⟨shape, hshape, h⟩ := bind_eq_ok.1 h
    obtain ⟨xs, hxs, h⟩ := bind_eq_ok.1 h
    split at h
    · rename_i g' hentries
      cases h
      obtain ⟨rfl, rfl⟩ := ofEntries?_eq_some.1 hentries
      exact ⟨hshape, hxs⟩
    · cases h
  · rintro ⟨hshape, hxs⟩
    refine bind_eq_ok.2 ⟨_, hshape, bind_eq_ok.2 ⟨_, hxs, ?_⟩⟩
    rw [ofEntries?_eq_some.2 ⟨rfl, rfl⟩]
    rfl

theorem numbers_cons_eq_ok {v : Value} {n : Nat} {shape : List Nat} {xs : List α} :
    numbers number (n :: shape) v = .ok xs ↔ ∃ (items : List Value) (blocks : List (List α)),
      v.items? = some items ∧ items.length = n ∧
        items.map (numbers number shape) = blocks.map .ok ∧ xs = blocks.flatten := by
  unfold numbers
  cases hitems : v.items? with
  | none => simp
  | some items =>
    dsimp only
    split
    · rename_i hlength
      simp only [map_eq_ok, mapM_eq_ok]
      constructor
      · rintro ⟨blocks, hblocks, rfl⟩
        exact ⟨items, blocks, rfl, hlength, hblocks, rfl⟩
      · rintro ⟨items', blocks, hsame, -, hblocks, rfl⟩
        cases hsame
        exact ⟨blocks, hblocks, rfl⟩
    · rename_i hlength
      refine iff_of_false (fun h => nomatch h) ?_
      rintro ⟨items', blocks, hsame, hlength', -⟩
      cases hsame
      exact hlength hlength'

/-- Numbers that are read one by one. -/
theorem map_numbers_nil {items : List Value} {blocks : List (List α)} :
    items.map (numbers number []) = blocks.map .ok ↔
      ∃ xs : List α, items.map number = xs.map .ok ∧ blocks = xs.map ([·]) := by
  constructor
  · intro h
    induction items generalizing blocks with
    | nil =>
      cases blocks with
      | nil => exact ⟨[], rfl, rfl⟩
      | cons => cases h
    | cons v items ih =>
      cases blocks with
      | nil => cases h
      | cons block blocks =>
        obtain ⟨hfirst, hrest⟩ := List.cons.inj h
        obtain ⟨x, hx, rfl⟩ := map_eq_ok.1 hfirst
        obtain ⟨xs, hxs, rfl⟩ := ih hrest
        exact ⟨x :: xs, congrArg₂ List.cons hx hxs, rfl⟩
  · rintro ⟨xs, hxs, rfl⟩
    have hnil : items.map (numbers number []) = (items.map number).map (Except.map ([·])) := by
      rw [List.map_map]
      rfl
    rw [hnil, hxs, List.map_map, List.map_map]
    rfl

theorem numbers_line {v : Value} {n : Nat} {xs : List α} : numbers number [n] v = .ok xs ↔
    ∃ items : List Value, v.items? = some items ∧ items.length = n ∧
      items.map number = xs.map .ok := by
  rw [numbers_cons_eq_ok]
  constructor
  · rintro ⟨items, blocks, hitems, hlength, hblocks, rfl⟩
    obtain ⟨xs, hxs, rfl⟩ := map_numbers_nil.1 hblocks
    refine ⟨items, hitems, hlength, ?_⟩
    rw [hxs, ← List.flatMap_def, List.flatMap_singleton']
  · rintro ⟨items, hitems, hlength, hxs⟩
    refine ⟨items, _, hitems, hlength, map_numbers_nil.2 ⟨xs, hxs, rfl⟩, ?_⟩
    rw [← List.flatMap_def, List.flatMap_singleton']

end Grid

namespace Dataset

variable {α : Type} [Stored α]

theorem judges_number (v : Value) : Judges (number v : Except Fault α) := by
  cases v with
  | bool | int | double => exact .ok _
  | null | text | list | dict => exact .error trivial

theorem judges_demand (data : Dataset) : Judges data.demand := by
  cases data with
  | value v =>
    cases v with
    | null => exact .error trivial
    | list => exact .ok _
    | bool | int | double | text | dict => exact .error trivial
  | doubles | integers | texts => exact .ok _

theorem judges_validate [Scalar α] (data : Dataset) :
    Judges (data.validate : Except Fault (Points α)) := by
  refine (judges_demand data).bind fun _ => Judges.bind ?_ fun g => Judges.bind ?_ fun points => ?_
  · cases data with
    | value v => exact Grid.judges_ofValue judges_number v
    | doubles | integers => exact .ok _
    | texts => exact .error trivial
  · unfold pointsOf
    split
    · exact .ok _
    · split
      · exact .ok _
      · exact .error trivial
  · unfold check
    repeat' split
    all_goals first | exact .ok _ | exact .error trivial

end Dataset

theorem length_eq_of_map_eq {β γ δ : Type} {f : β → δ} {g : γ → δ} {xs : List β} {ys : List γ}
    (h : xs.map f = ys.map g) : xs.length = ys.length := by
  simpa using congrArg List.length h

section Rows

variable {α : Type}

theorem Points.chunks_flatten {width : Nat} {rows : List (List α)}
    (h : ∀ row ∈ rows, row.length = width) : chunks width rows.length rows.flatten = rows := by
  induction rows with
  | nil => rfl
  | cons row rows ih =>
    rw [List.forall_mem_cons] at h
    rw [List.length_cons, List.flatten_cons, chunks, List.take_left' h.1, List.drop_left' h.1, ih h.2]

theorem Points.ofGrid?_toGrid (p : Points α) : ofGrid? p.toGrid = some p :=
  congrArg some (eq_of_rows rfl (chunks_flatten p.length_row))

theorem Dataset.pointsOf_eq_ok {g : Grid α} {p : Points α} : Dataset.pointsOf g = .ok p ↔
    (∃ n, g.shape = [n]) ∧ p = .ofList g.toList ∨
      ∃ n, g.shape = [n, p.dim] ∧ p.rows = Points.chunks p.dim n g.toList := by
  unfold Dataset.pointsOf
  obtain ⟨shape, entries⟩ := g
  match shape, entries with
  | [], entries => simp [Grid.rank, Points.ofGrid?]
  | [n], entries => simp [Grid.rank, eq_comm]
  | [n, width], entries =>
    have hrank : (Grid.mk [n, width] entries).rank ≠ 1 := Nat.succ_ne_self 1
    rw [if_neg hrank]
    constructor
    · rintro ⟨⟩
      exact .inr ⟨n, rfl, rfl⟩
    · rintro (⟨⟨_, hshape⟩, -⟩ | ⟨n', hshape, hrows⟩)
      · cases hshape
      · obtain ⟨rfl, hwidth⟩ : n = n' ∧ width = p.dim := by simpa using hshape
        rw [← hwidth] at hrows
        exact congrArg Except.ok (Points.eq_of_rows hwidth hrows.symm)
  | _ :: _ :: _ :: _, entries => simp [Grid.rank, Points.ofGrid?]

theorem Dataset.pointsOf_toGrid (p : Points α) : Dataset.pointsOf p.toGrid = .ok p := by
  have hrank : p.toGrid.rank ≠ 1 := Nat.succ_ne_self 1
  unfold Dataset.pointsOf
  rw [if_neg hrank, Points.ofGrid?_toGrid]

end Rows

/-- At least one point, at least one coordinate, and finite numbers. -/
structure Points.Valid {α : Type} [Scalar α] (p : Points α) : Prop where
  size_ne : p.size ≠ 0
  dim_ne : p.dim ≠ 0
  finite : ∀ row ∈ p.rows, ∀ x ∈ row, Scalar.isNaN x = false ∧ Scalar.isFinite x = true

namespace Dataset

variable {α : Type} [Stored α] {v : Value} {p : Points α}

/-- The points that a list stands for: each number is stored, and a number that is not in a list of its
own is a point with one coordinate. -/
inductive Tabulates : Value → Points α → Prop
  | column {items : List Value} {xs : List α} :
      items.map number = xs.map .ok → Tabulates (.list items) (.ofList xs)
  | rows {items : List (List Value)} {p : Points α} :
      items.map (·.map number) = p.rows.map (·.map .ok) → Tabulates (.list (items.map .list)) p

section Entries

theorem items?_of_number {x : α} (h : number v = .ok x) : v.items? = none := by
  cases v with
  | bool | int | double => rfl
  | null | text | list | dict => cases h

/-- The characters of a text are no numbers. -/
theorem eq_list_of_numbers {items : List Value} {xs : List α} (hitems : v.items? = some items)
    (hxs : items.map number = xs.map .ok) (hne : xs ≠ []) : v = .list items := by
  cases v with
  | null | bool | int | double | dict => cases hitems
  | list => exact congrArg Value.list (Option.some.inj hitems)
  | text s =>
    cases hitems
    cases xs with
    | nil => exact absurd rfl hne
    | cons x xs =>
      cases hs : s.toList with
      | nil =>
        rw [hs] at hxs
        cases hxs
      | cons c cs =>
        rw [hs] at hxs
        cases (List.cons.inj hxs).1

theorem exists_rows {items : List Value} {blocks : List (List α)} {width : Nat}
    (hwidth : width ≠ 0) (h : items.map (Grid.numbers number [width]) = blocks.map .ok) :
    (∃ rows : List (List Value), items = rows.map .list ∧
      rows.map (·.map number) = blocks.map (·.map .ok)) ∧ ∀ block ∈ blocks, block.length = width := by
  induction items generalizing blocks with
  | nil =>
    cases blocks with
    | nil => exact ⟨⟨[], rfl, rfl⟩, fun _ hblock => nomatch hblock⟩
    | cons => cases h
  | cons v items ih =>
    cases blocks with
    | nil => cases h
    | cons block blocks =>
      obtain ⟨hfirst, hrest⟩ := List.cons.inj h
      obtain ⟨entries, hentries, hlength, hnumbers⟩ := Grid.numbers_line.1 hfirst
      have hblock : block.length = width := (length_eq_of_map_eq hnumbers).symm.trans hlength
      have hlist := eq_list_of_numbers hentries hnumbers
        (List.ne_nil_of_length_pos (by omega))
      obtain ⟨⟨rows, rfl, hrows⟩, hblocks⟩ := ih hrest
      refine ⟨⟨entries :: rows, ?_, congrArg₂ List.cons hnumbers hrows⟩, ?_⟩
      · rw [hlist, List.map_cons]
      · rw [List.forall_mem_cons]
        exact ⟨hblock, hblocks⟩

theorem map_numbers_rows {rows : List (List Value)} {blocks : List (List α)} {width : Nat}
    (h : rows.map (·.map number) = blocks.map (·.map .ok))
    (hwidth : ∀ block ∈ blocks, block.length = width) :
    (rows.map .list).map (Grid.numbers number [width]) = blocks.map .ok := by
  induction rows generalizing blocks with
  | nil =>
    cases blocks with
    | nil => rfl
    | cons => cases h
  | cons entries rows ih =>
    cases blocks with
    | nil => cases h
    | cons block blocks =>
      obtain ⟨hfirst, hrest⟩ := List.cons.inj h
      rw [List.forall_mem_cons] at hwidth
      have hlength : entries.length = width := (length_eq_of_map_eq hfirst).trans hwidth.1
      exact congrArg₂ List.cons (Grid.numbers_line.2 ⟨entries, rfl, hlength, hfirst⟩)
        (ih hrest hwidth.2)

/-- The first number of a list tells that the list has one axis. -/
theorem shapeOf_numbers {items : List Value} {xs : List α} (hitems : v.items? = some items)
    (hxs : items.map number = xs.map .ok) (hne : xs ≠ []) (depth : Nat) :
    Grid.shapeOf (depth + 1) v = .ok [xs.length] := by
  cases items with
  | nil =>
    cases xs with
    | nil => exact absurd rfl hne
    | cons => cases hxs
  | cons first rest =>
    cases xs with
    | nil => cases hxs
    | cons x xs =>
      obtain ⟨hfirst, hrest⟩ := List.cons.inj hxs
      rw [Grid.shapeOf_cons hitems, Grid.shapeOf_of_none (items?_of_number hfirst),
        length_eq_of_map_eq hrest]
      rfl

end Entries

variable [Scalar α]

theorem validate_eq_ok {data : Dataset} : data.validate = .ok p ↔
    data.demand = .ok () ∧ (∃ g, data.read = .ok g ∧ pointsOf g = .ok p) ∧ p.Valid := by
  constructor
  · intro h
    obtain ⟨_, hdemand, h⟩ := bind_eq_ok.1 h
    obtain ⟨g, hread, h⟩ := bind_eq_ok.1 h
    obtain ⟨q, hpoints, h⟩ := bind_eq_ok.1 h
    obtain ⟨rfl, hsize, hdim, hfinite⟩ := check_eq_ok.1 h
    exact ⟨hdemand, ⟨g, hread, hpoints⟩, hsize, hdim, hfinite⟩
  · rintro ⟨hdemand, ⟨g, hread, hpoints⟩, hvalid⟩
    have hchecked : check p = .ok p :=
      check_eq_ok.2 ⟨rfl, hvalid.size_ne, hvalid.dim_ne, hvalid.finite⟩
    exact bind_eq_ok.2 ⟨_, hdemand, bind_eq_ok.2 ⟨g, hread, bind_eq_ok.2 ⟨p, hpoints, hchecked⟩⟩⟩

/-- A value that is accepted stands for the points that it is taken for. -/
theorem tabulates_of_validate (h : (value v).validate = .ok p) : Tabulates v p ∧ p.Valid := by
  obtain ⟨hdemand, ⟨g, hread, hpoints⟩, hvalid⟩ := validate_eq_ok.1 h
  refine ⟨?_, hvalid⟩
  cases v with
  | null | bool | int | double | text | dict => cases hdemand
  | list items =>
    obtain ⟨-, hnumbers⟩ := Grid.ofValue_eq_ok.1 hread
    obtain ⟨⟨n, hshape⟩, rfl⟩ | ⟨n, hshape, hrows⟩ := pointsOf_eq_ok.1 hpoints
    · rw [hshape] at hnumbers
      obtain ⟨items', hitems, -, hentries⟩ := Grid.numbers_line.1 hnumbers
      cases hitems
      exact .column hentries
    · rw [hshape] at hnumbers
      obtain ⟨items', blocks, hitems, hlength, hblocks, hflat⟩ := Grid.numbers_cons_eq_ok.1 hnumbers
      cases hitems
      obtain ⟨⟨rows, rfl, hentries⟩, hwidth⟩ := exists_rows hvalid.dim_ne hblocks
      have hcount : n = blocks.length := hlength.symm.trans (length_eq_of_map_eq hblocks)
      rw [hflat, hcount, Points.chunks_flatten hwidth] at hrows
      rw [← hrows] at hentries
      exact .rows hentries

theorem shapeOf_rows {items : List (List Value)}
    (h : items.map (·.map number) = p.rows.map (·.map .ok)) (hvalid : p.Valid) (depth : Nat) :
    Grid.shapeOf (depth + 2) (.list (items.map .list)) = .ok p.toGrid.shape := by
  have hlength : items.length = p.size := length_eq_of_map_eq h
  cases items with
  | nil => exact absurd hlength.symm hvalid.size_ne
  | cons first rest =>
    cases hrows : p.rows with
    | nil =>
      rw [hrows] at h
      cases h
    | cons row rows =>
      have hrow : row.length = p.dim := p.length_row row (hrows ▸ List.mem_cons_self)
      have hne : row ≠ [] := List.ne_nil_of_length_pos (by have := hvalid.dim_ne; omega)
      rw [hrows] at h
      rw [List.map_cons, Grid.shapeOf_cons rfl, shapeOf_numbers rfl (List.cons.inj h).1 hne, hrow,
        List.length_map, ← List.length_cons, hlength]
      rfl

theorem validate_of_tabulates (h : Tabulates v p) (hvalid : p.Valid) :
    (value v).validate = .ok p := by
  cases h with
  | @column items xs hentries =>
    have hne : xs ≠ [] := by
      rintro rfl
      exact hvalid.size_ne rfl
    refine validate_eq_ok.2 ⟨rfl, ⟨.ofList xs, Grid.ofValue_eq_ok.2 ⟨?_, ?_⟩, ?_⟩, hvalid⟩
    · exact shapeOf_numbers rfl hentries hne _
    · rw [Grid.toList_ofList]
      exact Grid.numbers_line.2 ⟨items, rfl, length_eq_of_map_eq hentries, hentries⟩
    · rw [pointsOf_eq_ok, Grid.toList_ofList]
      exact .inl ⟨⟨_, rfl⟩, rfl⟩
  | @rows items _ hentries =>
    refine validate_eq_ok.2 ⟨rfl, ⟨p.toGrid, Grid.ofValue_eq_ok.2 ⟨?_, ?_⟩, pointsOf_toGrid p⟩, hvalid⟩
    · exact shapeOf_rows hentries hvalid _
    · have hblocks := map_numbers_rows hentries p.length_row
      exact Grid.numbers_cons_eq_ok.2 ⟨_, p.rows, rfl, length_eq_of_map_eq hblocks, hblocks, rfl⟩

/-- Formats whose finite numbers come back from double precision as they were. -/
class Narrows (α : Type) [Scalar α] [Stored α] [Widening α Float] : Prop where
  ofDouble_widen : ∀ x : α, Scalar.isFinite x = true → Stored.ofDouble (Widening.widen x) = x

instance : Narrows Float32 := ⟨fun _ h => toSingle_ofSingle h⟩

instance : Narrows Float := ⟨fun _ _ => rfl⟩

theorem validate_toGrid [Widening α Float] [Narrows α] (h : p.Valid) :
    (doubles (p.toGrid.map Widening.widen)).validate = .ok p := by
  have hback : (p.toGrid.map Widening.widen).map Stored.ofDouble = p.toGrid := by
    apply Grid.eq_of_toList
    · rfl
    · rw [Grid.toList_map, Grid.toList_map, List.map_map]
      refine (List.map_congr_left fun x hx => ?_).trans (List.map_id _)
      obtain ⟨row, hrow, hx⟩ := List.mem_flatten.1 hx
      exact Narrows.ofDouble_widen x (h.finite row hrow x hx).2
  refine validate_eq_ok.2 ⟨rfl, ⟨p.toGrid, ?_, pointsOf_toGrid p⟩, h⟩
  exact congrArg Except.ok hback

/-- Accepted are the values that stand for valid points, and they are taken for those; everything else
is refused for its value or its type; and what has been accepted is accepted again. -/
theorem validate_eq_ok_iff [Widening α Float] [Narrows α] :
    (∀ (v : Value) (p : Points α), (value v).validate = .ok p ↔ Tabulates v p ∧ p.Valid) ∧
    (∀ (data : Dataset) (e : Fault), (data.validate : Except Fault (Points α)) = .error e →
      e.OfData ∧ (e.kind = .value ∨ e.kind = .type)) ∧
    ∀ (data : Dataset) (p : Points α), data.validate = .ok p →
      (doubles (p.toGrid.map Widening.widen)).validate = .ok p := by
  refine ⟨fun v p => ⟨tabulates_of_validate, fun h => validate_of_tabulates h.1 h.2⟩,
    fun data e he => ⟨judges_validate data e he, (judges_validate data e he).kind⟩,
    fun data p h => ?_⟩
  exact validate_toGrid (validate_eq_ok.1 h).2.2

section Corner

/-- Rows that mix the sorts of numbers. -/
def mixed : List (List Value) := [[.int 3, .double 0.1], [.bool true, .int (-2)]]

def stored : Points Float32 := ⟨2, [[3, Double.toSingle 0.1], [1, -2]], by decide⟩

/-- A double that is no single. -/
def excess : Value := .list [.double 1e39]

theorem validate_eq_ok_iff_mixed :
    (value (.list (mixed.map .list))).validate = .ok stored ∧
      (doubles (stored.toGrid.map Widening.widen)).validate = .ok stored ∧
      ∀ p : Points Float32, ¬ (Tabulates excess p ∧ p.Valid) := by
  have hvalid : stored.Valid := ⟨by decide, by decide, by decide +kernel⟩
  have htabulates : Tabulates (.list (mixed.map .list)) stored := .rows (by decide +kernel)
  have haccepted := (validate_eq_ok_iff.1 _ stored).2 ⟨htabulates, hvalid⟩
  refine ⟨haccepted, validate_eq_ok_iff.2.2 _ stored haccepted, fun p hp => ?_⟩
  have hrefused : (value excess).validate = (.error .infiniteEntry : Except Fault (Points Float32)) := by
    decide +kernel
  rw [(validate_eq_ok_iff.1 excess p).2 hp] at hrefused
  cases hrefused

end Corner

end Dataset

end Centroids

import Centroids.Proofs.Squares

/-! Whole arrays and their rows.  A formula is computed on an array of points by stretching axes of
length one, entry by entry; what it gives is the list of the distances of the rows, one for each,
and a row alone has the distance that it has among others. -/
namespace Centroids

variable {α β γ : Type}

theorem positions_line (n : Nat) : positions [n] = (List.range n).map ([·]) :=
  List.map_eq_flatMap.symm

theorem mem_positions_table {n w : Nat} {q : List Nat} :
    q ∈ positions [n, w] ↔ ∃ i j, q = [i, j] ∧ i < n ∧ j < w := by
  rw [mem_positions]
  constructor
  · rintro ⟨hlength, hlt⟩
    match q, hlength with
    | [i, j], _ => exact ⟨i, j, rfl, by simpa using hlt⟩
  · rintro ⟨i, j, rfl, hlt⟩
    exact ⟨rfl, by simpa using hlt⟩

theorem map_range_getD {xs : List α} {n : Nat} (h : xs.length = n) (x : α) :
    ((List.range n).map fun i => xs.getD i x) = xs := by
  subst h
  apply List.ext_getElem
  · simp
  intro i hi hi'
  simp [List.getD_eq_getElem?_getD, List.getElem?_eq_getElem hi']

theorem Points.map_range_row (p : Points α) : (List.range p.size).map p.row = p.rows :=
  map_range_getD rfl []

namespace Grid

theorem eq_of_toList {g h : Grid α} (hshape : g.shape = h.shape) (hlist : g.toList = h.toList) :
    g = h := by
  obtain ⟨shape, entries⟩ := g
  obtain ⟨shape', entries'⟩ := h
  cases hshape
  exact congrArg (Grid.mk shape) (Vector.toList_inj.1 hlist)

theorem toList_unsqueeze (g : Grid α) : g.unsqueeze.toList = g.toList := rfl

theorem tabulate_congr {shape : List Nat} {f g : List Nat → α}
    (h : ∀ q ∈ positions shape, f q = g q) : tabulate shape f = tabulate shape g := by
  apply eq_of_toList
  · rfl
  · rw [toList_tabulate, toList_tabulate]
    exact List.map_congr_left h

theorem tabulate_line (n : Nat) (f : List Nat → α) :
    tabulate [n] f = ofList ((List.range n).map fun i => f [i]) := by
  apply eq_of_toList
  · simp [tabulate, ofList]
  · rw [toList_tabulate, toList_ofList, positions_line, List.map_map]
    rfl

theorem map_ofList (f : α → β) (xs : List α) : (ofList xs).map f = ofList (xs.map f) := by
  apply eq_of_toList
  · simp [map, ofList]
  · simp

theorem joinShape?_row (n d k : Nat) :
    joinShape? [n, d] [1, k] = (joinLength? d k).map fun w => [n, w] := by
  have hrows : joinLength? n 1 = some n := if_pos (.inr rfl)
  cases h : joinLength? d k <;> simp [joinShape?, joinReversed?, hrows, h]

theorem joinShape?_under_row (n d k : Nat) :
    joinShape? [1, k] [n, d] = (joinLength? k d).map fun w => [n, w] := by
  have hrows : joinLength? 1 n = some n := by
    unfold joinLength?
    split
    · rename_i h
      exact congrArg some (by omega)
    · rfl
  cases h : joinLength? k d <;> simp [joinShape?, joinReversed?, hrows, h]

/-- The positions from which a table and a row under it take their entries. -/
theorem pinch_table {n i : Nat} (d k j : Nat) (hi : i < n) :
    pinch [n, d] [i, j] = [i, if d = 1 then 0 else j] ∧
      pinch [1, k] [i, j] = [0, if k = 1 then 0 else j] := by
  have hrow : (if n = 1 then 0 else i) = i := by
    split <;> omega
  simp [pinch, hrow]

section Entries

variable [Zero α]

theorem entry_row (xs : List α) (j : Nat) : (ofList xs).unsqueeze.entry [0, j] = xs.getD j 0 := by
  simp only [entry, unsqueeze, ofList, offset, volume_nil, Nat.zero_mul, Nat.zero_add, Nat.mul_one,
    Nat.add_zero, Array.getD_eq_getD_getElem?, List.getD_eq_getElem?_getD, Vector.toArray_cast,
    List.getElem?_toArray]

theorem entry_toGrid {p : Points α} {i j : Nat} (hi : i < p.size) (hj : j < p.dim) :
    p.toGrid.entry [i, j] = (p.row i).getD j 0 := by
  have hflat : p.rows.flatten[i * p.dim + j]? = (p.rows[i]?).bind (·[j]?) := by
    have hblocks := getElem?_flatMap (f := id) hj p.rows i p.length_row
    rwa [List.flatMap_id] at hblocks
  rw [Points.getElem?_rows hi, Option.bind_some] at hflat
  simp only [entry, Points.toGrid, offset, Array.getD_eq_getD_getElem?, volume_cons, volume_nil,
    Nat.mul_one, Nat.add_zero, List.getElem?_toArray, hflat, List.getD_eq_getElem?_getD]

/-- The rows of a table, each gathered into one value. -/
theorem fold?_table (n w : Nat) (cell : List Nat → α) (gather : List α → β) :
    (tabulate [n, w] cell).fold? 1 gather =
      some (ofList ((List.range n).map fun i => gather ((List.range w).map fun j => cell [i, j]))) := by
  change some (tabulate [n] fun q => gather ((List.range w).map fun j =>
    (tabulate [n, w] cell).entry (q.insertIdx 1 j))) = _
  rw [tabulate_line]
  refine congrArg (some ∘ ofList) (List.map_congr_left fun i hi => congrArg gather ?_)
  apply List.map_congr_left
  intro j hj
  exact entry_tabulate (mem_positions_table.2
    ⟨i, j, rfl, List.mem_range.1 hi, List.mem_range.1 hj⟩)

end Entries

end Grid

namespace Formula

/-- Where an axis of length one is stretched, all entries are the first. -/
theorem source_of_join {m n w j : Nat} (h : Grid.joinLength? m n = some w) (hj : j < w) :
    (if m = 1 then 0 else j) = source m w j ∧ (if n = 1 then 0 else j) = source n w j := by
  unfold Grid.joinLength? at h
  unfold source
  split at h
  · obtain rfl := Option.some.inj h
    constructor <;> split <;> split <;> omega
  · split at h
    · obtain rfl := Option.some.inj h
      constructor <;> split <;> split <;> omega
    · cases h

theorem stretched_of_join {m n w : Nat} (h : Grid.joinLength? m n = some w) :
    (m = w ∨ m = 1) ∧ (n = w ∨ n = 1) := by
  unfold Grid.joinLength? at h
  split at h
  · have := Option.some.inj h
    omega
  · split at h
    · have := Option.some.inj h
      omega
    · cases h

theorem lt_of_join {m n w j : Nat} (h : Grid.joinLength? m n = some w) (hj : j < w) :
    (if m = 1 then 0 else j) < m ∧ (if n = 1 then 0 else j) < n := by
  unfold Grid.joinLength? at h
  split at h
  · obtain rfl := Option.some.inj h
    constructor <;> split <;> omega
  · split at h
    · obtain rfl := Option.some.inj h
      constructor <;> split <;> omega
    · cases h

variable [Scalar α]

section Table

variable {p : Points α} {center : List α} {w : Nat}

/-- Points and a center are combined entry by entry, with axes of length one stretched. -/
theorem zipWith?_toGrid (g : α → α → β) :
    Grid.zipWith? g p.toGrid (Grid.ofList center).unsqueeze =
      (Grid.joinLength? p.dim center.length).map fun w => Grid.tabulate [p.size, w] fun q =>
        g ((stretchRow w (p.row (q.getD 0 0))).getD (q.getD 1 0) 0)
          ((stretchRow w center).getD (q.getD 1 0) 0) := by
  unfold Grid.zipWith?
  rw [show p.toGrid.shape = [p.size, p.dim] from rfl,
    show (Grid.ofList center).unsqueeze.shape = [1, center.length] from rfl, Grid.joinShape?_row]
  cases hjoin : Grid.joinLength? p.dim center.length with
  | none => rfl
  | some w =>
    refine congrArg some (Grid.tabulate_congr fun q hq => ?_)
    obtain ⟨i, j, rfl, hi, hj⟩ := mem_positions_table.1 hq
    obtain ⟨hpoint, hcenter⟩ := Grid.pinch_table p.dim center.length j hi
    obtain ⟨hsource, hsource'⟩ := source_of_join hjoin hj
    rw [hpoint, hcenter, Grid.entry_toGrid hi (lt_of_join hjoin hj).1, Grid.entry_row, hsource,
      hsource']
    simp only [List.getD_cons_zero, List.getD_cons_succ]
    rw [getD_stretchRow (Points.length_row_of_lt hi) hj, getD_stretchRow rfl hj]

/-- Weights are combined with a table in the same way. -/
theorem zipWith?_under_row (weights : List α) (n : Nat) (cell : List Nat → α) :
    Grid.zipWith? weigh (Grid.ofList weights).unsqueeze (Grid.tabulate [n, w] cell) =
      (Grid.joinLength? weights.length w).map fun v => Grid.tabulate [n, v] fun q =>
        weigh ((stretchRow v weights).getD (q.getD 1 0) 0)
          (cell [q.getD 0 0, source w v (q.getD 1 0)]) := by
  unfold Grid.zipWith?
  rw [show (Grid.tabulate [n, w] cell).shape = [n, w] from rfl,
    show (Grid.ofList weights).unsqueeze.shape = [1, weights.length] from rfl,
    Grid.joinShape?_under_row]
  cases hjoin : Grid.joinLength? weights.length w with
  | none => rfl
  | some v =>
    refine congrArg some (Grid.tabulate_congr fun q hq => ?_)
    obtain ⟨i, j, rfl, hi, hj⟩ := mem_positions_table.1 hq
    obtain ⟨hcell, hweight⟩ := Grid.pinch_table w weights.length j hi
    obtain ⟨hsource, hsource'⟩ := source_of_join hjoin hj
    have hplace := (lt_of_join hjoin hj).2
    rw [hcell, hweight, Grid.entry_row, hsource]
    rw [hsource'] at hplace ⊢
    rw [Grid.entry_tabulate (mem_positions_table.2 ⟨i, _, rfl, hi, hplace⟩)]
    simp only [List.getD_cons_zero, List.getD_cons_succ]
    rw [getD_stretchRow rfl hj]

/-- A point that is stretched twice, first to the length of the center and then to that of the
weights, is stretched to the last. -/
theorem getD_stretchRow_source {d k v j : Nat} {row : List α} (hrow : row.length = d)
    (hd : d = w ∨ d = 1) (hjoin : Grid.joinLength? k w = some v) (hj : j < v) :
    (stretchRow w row).getD (source w v j) 0 = (stretchRow v row).getD j 0 := by
  have hplace := (lt_of_join hjoin hj).2
  rw [(source_of_join hjoin hj).2] at hplace
  rw [getD_stretchRow hrow hplace, getD_stretchRow hrow hj]
  congr 1
  unfold source
  obtain rfl | rfl := hd
  · rw [if_pos rfl]
  · split
    · rename_i hone
      rw [hone]
    · split
      · omega
      · rfl

end Table

theorem length_parts (f : Formula α) (width : Nat) (x c : List α) :
    (f.parts width x c).length = width := by
  cases f <;> simp [parts, length_stretchRow]

theorem getD_zipWith {g : α → α → α} {w j : Nat} {xs ys : List α} (hxs : xs.length = w)
    (hys : ys.length = w) (hj : j < w) :
    (List.zipWith g xs ys).getD j 0 = g (xs.getD j 0) (ys.getD j 0) := by
  have hi : j < xs.length := hxs ▸ hj
  have hi' : j < ys.length := hys ▸ hj
  simp only [List.getD_eq_getElem?_getD, List.getElem?_zipWith, List.getElem?_eq_getElem hi,
    List.getElem?_eq_getElem hi', Option.getD_some]

/-- The parts of all points, weighted if the formula has weights. -/
def table? (f : Formula α) (points center : Grid α) : Option (Grid α) :=
  (Grid.zipWith? f.part points center.unsqueeze).bind fun parts =>
    match f with
    | weighted weights _ => Grid.zipWith? weigh (Grid.ofList weights).unsqueeze parts
    | _ => some parts

theorem compute_eq (f : Formula α) (points center : Grid α) : f.compute points center =
    match f.table? points center with
    | none => .error .shapeMismatch
    | some parts =>
      match parts.fold? 1 f.gather with
      | some gathered => .ok (gathered.map f.finish)
      | none => .error .missingAxis := by
  unfold compute table?
  cases Grid.zipWith? f.part points center.unsqueeze with
  | none => rfl
  | some parts =>
    cases f with
    | weighted weights squared =>
      simp only [Option.bind_some]
      cases Grid.zipWith? weigh (Grid.ofList weights).unsqueeze parts with
      | none => rfl
      | some weighed => rfl
    | _ => rfl

theorem table?_toGrid (f : Formula α) (p : Points α) (center : List α) :
    f.table? p.toGrid (.ofList center) = (f.width? p.dim center.length).map fun w =>
      Grid.tabulate [p.size, w] fun q =>
        (f.parts w (p.row (q.getD 0 0)) center).getD (q.getD 1 0) 0 := by
  unfold table?
  rw [zipWith?_toGrid]
  cases hjoin : Grid.joinLength? p.dim center.length with
  | none => cases f <;> simp [width?, hjoin]
  | some w =>
    have hplain : (Grid.tabulate [p.size, w] fun q =>
        f.part ((stretchRow w (p.row (q.getD 0 0))).getD (q.getD 1 0) 0)
          ((stretchRow w center).getD (q.getD 1 0) 0)) = Grid.tabulate [p.size, w] fun q =>
        (List.zipWith f.part (stretchRow w (p.row (q.getD 0 0)))
          (stretchRow w center)).getD (q.getD 1 0) 0 := by
      apply Grid.tabulate_congr
      intro q hq
      obtain ⟨i, j, rfl, -, hj⟩ := mem_positions_table.1 hq
      exact (getD_zipWith (length_stretchRow w _) (length_stretchRow w _) hj).symm
    cases f with
    | weighted weights squared =>
      simp only [Option.map_some, Option.bind_some, width?, hjoin]
      rw [zipWith?_under_row]
      cases hweights : Grid.joinLength? weights.length w with
      | none => rfl
      | some v =>
        refine congrArg some (Grid.tabulate_congr fun q hq => ?_)
        obtain ⟨i, j, rfl, hi, hj⟩ := mem_positions_table.1 hq
        obtain ⟨hpoint, hcenter⟩ := stretched_of_join hjoin
        simp only [List.getD_cons_zero, List.getD_cons_succ, parts]
        rw [getD_stretchRow_source (Points.length_row_of_lt hi) hpoint hweights hj,
          getD_stretchRow_source rfl hcenter hweights hj,
          getD_zipWith (length_stretchRow v _) (by simp [length_stretchRow]) hj,
          getD_zipWith (length_stretchRow v _) (length_stretchRow v _) hj]
    | _ =>
      simp only [Option.map_some, Option.bind_some, width?, hjoin]
      exact congrArg some hplain

/-- A formula gives an array the distances of its rows. -/
theorem compute_toGrid (f : Formula α) (p : Points α) (center : List α) :
    f.compute p.toGrid (.ofList center) = (f.distances p center).map Grid.ofList := by
  rw [compute_eq, table?_toGrid, distances]
  cases f.width? p.dim center.length with
  | none => rfl
  | some w =>
    simp only [Option.map_some, Grid.fold?_table, Grid.map_ofList, List.map_map, Except.map]
    refine congrArg (Except.ok ∘ Grid.ofList) ?_
    rw [← p.map_range_row, List.map_map]
    apply List.map_congr_left
    intro i hi
    simp only [Function.comp_apply, between, List.getD_cons_zero, List.getD_cons_succ]
    rw [map_range_getD (length_parts f w _ _)]

end Formula

/-- One point. -/
def Points.lone (x : List α) : Points α := ⟨x.length, [x], by simp⟩

theorem Points.toGrid_lone (x : List α) : (lone x).toGrid = (Grid.ofList x).unsqueeze := by
  apply Grid.eq_of_toList
  · rfl
  · rw [Grid.toList_unsqueeze, Grid.toList_ofList]
    simp [lone, toGrid, Grid.toList, Vector.toList]

theorem Grid.slice?_ofList [Zero α] (x : α) (xs : List α) :
    (ofList (x :: xs)).slice? 0 = some (scalar x) := by
  have hentry : (ofList (x :: xs)).entry [0] = x := by
    simp [entry, ofList, offset]
  change (if 0 < xs.length + 1 then
    some (tabulate [] fun p => (ofList (x :: xs)).entry (0 :: p)) else none) = _
  rw [if_pos (Nat.succ_pos _)]
  refine congrArg some (eq_of_toList rfl ?_)
  rw [toList_tabulate]
  simp [positions, hentry, scalar, toList, Vector.toList]

namespace Metric

variable [Scalar α] (f : Formula α) (center : List α)

/-- Points in an array have the distances of the rows. -/
theorem call_toGrid (p : Points α) :
    (formula f).call p.toGrid (.ofList center) = (f.distances p center).map Grid.ofList := by
  have hrank : p.toGrid.rank ≠ 1 := Nat.succ_ne_self 1
  unfold call
  rw [if_neg hrank]
  exact f.compute_toGrid p center

/-- A point alone has one distance. -/
theorem call_ofList (x : List α) : (formula f).call (.ofList x) (.ofList center) =
    match f.width? x.length center.length with
    | some w => .ok (.scalar (f.between w x center))
    | none => .error .shapeMismatch := by
  have hrank : (Grid.ofList x).rank = 1 := rfl
  have hcompute : compute (formula f) (Grid.ofList x).unsqueeze (.ofList center) =
      (f.distances (.lone x) center).map Grid.ofList := by
    rw [← Points.toGrid_lone]
    exact f.compute_toGrid _ center
  unfold call
  rw [if_pos hrank, hcompute, Formula.distances, show (Points.lone x).dim = x.length from rfl]
  cases f.width? x.length center.length with
  | none => rfl
  | some w =>
    have hslice := Grid.slice?_ofList (f.between w x center) []
    simp [Points.lone, Except.map, bind, Except.bind, hslice, pure, Except.pure]

end Metric

end Centroids

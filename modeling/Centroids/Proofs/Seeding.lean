import Centroids.Seeding

/-! How many centers a seeding returns, and that each is a point of the data. -/
namespace Centroids

namespace Spread

variable {α ω : Type} [Scalar α] [Widening α ω] {metric : Metric α} {points : Points α}
  {s t : Spread ω} {row count rounds : Nat}

theorem lt_of_squares_eq_ok {ds : List ω} (h : squares metric points row = .ok ds) :
    row < points.size := by
  unfold squares at h
  split at h
  · rename_i center hrow
    exact (List.getElem?_eq_some_iff.1 hrow).1
  · cases h

theorem start_eq_ok {g g' : Generator} (h : start metric points g = .ok s g') :
    ∃ row < points.size, s.chosen = [row] := by
  unfold start at h
  rcases step_bind_eq_ok.1 h with ⟨row, u, -, h⟩
  rcases step_bind_eq_ok.1 h with ⟨ds, v, hlift, h⟩
  rcases step_pure_eq_ok.1 h with ⟨rfl, rfl⟩
  exact ⟨row, lt_of_squares_eq_ok (step_lift_eq_ok.1 hlift).1, rfl⟩

variable [Sampled ω]

theorem add_eq_ok (h : add metric points s row = .ok t) :
    t.chosen = s.chosen ++ [row] ∧ row < points.size := by
  rcases map_eq_ok.1 h with ⟨ds, hds, rfl⟩
  exact ⟨rfl, lt_of_squares_eq_ok hds⟩

/-- Each round chooses one row more. -/
theorem grow_eq_ok {g g' : Generator} (h : grow metric points count rounds s g = .ok t g')
    (hs : ∀ row ∈ s.chosen, row < points.size) :
    t.chosen.length = s.chosen.length + rounds ∧ ∀ row ∈ t.chosen, row < points.size := by
  induction rounds generalizing s g with
  | zero =>
    rcases step_pure_eq_ok.1 h with ⟨rfl, -⟩
    exact ⟨rfl, hs⟩
  | succ rounds ih =>
    unfold grow at h
    rcases step_bind_eq_ok.1 h with ⟨candidates, u, -, h⟩
    rcases step_bind_eq_ok.1 h with ⟨continuations, v, hmap, h⟩
    cases hbest : best continuations with
    | none =>
      rw [hbest] at h
      exact nomatch h
    | some next =>
      rw [hbest] at h
      rcases step_of_mem_mapM hmap (best_mem hbest) with ⟨row, -, w, w', hlift⟩
      have hadd := add_eq_ok (step_lift_eq_ok.1 hlift).1
      have hnext : ∀ r ∈ next.chosen, r < points.size := by
        rw [hadd.1]
        intro r hr
        rcases List.mem_append.1 hr with hr | hr
        · exact hs r hr
        · rw [List.mem_singleton.1 hr]
          exact hadd.2
      have hrest := ih h hnext
      refine ⟨?_, hrest.2⟩
      rw [hrest.1, hadd.1, List.length_append, List.length_singleton]
      omega

end Spread

namespace Seeding

variable {α ω : Type} [Scalar α] [Sampled ω] [Widening α ω]

theorem length_takeUpTo {β : Type} {n : Int} (hpos : 0 < n) {xs : List β} (hle : n ≤ xs.length) :
    (takeUpTo n xs).length = n.toNat := by
  unfold takeUpTo
  rw [if_neg (by omega), List.length_take]
  omega

/-- Centers have as many coordinates as the points. -/
theorem length_of_centers {seeding : Seeding} {metric : Metric α} {points : Points α}
    {clusters : Int} {centers : List (List α)} {g g' : Generator}
    (h : seeding.centers metric points clusters g = .ok centers g') :
    ∀ center ∈ centers, center.length = points.dim := by
  unfold Seeding.centers at h
  split at h
  · exact nomatch h
  · cases seeding with
    | spread count =>
      obtain ⟨first, u, -, h⟩ := step_bind_eq_ok.1 h
      obtain ⟨all, v, -, h⟩ := step_bind_eq_ok.1 h
      obtain ⟨rfl, -⟩ := step_pure_eq_ok.1 h
      exact (points.select all.chosen).length_row
    | random =>
      obtain ⟨rows, u, -, h⟩ := step_bind_eq_ok.1 h
      obtain ⟨rfl, -⟩ := step_pure_eq_ok.1 h
      exact (points.select (takeUpTo clusters rows)).length_row

/-- There are as many centers as clusters are asked for. -/
theorem length_centers {seeding : Seeding} {metric : Metric α} {points : Points α} {clusters : Int}
    {centers : List (List α)} {g g' : Generator} (hpos : 0 < clusters)
    (h : seeding.centers metric points clusters g = .ok centers g') :
    centers.length = clusters.toNat := by
  unfold Seeding.centers at h
  by_cases hle : clusters > points.size
  · rw [if_pos hle] at h
    exact nomatch h
  rw [if_neg hle] at h
  cases seeding with
  | spread count =>
    rcases step_bind_eq_ok.1 h with ⟨first, u, hstart, h⟩
    rcases step_bind_eq_ok.1 h with ⟨all, v, hgrow, h⟩
    rcases step_pure_eq_ok.1 h with ⟨rfl, -⟩
    rcases Spread.start_eq_ok hstart with ⟨row, hrow, hfirst⟩
    have hall := Spread.grow_eq_ok hgrow (by simpa [hfirst] using hrow)
    have hsize := Points.size_select hall.2
    rw [hall.1, hfirst, List.length_singleton] at hsize
    unfold Points.size at hsize
    omega
  | random =>
    rcases step_bind_eq_ok.1 h with ⟨rows, u, hshuffle, h⟩
    rcases step_pure_eq_ok.1 h with ⟨rfl, -⟩
    have hperm := Random.shuffle_perm hshuffle
    have hlength : rows.length = points.size := by simpa using hperm.length_eq
    have hsize : (points.select (takeUpTo clusters rows)).size = (takeUpTo clusters rows).length := by
      apply Points.size_select
      intro row hrow
      have hmem := hperm.mem_iff.1 (List.mem_of_mem_take hrow)
      exact List.mem_range.1 hmem
    rw [length_takeUpTo hpos (by omega)] at hsize
    exact hsize

end Seeding

end Centroids

import Mathlib
import Centroids.Reseeding

/-! Calculations on images.  When what a calculation works on is replaced by its image under a map, and
each step of it returns the image of what it returned before, so does the whole; a choice by
comparisons is the same when the map keeps the comparisons. -/
namespace Centroids

section Calculation

variable {β β' γ γ' : Type} {u : β → β'} {v : γ → γ'}

theorem bind_image {x : Except Fault β} {x' : Except Fault β'} {f : β → Except Fault γ}
    {f' : β' → Except Fault γ'} (hx : x' = u <$> x)
    (hf : ∀ b, x = .ok b → f' (u b) = v <$> f b) : x' >>= f' = v <$> (x >>= f) := by
  subst hx
  cases x with
  | error e => rfl
  | ok b => exact hf b rfl

/-- The first step may be the same. -/
theorem bind_image_right {x : Except Fault β} {f : β → Except Fault γ} {f' : β → Except Fault γ'}
    (hf : ∀ b, x = .ok b → f' b = v <$> f b) : x >>= f' = v <$> (x >>= f) :=
  bind_image (u := id) (id_map x).symm hf

theorem mapM_image {f : β → Except Fault γ} {f' : β' → Except Fault γ'} {xs : List β}
    (h : ∀ x ∈ xs, f' (u x) = v <$> f x) : (xs.map u).mapM f' = List.map v <$> xs.mapM f := by
  induction xs with
  | nil => rfl
  | cons x xs ih =>
    rw [List.map_cons, List.mapM_cons, List.mapM_cons, h x (List.mem_cons_self ..),
      ih fun y hy => h y (List.mem_cons_of_mem _ hy)]
    cases f x with
    | error e => rfl
    | ok y =>
      cases xs.mapM f with
      | error e => rfl
      | ok ys => rfl

end Calculation

section Step

variable {σ β β' γ γ' : Type} {u : β → β'} {v : γ → γ'} {s : σ}

theorem step_map_of_error {x : EStateM Fault σ β} {t : σ} {e : Fault} (h : x s = .error e t) :
    (u <$> x) s = .error e t := by
  change EStateM.map u x s = .error e t
  rw [EStateM.map, h]

theorem step_map_eq (u : β → β') (x : EStateM Fault σ β) (s : σ) : (u <$> x) s =
    match x s with
    | .ok b t => .ok (u b) t
    | .error e t => .error e t := by
  cases hresult : x s with
  | ok b t => exact step_map_of_ok hresult
  | error e t => exact step_map_of_error hresult

theorem step_bind_image {x : EStateM Fault σ β} {x' : EStateM Fault σ β'}
    {f : β → EStateM Fault σ γ} {f' : β' → EStateM Fault σ γ'} (hx : x' s = (u <$> x) s)
    (hf : ∀ b t, x s = .ok b t → f' (u b) t = (v <$> f b) t) :
    (x' >>= f') s = (v <$> (x >>= f)) s := by
  cases hresult : x s with
  | error e t =>
    rw [step_map_of_error hresult] at hx
    rw [step_bind_of_error hx, step_map_of_error (step_bind_of_error hresult)]
  | ok b t =>
    rw [step_map_of_ok hresult] at hx
    rw [step_bind_of_ok hx, hf b t hresult, map_bind, step_bind_of_ok hresult]

theorem step_bind_image_right {x : EStateM Fault σ β} {f : β → EStateM Fault σ γ}
    {f' : β → EStateM Fault σ γ'} (hf : ∀ b t, x s = .ok b t → f' b t = (v <$> f b) t) :
    (x >>= f') s = (v <$> (x >>= f)) s :=
  step_bind_image (u := id) (congrFun (id_map x).symm s) hf

theorem step_lift_image {x : Except Fault β} {x' : Except Fault β'} (h : x' = u <$> x) (s : σ) :
    (liftM x' : EStateM Fault σ β') s = (u <$> (liftM x : EStateM Fault σ β)) s := by
  subst h
  cases x <;> rfl

theorem step_mapM_image {f : β → EStateM Fault σ γ} {f' : β' → EStateM Fault σ γ'} {xs : List β}
    (h : ∀ x ∈ xs, ∀ s, f' (u x) s = (v <$> f x) s) (s : σ) :
    (xs.map u).mapM f' s = (List.map v <$> xs.mapM f) s := by
  induction xs generalizing s with
  | nil => rfl
  | cons x xs ih =>
    rw [List.map_cons, List.mapM_cons, List.mapM_cons]
    refine step_bind_image (h x (List.mem_cons_self ..) s) ?_
    intro y t _
    refine step_bind_image (ih (fun z hz => h z (List.mem_cons_of_mem _ hz)) t) ?_
    intro ys w _
    rfl

theorem step_mapM_image_right {f : β → EStateM Fault σ γ} {f' : β → EStateM Fault σ γ'} {xs : List β}
    (h : ∀ x ∈ xs, ∀ s, f' x s = (v <$> f x) s) (s : σ) :
    xs.mapM f' s = (List.map v <$> xs.mapM f) s := by
  have himage := step_mapM_image (u := id) h s
  rwa [List.map_id] at himage

end Step

section Choice

variable {β γ : Type} {u : β → γ}

theorem leader_map {beats : β → β → Bool} {beats' : γ → γ → Bool}
    (h : ∀ x y, beats' (u x) (u y) = beats x y) (best : Nat × β) (i : Nat) (xs : List β) :
    leader beats' (best.1, u best.2) i (xs.map u) =
      ((leader beats best i xs).1, u (leader beats best i xs).2) := by
  induction xs generalizing best i with
  | nil => rfl
  | cons x xs ih =>
    rw [List.map_cons, leader, leader, h, ← ih]
    cases beats x best.2 <;> rfl

theorem transpose_map (width : Nat) (rows : List (List β)) :
    transpose width (rows.map (List.map u)) = (transpose width rows).map (List.map u) := by
  induction rows with
  | nil => simp [transpose]
  | cons row rows ih =>
    change List.zipWith _ (row.map u) (transpose width (rows.map (List.map u))) =
      (List.zipWith _ row (transpose width rows)).map (List.map u)
    rw [ih, List.zipWith_map, List.map_zipWith]
    rfl

section Foremost

variable {κ κ' δ δ' : Type} {admitted : κ → Bool} {admitted' : κ' → Bool} {less : κ → κ → Bool}
  {less' : κ' → κ' → Bool} {u : κ → κ'} {v : δ → δ'}
  (hadmitted : ∀ x, admitted' (u x) = admitted x) (hless : ∀ x y, less' (u x) (u y) = less x y)
include hadmitted hless

theorem Donor.prefer_map (best : Option (κ × δ)) (e : κ × δ) :
    prefer admitted' less' (best.map (Prod.map u v)) (Prod.map u v e) =
      (prefer admitted less best e).map (Prod.map u v) := by
  cases best with
  | none =>
    simp only [prefer, Option.map_none, Prod.map_fst, hadmitted]
    split <;> rfl
  | some b =>
    simp only [prefer, Option.map_some, Prod.map_fst, hless]
    split <;> rfl

/-- The image is foremost of what was foremost, where the map keeps what is admitted and what is less. -/
theorem Donor.foremost_map (entries : List (κ × δ)) :
    foremost admitted' less' (entries.map (Prod.map u v)) =
      (foremost admitted less entries).map (Prod.map u v) := by
  have hfold : ∀ best : Option (κ × δ),
      (entries.map (Prod.map u v)).foldl (prefer admitted' less') (best.map (Prod.map u v)) =
        (entries.foldl (prefer admitted less) best).map (Prod.map u v) := by
    induction entries with
    | nil => exact fun best => rfl
    | cons e entries ih =>
      intro best
      rw [List.map_cons, List.foldl_cons, List.foldl_cons, prefer_map hadmitted hless, ih]
  exact hfold none

end Foremost

end Choice

end Centroids

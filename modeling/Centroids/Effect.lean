import Centroids.Fault

/-!
Steps that may fail and that keep the state they reached when they do, and what a sequence of steps
that succeeds says about each of them.
-/
namespace Centroids

/-- A calculation that may fail, inside a step that also changes a state. -/
instance {σ : Type} : MonadLift (Except Fault) (EStateM Fault σ) := ⟨MonadExcept.ofExcept⟩

theorem bind_eq_ok {α β : Type} {x : Except Fault α} {f : α → Except Fault β} {b : β} :
    x >>= f = .ok b ↔ ∃ a, x = .ok a ∧ f a = .ok b := by
  cases x with
  | error e => simp [bind, Except.bind]
  | ok a => simp [bind, Except.bind]

theorem map_eq_ok {α β : Type} {x : Except Fault α} {f : α → β} {b : β} :
    x.map f = .ok b ↔ ∃ a, x = .ok a ∧ f a = b := by
  cases x <;> simp [Except.map]

theorem step_bind_eq_ok {σ α β : Type} {x : EStateM Fault σ α} {f : α → EStateM Fault σ β}
    {s t : σ} {b : β} :
    (x >>= f) s = .ok b t ↔ ∃ a u, x s = .ok a u ∧ f a u = .ok b t := by
  change EStateM.bind x f s = .ok b t ↔ _
  rw [EStateM.bind]
  cases x s with
  | ok a u =>
    constructor
    · exact fun h => ⟨a, u, rfl, h⟩
    · rintro ⟨a, u, h, hf⟩
      cases h
      exact hf
  | error e u =>
    constructor
    · exact fun h => nomatch h
    · rintro ⟨a, u, h, -⟩
      exact nomatch h

theorem step_bind_of_ok {σ α β : Type} {x : EStateM Fault σ α} {f : α → EStateM Fault σ β}
    {s t : σ} {a : α} (h : x s = .ok a t) : (x >>= f) s = f a t := by
  change EStateM.bind x f s = f a t
  rw [EStateM.bind, h]

theorem step_bind_of_error {σ α β : Type} {x : EStateM Fault σ α} {f : α → EStateM Fault σ β}
    {s t : σ} {e : Fault} (h : x s = .error e t) : (x >>= f) s = .error e t := by
  change EStateM.bind x f s = .error e t
  rw [EStateM.bind, h]

theorem step_map_of_ok {σ α β : Type} {x : EStateM Fault σ α} {f : α → β} {s t : σ} {a : α}
    (h : x s = .ok a t) : (f <$> x) s = .ok (f a) t := by
  change EStateM.map f x s = .ok (f a) t
  rw [EStateM.map, h]

theorem step_pure_eq_ok {σ α : Type} {a b : α} {s t : σ} :
    (pure a : EStateM Fault σ α) s = .ok b t ↔ a = b ∧ s = t := by
  change EStateM.Result.ok a s = .ok b t ↔ _
  simp

theorem step_lift_eq_ok {σ α : Type} {x : Except Fault α} {b : α} {s t : σ} :
    (liftM x : EStateM Fault σ α) s = .ok b t ↔ x = .ok b ∧ s = t := by
  cases x with
  | error e =>
    constructor
    · exact fun h => nomatch h
    · exact fun h => nomatch h.1
  | ok a =>
    change EStateM.Result.ok a s = .ok b t ↔ _
    simp

/-- The outcomes of a list of calculations are those of its elements, in order. -/
theorem mapM_eq_ok {α β : Type} {f : α → Except Fault β} {xs : List α} {ys : List β} :
    xs.mapM f = .ok ys ↔ xs.map f = ys.map .ok := by
  induction xs generalizing ys with
  | nil =>
    cases ys <;> simp [pure, Except.pure]
  | cons x xs ih =>
    rw [List.mapM_cons, bind_eq_ok]
    simp only [bind_eq_ok, ih, pure, Except.pure, Except.ok.injEq]
    cases ys with
    | nil => simp
    | cons y ys =>
      simp only [List.map_cons, List.cons.injEq]
      constructor
      · rintro ⟨a, ha, as, has, rfl, rfl⟩
        exact ⟨ha, has⟩
      · rintro ⟨ha, has⟩
        exact ⟨y, ha, ys, has, rfl, rfl⟩

theorem exists_mapM_eq_ok {α β : Type} {f : α → Except Fault β} {xs : List α}
    (h : ∀ x ∈ xs, ∃ y, f x = .ok y) : ∃ ys, xs.mapM f = .ok ys := by
  induction xs with
  | nil => exact ⟨[], rfl⟩
  | cons x xs ih =>
    cases h x (by simp) with
    | intro y hy =>
      cases ih fun z hz => h z (by simp [hz]) with
      | intro ys hys => exact ⟨y :: ys, by rw [List.mapM_cons, hy, hys]; rfl⟩

theorem exists_step_mapM_eq_ok {σ α β : Type} {f : α → EStateM Fault σ β} {xs : List α}
    (h : ∀ x ∈ xs, ∀ s, ∃ y t, f x s = .ok y t) (s : σ) : ∃ ys t, xs.mapM f s = .ok ys t := by
  induction xs generalizing s with
  | nil => exact ⟨[], s, rfl⟩
  | cons x xs ih =>
    obtain ⟨y, t, hy⟩ := h x (by simp) s
    obtain ⟨ys, u, hys⟩ := ih (fun z hz => h z (by simp [hz])) t
    refine ⟨y :: ys, u, ?_⟩
    rw [List.mapM_cons, step_bind_of_ok hy, step_bind_of_ok hys]
    rfl

theorem step_mapM_cons_eq_ok {σ α β : Type} {f : α → EStateM Fault σ β} {x : α} {xs : List α}
    {zs : List β} {s t : σ} :
    (x :: xs).mapM f s = .ok zs t ↔
      ∃ y u ys, f x s = .ok y u ∧ xs.mapM f u = .ok ys t ∧ zs = y :: ys := by
  rw [List.mapM_cons]
  simp only [step_bind_eq_ok, step_pure_eq_ok]
  constructor
  · rintro ⟨y, u, hy, ys, v, hys, rfl, rfl⟩
    exact ⟨y, u, ys, hy, hys, rfl⟩
  · rintro ⟨y, u, ys, hy, hys, rfl⟩
    exact ⟨y, u, hy, ys, t, hys, rfl, rfl⟩

theorem length_of_step_mapM_eq_ok {σ α β : Type} {f : α → EStateM Fault σ β} {xs : List α}
    {ys : List β} {s t : σ} (h : xs.mapM f s = .ok ys t) : ys.length = xs.length := by
  induction xs generalizing ys s with
  | nil =>
    cases h
    rfl
  | cons x xs ih =>
    rcases step_mapM_cons_eq_ok.1 h with ⟨y, u, zs, -, hzs, rfl⟩
    rw [List.length_cons, List.length_cons, ih hzs]

/-- Each result of a list of steps is that of one of them. -/
theorem step_of_mem_mapM {σ α β : Type} {f : α → EStateM Fault σ β} {xs : List α} {ys : List β}
    {s t : σ} (h : xs.mapM f s = .ok ys t) {y : β} (hy : y ∈ ys) :
    ∃ x ∈ xs, ∃ u v, f x u = .ok y v := by
  induction xs generalizing ys s with
  | nil =>
    cases h
    cases hy
  | cons x xs ih =>
    rcases step_mapM_cons_eq_ok.1 h with ⟨z, u, zs, hz, hzs, rfl⟩
    rcases List.mem_cons.1 hy with rfl | hy
    · exact ⟨x, by simp, s, u, hz⟩
    · rcases ih hzs hy with ⟨w, hw, hf⟩
      exact ⟨w, by simp [hw], hf⟩

theorem mapM_eq_some {α β : Type} {f : α → Option β} {xs : List α} {ys : List β} :
    xs.mapM f = some ys ↔ xs.map f = ys.map some := by
  induction xs generalizing ys with
  | nil => cases ys <;> simp
  | cons x xs ih =>
    cases ys with
    | nil => simp [Option.bind_eq_some_iff]
    | cons y ys => simp [Option.bind_eq_some_iff, ih, and_left_comm]

theorem length_of_mapM_eq_ok {α β : Type} {f : α → Except Fault β} {xs : List α} {ys : List β}
    (h : xs.mapM f = .ok ys) : ys.length = xs.length := by
  simpa using (congrArg List.length (mapM_eq_ok.1 h)).symm

end Centroids

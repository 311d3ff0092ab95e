import Centroids.Effect

/-! Steps that agree.  Two steps over different states follow each other when they always give the same
value or the same error and keep their states related.  What is built from such steps in the same
way follows as well. -/
namespace Centroids

/-- The state in which a step ends, whether it fails or not. -/
def finalState {σ β : Type} : EStateM.Result Fault σ β → σ
  | .ok _ s => s
  | .error _ s => s

/-- The value or the error with which a step ends. -/
def finalValue {σ β : Type} : EStateM.Result Fault σ β → Except Fault β
  | .ok x _ => .ok x
  | .error e _ => .error e

theorem finalState_map {σ β γ : Type} (x : EStateM Fault σ β) (f : β → γ) (s : σ) :
    finalState ((f <$> x) s) = finalState (x s) := by
  cases hx : x s with
  | ok a t =>
    rw [step_map_of_ok hx]
    rfl
  | error e t =>
    rw [map_eq_pure_bind, step_bind_of_error hx]
    rfl

/-- The same value or the same error, left in related states. -/
inductive Agree {σ τ β : Type} (related : σ → τ → Prop) :
    EStateM.Result Fault σ β → EStateM.Result Fault τ β → Prop
  | ok {x : β} {s : σ} {t : τ} : related s t → Agree related (.ok x s) (.ok x t)
  | error {e : Fault} {s : σ} {t : τ} : related s t → Agree related (.error e s) (.error e t)

def Follows {σ τ β : Type} (related : σ → τ → Prop) (x : EStateM Fault σ β) (y : EStateM Fault τ β) :
    Prop :=
  ∀ s t, related s t → Agree related (x s) (y t)

namespace Agree

variable {σ τ β : Type} {related : σ → τ → Prop}

theorem of_ok {r : EStateM.Result Fault σ β} {x : β} {t : τ} (h : Agree related r (.ok x t)) :
    ∃ s, r = .ok x s ∧ related s t := by
  cases h with
  | ok hst => exact ⟨_, rfl, hst⟩

theorem of_error {r : EStateM.Result Fault σ β} {e : Fault} {t : τ}
    (h : Agree related r (.error e t)) : ∃ s, r = .error e s ∧ related s t := by
  cases h with
  | error hst => exact ⟨_, rfl, hst⟩

theorem finalValue_eq {r : EStateM.Result Fault σ β} {r' : EStateM.Result Fault τ β}
    (h : Agree related r r') : finalValue r = finalValue r' := by
  cases h with
  | ok _ => rfl
  | error _ => rfl

theorem finalState_related {r : EStateM.Result Fault σ β} {r' : EStateM.Result Fault τ β}
    (h : Agree related r r') : related (finalState r) (finalState r') := by
  cases h with
  | ok hst => exact hst
  | error hst => exact hst

end Agree

namespace Follows

variable {σ τ β γ : Type} {related : σ → τ → Prop}

theorem pure (x : β) : Follows related (pure x) (pure x) := fun _ _ hst => .ok hst

theorem raise (e : Fault) : Follows related (throw e : EStateM Fault σ β) (throw e) :=
  fun _ _ hst => .error hst

theorem lift (x : Except Fault β) :
    Follows related (liftM x : EStateM Fault σ β) (liftM x : EStateM Fault τ β) := by
  cases x with
  | ok a => exact pure a
  | error e => exact raise e

theorem bind {x : EStateM Fault σ β} {y : EStateM Fault τ β} {f : β → EStateM Fault σ γ}
    {g : β → EStateM Fault τ γ} (hxy : Follows related x y)
    (hfg : ∀ a, Follows related (f a) (g a)) : Follows related (x >>= f) (y >>= g) := by
  intro s t hst
  cases hy : y t with
  | ok a t' =>
    have hagree := hxy s t hst
    rw [hy] at hagree
    obtain ⟨s', hx, hst'⟩ := hagree.of_ok
    rw [step_bind_of_ok hx, step_bind_of_ok hy]
    exact hfg a s' t' hst'
  | error e t' =>
    have hagree := hxy s t hst
    rw [hy] at hagree
    obtain ⟨s', hx, hst'⟩ := hagree.of_error
    rw [step_bind_of_error hx, step_bind_of_error hy]
    exact .error hst'

theorem map {x : EStateM Fault σ β} {y : EStateM Fault τ β} (hxy : Follows related x y)
    (f : β → γ) : Follows related (f <$> x) (f <$> y) := by
  rw [map_eq_pure_bind, map_eq_pure_bind]
  exact hxy.bind fun a => .pure (f a)

theorem forM {ι : Type} {f : ι → EStateM Fault σ Unit} {g : ι → EStateM Fault τ Unit}
    (h : ∀ i, Follows related (f i) (g i)) (is : List ι) :
    Follows related (is.forM f) (is.forM g) := by
  induction is with
  | nil => exact .pure ()
  | cons i is ih => exact (h i).bind fun _ => ih

end Follows

end Centroids

/-
Renaming the keys of a state: a map is carried to one that holds at the renamed keys what it held,
renamed; a computation that treats all keys alike does to renamed states the renamed thing, and so
does every run of steps that treat them alike.
-/
import Presale.Lib.Runs

namespace Renaming

/-! ## Maps -/

section
variable {ι α : Type}

/-- What `f` holds at a key stands renamed at the renamed key. -/
def carry (σ : Equiv.Perm ι) (r : α → α) (f : ι → α) : ι → α := fun i => r (f (σ.symm i))

variable (σ : Equiv.Perm ι) (r : α → α) (f : ι → α) (i : ι) (x : α)

@[simp] theorem carry_apply : carry σ r f (σ i) = r (f i) := by rw [carry, σ.symm_apply_apply]

theorem carry_update [DecidableEq ι] :
    carry σ r (Function.update f i x) = Function.update (carry σ r f) (σ i) (r x) := by
  funext j
  by_cases hj : j = σ i
  · rw [hj, carry_apply, Function.update_self, Function.update_self]
  · have hne : σ.symm j ≠ i := fun he => hj (σ.symm_apply_eq.1 he)
    rw [carry, Function.update_of_ne hne, Function.update_of_ne hj]
    rfl

/-- Renaming back. -/
theorem carry_symm {r' : α → α} (hr : ∀ x, r' (r x) = x) : carry σ.symm r' (carry σ r f) = f := by
  funext j
  rw [carry, carry, Equiv.symm_symm, σ.symm_apply_apply, hr]

theorem carry_id_symm : carry σ.symm id (carry σ id f) = f := carry_symm σ id f fun _ => rfl

end

/-! ## Runs -/

section
open Runs

variable {S T α β : Type} {step : S → α → S → Prop} {step' : T → β → T → Prop}

/-- A step seen through `f` and `g`. -/
def along (f : S → T) (g : α → β) (x : Transition S α) : Transition T β := ⟨f x.before, g x.label, f x.after⟩

/-- Steps carried to steps carry runs to runs. -/
theorem run_along {f : S → T} {g : α → β} (hs : ∀ s a t, step s a t → step' (f s) (g a) (f t)) {s₀ s : S}
    {tr : List (Transition S α)} (h : Run step s₀ tr s) : Run step' (f s₀) (tr.map (along f g)) (f s) := by
  induction h with
  | nil => exact .nil
  | snoc _ hstep ih =>
    rw [List.map_append]
    exact ih.snoc (hs _ _ _ hstep)

end

end Renaming

/-
Runs of a labelled transition system: the states passed through, with the label of each step;
induction over runs whose steps all meet a condition, of the step alone or of the steps before it
as well, splitting a run at one of its steps, and totals of a quantity over the steps of a run, of
one quantity or of a family of them.
-/
import Mathlib

namespace Runs

variable {σ α : Type}

/-- One step of a run: the state before, the label, the state after. -/
structure Transition (σ α : Type) where
  before : σ
  label : α
  after : σ

/-- The runs of `step` from `s₀`, with their steps in order. -/
inductive Run (step : σ → α → σ → Prop) (s₀ : σ) : List (Transition σ α) → σ → Prop
  | nil : Run step s₀ [] s₀
  | snoc {tr : List (Transition σ α)} {s t : σ} {a : α} : Run step s₀ tr s → step s a t →
      Run step s₀ (tr ++ [⟨s, a, t⟩]) t

variable {step : σ → α → σ → Prop} {s₀ s t : σ} {tr tr' : List (Transition σ α)}

theorem Run.append (h : Run step s₀ tr s) (h' : Run step s tr' t) : Run step s₀ (tr ++ tr') t := by
  induction h' with
  | nil => simpa using h
  | snoc _ hs ih => rw [← List.append_assoc]; exact ih.snoc hs

theorem Run.single {a : α} (h : step s a t) : Run step s [⟨s, a, t⟩] t := Run.nil.snoc h

/-- A run splits at each of its steps. -/
theorem Run.split {x : Transition σ α} {pre post : List (Transition σ α)}
    (h : Run step s₀ (pre ++ x :: post) s) :
    Run step s₀ pre x.before ∧ step x.before x.label x.after ∧ Run step x.after post s := by
  generalize htr : pre ++ x :: post = tr at h
  induction h generalizing post with
  | nil => simp at htr
  | @snoc tr m t a hr hs ih =>
    rcases List.eq_nil_or_concat post with rfl | ⟨post', y, rfl⟩
    · obtain ⟨rfl, hx⟩ := List.append_inj' htr rfl
      cases hx
      exact ⟨hr, hs, .nil⟩
    · rw [List.concat_eq_append, ← List.cons_append, ← List.append_assoc] at htr
      obtain ⟨rfl, hy⟩ := List.append_inj' htr rfl
      cases hy
      obtain ⟨h1, h2, h3⟩ := ih rfl
      rw [List.concat_eq_append]
      exact ⟨h1, h2, h3.snoc hs⟩

/-- Induction over runs whose steps all satisfy `P`, for a statement about the steps so far and
the state reached. -/
theorem Run.induct {P : Transition σ α → Prop} {J : List (Transition σ α) → σ → Prop}
    (h0 : J [] s₀)
    (hs : ∀ tr s a t, Run step s₀ tr s → J tr s → step s a t → P ⟨s, a, t⟩ → J (tr ++ [⟨s, a, t⟩]) t)
    (h : Run step s₀ tr s) (hP : ∀ x ∈ tr, P x) : J tr s := by
  induction h with
  | nil => exact h0
  | @snoc tr m t a hr hst ih =>
    exact hs tr m a t hr (ih fun x hx => hP x (List.mem_append_left _ hx)) hst
      (hP _ (List.mem_append_right _ (List.mem_singleton_self _)))

/-- What holds at the start and is kept by every step satisfying `P` holds after the run. -/
theorem Run.invariant {P : Transition σ α → Prop} {I : σ → Prop} (h0 : I s₀)
    (hs : ∀ s a t, I s → step s a t → P ⟨s, a, t⟩ → I t)
    (h : Run step s₀ tr s) (hP : ∀ x ∈ tr, P x) : I s :=
  Run.induct (J := fun _ s => I s) h0 (fun _ s a t _ hi hst hp => hs s a t hi hst hp) h hP

/-- What every step keeps is kept by every run. -/
theorem Run.preserves {I : σ → Prop} (hs : ∀ s a t, I s → step s a t → I t)
    (h : Run step s₀ tr s) (h0 : I s₀) : I s :=
  Run.invariant (P := fun _ => True) h0 (fun s a t hi hst _ => hs s a t hi hst) h (fun _ _ => trivial)

/-! ## Conditions on the steps so far -/

section
variable {P : List (Transition σ α) → Transition σ α → Prop}

/-- `P` holds of each step, after the steps before it. -/
def Along (P : List (Transition σ α) → Transition σ α → Prop) (tr : List (Transition σ α)) : Prop :=
  ∀ i, (h : i < tr.length) → P (tr.take i) tr[i]

instance [∀ pre x, Decidable (P pre x)] (tr : List (Transition σ α)) : Decidable (Along P tr) :=
  inferInstanceAs (Decidable (∀ i, (h : i < tr.length) → P (tr.take i) tr[i]))

theorem Along.snoc {x : Transition σ α} (h : Along P (tr ++ [x])) : Along P tr ∧ P tr x := by
  constructor
  · intro i hi
    have hlt : i < (tr ++ [x]).length := by rw [List.length_append]; omega
    have hp := h i hlt
    rwa [List.take_append_of_le_length hi.le, List.getElem_append_left hi] at hp
  · have hp := h tr.length (by simp)
    simpa using hp

/-- Induction over runs each of whose steps satisfies `P` after the steps before it. -/
theorem Run.induct_along {J : List (Transition σ α) → σ → Prop} (h0 : J [] s₀)
    (hs : ∀ tr s a t, Run step s₀ tr s → J tr s → step s a t → P tr ⟨s, a, t⟩ → J (tr ++ [⟨s, a, t⟩]) t)
    (h : Run step s₀ tr s) (hP : Along P tr) : J tr s := by
  induction h with
  | nil => exact h0
  | @snoc tr m t a hr hst ih =>
    obtain ⟨hbefore, hlast⟩ := hP.snoc
    exact hs tr m a t hr (ih hbefore) hst hlast

end

/-! ## Totals -/

/-- The total of `f` over the steps of a run. -/
def total (f : Transition σ α → ℕ) (tr : List (Transition σ α)) : ℕ := (tr.map f).sum

variable (f g : Transition σ α → ℕ)

@[simp] theorem total_nil : total f ([] : List (Transition σ α)) = 0 := rfl

@[simp] theorem total_append (tr tr' : List (Transition σ α)) :
    total f (tr ++ tr') = total f tr + total f tr' := by simp [total]

@[simp] theorem total_singleton (x : Transition σ α) : total f [x] = f x := by simp [total]

theorem total_zero {f : Transition σ α → ℕ} {tr : List (Transition σ α)} (h : ∀ x ∈ tr, f x = 0) : total f tr = 0 := by
  unfold total
  refine List.sum_eq_zero ?_
  simpa using h

theorem total_eq_zero {f : Transition σ α → ℕ} {tr : List (Transition σ α)} (h : total f tr = 0) : ∀ x ∈ tr, f x = 0 :=
  fun x hx => List.sum_eq_zero_iff_forall_eq_nat.1 h (f x) (List.mem_map_of_mem hx)

/-- What is given back of what the steps meeting `p` took in is all of it, if it is so wherever there is
such a step. -/
theorem total_settled {f g : Transition σ α → ℕ} {p : Transition σ α → Prop} {tr : List (Transition σ α)}
    (hle : total f tr ≤ total g tr) (hzero : ∀ x, ¬ p x → g x = 0) (h : ∀ x ∈ tr, p x → total f tr = total g tr) :
    total f tr = total g tr := by
  by_cases hin : ∃ x ∈ tr, p x
  · obtain ⟨x, hx, hp⟩ := hin
    exact h x hx hp
  · have hnone : total g tr = 0 := total_zero fun x hx => hzero x fun hp => hin ⟨x, hx, hp⟩
    omega

/-! ## Totals of a family -/

section
variable {ι : Type} [Fintype ι]

/-- The total of all members of a family over the steps of a run. -/
@[irreducible] def pooled (f : ι → Transition σ α → ℕ) (tr : List (Transition σ α)) : ℕ := ∑ i, total (f i) tr

variable {f : ι → Transition σ α → ℕ} {tr : List (Transition σ α)} {x : Transition σ α}

@[simp] theorem pooled_nil : pooled f [] = 0 := by simp [pooled]

/-- A step outside the family. -/
theorem pooled_skip (h : ∀ i, f i x = 0) : pooled f (tr ++ [x]) = pooled f tr := by
  simp [pooled, h]

/-- A step that adds `n` to one member of the family, when `c` holds. -/
theorem pooled_add [DecidableEq ι] {i : ι} {c : Prop} [Decidable c] {n : ℕ}
    (h : ∀ j, f j x = if i = j ∧ c then n else 0) :
    pooled f (tr ++ [x]) = pooled f tr + if c then n else 0 := by
  simp only [pooled, total_append, total_singleton, Finset.sum_add_distrib, h]
  by_cases hc : c <;> simp [hc]

/-- Two families with equal totals but for one member differ by what that member differs. -/
theorem pooled_differ [DecidableEq ι] {g : ι → Transition σ α → ℕ} {i : ι}
    (h : ∀ j, j ≠ i → total (f j) tr = total (g j) tr) :
    pooled f tr + total (g i) tr = pooled g tr + total (f i) tr := by
  unfold pooled
  rw [← Finset.add_sum_erase _ _ (Finset.mem_univ i), ← Finset.add_sum_erase _ (fun j => total (g j) tr) (Finset.mem_univ i),
    Finset.sum_congr rfl fun j hj => h j (Finset.ne_of_mem_erase hj)]
  omega

end

end Runs

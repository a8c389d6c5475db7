/-
Pooled custody: one pool holds what is owed to each of a family of holders. How a sum over all
holders changes when one holder's entry changes, the backing of what is owed by what is held, and a
bound on what any holders have together, which moving between them keeps.
-/
import Mathlib

open Finset

namespace Custody

/-! ## Sums under one change -/

theorem sum_map_set {α : Type} (f : α → ℕ) : ∀ {l : List α} {i : ℕ} {x : α} (y : α), l[i]? = some x →
    ((l.set i y).map f).sum + f x = (l.map f).sum + f y
  | [], _, _, _, h => by simp at h
  | a :: l, 0, x, y, h => by
    simp only [List.getElem?_cons_zero, Option.some.injEq] at h
    subst h
    simp only [List.set_cons_zero, List.map_cons, List.sum_cons]; omega
  | a :: l, i + 1, x, y, h => by
    simp only [List.getElem?_cons_succ] at h
    have := sum_map_set f y h
    simp only [List.set_cons_succ, List.map_cons, List.sum_cons]; omega

variable {ι : Type}

section
variable [DecidableEq ι]

/-- A field of the entries when one entry is replaced. -/
theorem field_update {α β : Type} (g : α → β) (f : ι → α) (i : ι) (v : α) (j : ι) :
    g (Function.update f i v j) = Function.update (fun k => g (f k)) i (g v) j := by
  by_cases hj : j = i
  · subst hj; simp
  · simp [Function.update_of_ne hj]

variable [Fintype ι]

/-- Replacing one holder's entry replaces it in the sum. -/
theorem sum_update (f : ι → ℕ) (i : ι) (x : ℕ) : ∑ j, Function.update f i x j + f i = ∑ j, f j + x := by
  rw [Finset.sum_update_of_mem (Finset.mem_univ i), ← Finset.add_sum_erase _ f (Finset.mem_univ i),
    Finset.sdiff_singleton_eq_erase]
  omega

/-- The sum of a field of the entries when one entry is replaced. -/
theorem sum_field {α : Type} (g : α → ℕ) (f : ι → α) (i : ι) (v : α) :
    ∑ j, g (Function.update f i v j) + g (f i) = ∑ j, g (f j) + g v := by
  rw [Finset.sum_congr rfl fun j _ => field_update g f i v j]
  exact sum_update (fun j => g (f j)) i (g v)

end

variable [Fintype ι]

theorem le_sum (f : ι → ℕ) (i : ι) : f i ≤ ∑ j, f j :=
  Finset.single_le_sum (fun _ _ => Nat.zero_le _) (Finset.mem_univ i)

theorem add_le_sum (f : ι → ℕ) {i j : ι} (h : i ≠ j) : f i + f j ≤ ∑ k, f k := by
  classical
  rw [← Finset.sum_pair h]
  exact Finset.sum_le_sum_of_subset (Finset.subset_univ _)

/-- What is left of each entry and what was taken off it is the entry. -/
theorem sum_sub_add {f g : ι → ℕ} (h : ∀ i, g i ≤ f i) : ∑ i, (f i - g i) + ∑ i, g i = ∑ i, f i := by
  rw [← Finset.sum_add_distrib]
  exact Finset.sum_congr rfl fun i _ => Nat.sub_add_cancel (h i)

/-! ## Backing -/

/-- What is owed to all holders together is within what the pool holds. -/
def Backed (owed : ι → ℕ) (held : ℕ) : Prop := ∑ i, owed i ≤ held

variable {owed owed' : ι → ℕ} {held held' : ℕ}

/-- A backed pool can pay any single holder in full. -/
theorem Backed.holder (h : Backed owed held) (i : ι) : owed i ≤ held := (le_sum owed i).trans h

/-- A backed pool can pay any of the holders together. -/
theorem Backed.queue {l : List ι} (h : Backed owed held) (hl : l.Nodup) : (l.map owed).sum ≤ held := by
  classical
  rw [← List.sum_toFinset owed hl]
  exact (Finset.sum_le_sum_of_subset (Finset.subset_univ _)).trans h

theorem Backed.mono (h : Backed owed held) (ho : ∀ i, owed' i ≤ owed i) (hh : held ≤ held') :
    Backed owed' held' :=
  (Finset.sum_le_sum fun i _ => ho i).trans (Nat.le_trans h hh)

/-- One holder's entry changes from `owed i` to `x`: the pool stays backed when it loses no more
than the entry does. -/
theorem Backed.update [DecidableEq ι] (h : Backed owed held) (i : ι) {x : ℕ} (hx : held + x ≤ held' + owed i) :
    Backed (Function.update owed i x) held' := by
  have := sum_update owed i x
  unfold Backed at h ⊢
  omega

/-! ## A bound on the whole -/

section
variable {κ : Type} {N : ℕ} {f f' : κ → ℕ}

/-- Any finitely many holders have less than `N` together. -/
def Below (N : ℕ) (f : κ → ℕ) : Prop := ∀ F : Finset κ, ∑ i ∈ F, f i < N

theorem Below.mono (h : Below N f) (hle : ∀ i, f' i ≤ f i) : Below N f' :=
  fun F => (Finset.sum_le_sum fun i _ => hle i).trans_lt (h F)

theorem Below.holder (h : Below N f) (i : κ) : f i < N := by
  simpa using h {i}

variable [DecidableEq κ]

theorem Below.pair (h : Below N f) {i j : κ} (hij : i ≠ j) : f i + f j < N := by
  have hsum := h {i, j}
  rwa [Finset.sum_pair hij] at hsum

theorem Below.triple (h : Below N f) {i j k : κ} (hij : i ≠ j) (hik : i ≠ k) (hjk : j ≠ k) : f i + f j + f k < N := by
  have hsum := h {i, j, k}
  rw [Finset.sum_insert (by simp [hij, hik]), Finset.sum_pair hjk] at hsum
  omega

/-- Moving some of what one holder has to another keeps the whole. -/
theorem Below.move (h : Below N f) {i j : κ} {n : ℕ} (hij : i ≠ j) (hi : f' i + n = f i) (hj : f' j = f j + n)
    (hother : ∀ k, k ≠ i → k ≠ j → f' k = f k) : Below N f' := by
  intro F
  have hsub : F ⊆ insert i (insert j (F.erase i |>.erase j)) := by
    intro k hk
    simp only [Finset.mem_insert, Finset.mem_erase]
    tauto
  have hi' : i ∉ insert j (F.erase i |>.erase j) := by simp [hij]
  have hj' : j ∉ (F.erase i |>.erase j) := by simp
  have hrest : ∑ k ∈ (F.erase i |>.erase j), f' k = ∑ k ∈ (F.erase i |>.erase j), f k := by
    refine Finset.sum_congr rfl fun k hk => ?_
    simp only [Finset.mem_erase] at hk
    exact hother k hk.2.1 hk.1
  have hwhole := h (insert i (insert j (F.erase i |>.erase j)))
  refine (Finset.sum_le_sum_of_subset hsub).trans_lt ?_
  rw [Finset.sum_insert hi', Finset.sum_insert hj'] at hwhole ⊢
  omega

/-- Holders who all are on a list. -/
theorem Below.of_list {l : List κ} (hl : l.Nodup) (hout : ∀ i, i ∉ l → f i = 0) (hsum : (l.map f).sum < N) :
    Below N f := by
  intro F
  refine lt_of_le_of_lt ?_ hsum
  rw [← List.sum_toFinset f hl]
  refine Finset.sum_le_sum_of_ne_zero fun i _ hi => ?_
  rw [List.mem_toFinset]
  by_contra hmem
  exact hi (hout i hmem)

end

end Custody

/-
A token ledger: accounts that hold an amount of one mint for one owner, and what a token program does
to them under given signatures: transfers, new accounts and minting. However the operations follow each
other, the supply of a mint changes by what is minted, and an account whose owner does not sign keeps
what it holds.
-/
import Mathlib

open Function

namespace Tokens

/-! ## Sums with finite support -/

section
variable {κ : Type} [DecidableEq κ] {f : κ → ℕ}

/-- Replacing one entry replaces it in the sum. -/
theorem finsum_update (hf : f.support.Finite) (i : κ) (x : ℕ) : ∑ᶠ j, update f i x j + f i = ∑ᶠ j, f j + x := by
  have hi : i ∈ insert i hf.toFinset := Finset.mem_insert_self _ _
  have hsub : support f ⊆ ↑(insert i hf.toFinset) := by
    intro j hj
    exact Finset.mem_insert_of_mem (hf.mem_toFinset.2 hj)
  have hsub' : support (update f i x) ⊆ ↑(insert i hf.toFinset) := by
    intro j hj
    by_cases hji : j = i
    · subst hji; exact hi
    · rw [mem_support, update_of_ne hji] at hj
      exact hsub hj
  rw [finsum_eq_sum_of_support_subset _ hsub, finsum_eq_sum_of_support_subset _ hsub',
    Finset.sum_update_of_mem hi, ← Finset.add_sum_erase _ f hi, Finset.sdiff_singleton_eq_erase]
  omega

end

/-! ## The ledger -/

/-- A token account. -/
structure Holding (μ ο : Type) where
  mint : μ
  owner : ο
  amount : ℕ

variable {κ μ ο : Type} [DecidableEq κ]

section
variable [DecidableEq μ]

/-- What one call of a token program leads to from the accounts `f`, under the signatures `signed`, with
what it mints. -/
inductive Ops (signed : ο → Prop) (f : κ → Option (Holding μ ο)) : (μ → ℕ) → (κ → Option (Holding μ ο)) → Prop
  | nil : Ops signed f 0 f
  | transfer {minted : μ → ℕ} {g : κ → Option (Holding μ ο)} {src dst : κ} {a b : Holding μ ο} {n : ℕ} :
      Ops signed f minted g → g src = some a → g dst = some b → src ≠ dst → a.mint = b.mint → n ≤ a.amount →
      signed a.owner → Ops signed f minted
        (update (update g src (some { a with amount := a.amount - n })) dst (some { b with amount := b.amount + n }))
  | create {minted : μ → ℕ} {g : κ → Option (Holding μ ο)} {x : κ} {mint : μ} {owner : ο} :
      Ops signed f minted g → g x = none → Ops signed f minted (update g x (some ⟨mint, owner, 0⟩))
  | mintTo {minted : μ → ℕ} {g : κ → Option (Holding μ ο)} {x : κ} {a : Holding μ ο} {n : ℕ} :
      Ops signed f minted g → g x = some a →
      Ops signed f (update minted a.mint (minted a.mint + n)) (update g x (some { a with amount := a.amount + n }))

/-! ## The supply -/

/-- The tokens of the mint `k` in an account. -/
def amountOf (k : μ) (o : Option (Holding μ ο)) : ℕ := (o.map fun a => if a.mint = k then a.amount else 0).getD 0

@[simp] theorem amountOf_none (k : μ) : amountOf k (none : Option (Holding μ ο)) = 0 := rfl

@[simp] theorem amountOf_some (k : μ) (a : Holding μ ο) : amountOf k (some a) = if a.mint = k then a.amount else 0 := rfl

/-- The tokens of the mint `k` in all accounts. -/
noncomputable def supply (k : μ) (f : κ → Option (Holding μ ο)) : ℕ := ∑ᶠ x, amountOf k (f x)

/-- Only finitely many accounts are in use. -/
def InUse (f : κ → Option (Holding μ ο)) : Prop := {x | f x ≠ none}.Finite

section
variable {f g : κ → Option (Holding μ ο)} {minted : μ → ℕ} {signed : ο → Prop} {x : κ}

omit [DecidableEq μ] in
theorem InUse.update (hf : InUse f) (x : κ) (o : Option (Holding μ ο)) : InUse (update f x o) := by
  refine (hf.insert x).subset ?_
  intro y hy
  by_cases hyx : y = x
  · exact .inl hyx
  · right
    simpa [update_of_ne hyx] using hy

/-- One account is replaced: its tokens are replaced in the supply. -/
theorem supply_update (hf : InUse f) (k : μ) (x : κ) (o : Option (Holding μ ο)) :
    supply k (update f x o) + amountOf k (f x) = supply k f + amountOf k o := by
  have hfin : (fun y => amountOf k (f y)).support.Finite := by
    refine hf.subset ?_
    intro y hy hnone
    exact hy (by simp [hnone])
  have hsum := finsum_update hfin x (amountOf k o)
  have hcomp : (fun y => amountOf k (update f x o y)) = Function.update (fun y => amountOf k (f y)) x (amountOf k o) := by
    funext y
    by_cases hyx : y = x
    · subst hyx; simp
    · simp [update_of_ne hyx]
  unfold supply
  rw [hcomp]
  exact hsum

/-- The supply changes by what is minted. -/
theorem Ops.supply (hf : InUse f) (h : Ops signed f minted g) : InUse g ∧ ∀ k, supply k g = supply k f + minted k := by
  induction h with
  | nil => exact ⟨hf, fun _ => rfl⟩
  | @transfer _ g src dst a b n _ ha hb hne hmint hle _ ih =>
    obtain ⟨mint, owner, amount⟩ := a
    obtain ⟨mint', owner', amount'⟩ := b
    obtain rfl : mint = mint' := hmint
    refine ⟨(ih.1.update _ _).update _ _, fun k => ?_⟩
    have hsrc := supply_update ih.1 k src (some ⟨mint, owner, amount - n⟩)
    have hdst := supply_update (ih.1.update src (some ⟨mint, owner, amount - n⟩)) k dst
      (some ⟨mint, owner', amount' + n⟩)
    have := ih.2 k
    rw [update_of_ne hne.symm] at hdst
    simp only [ha, hb, amountOf_some] at hsrc hdst hle
    show Tokens.supply k (update (update g src (some ⟨mint, owner, amount - n⟩)) dst
      (some ⟨mint, owner', amount' + n⟩)) = _
    -- both accounts are of the mint `k`, or neither is
    by_cases hk : mint = k
    · simp only [if_pos hk] at hsrc hdst
      omega
    · simp only [if_neg hk] at hsrc hdst
      omega
  | @create _ g x mint owner _ hx ih =>
    refine ⟨ih.1.update _ _, fun k => ?_⟩
    have hnew := supply_update ih.1 k x (some ⟨mint, owner, 0⟩)
    have := ih.2 k
    rw [hx] at hnew
    simp only [amountOf_none, amountOf_some, ite_self] at hnew
    omega
  | @mintTo minted g x a n _ hx ih =>
    refine ⟨ih.1.update _ _, fun k => ?_⟩
    have hnew := supply_update ih.1 k x (some { a with amount := a.amount + n })
    have := ih.2 k
    rw [hx] at hnew
    by_cases hk : a.mint = k
    · subst hk
      simp only [amountOf_some, if_true] at hnew
      rw [update_self]
      omega
    · simp only [amountOf_some, if_neg hk] at hnew
      rw [update_of_ne (Ne.symm hk)]
      omega

/-! ## Owners -/

/-- An account whose owner does not sign stays, with its mint and owner, and loses nothing. -/
theorem Ops.kept {a : Holding μ ο} (h : Ops signed f minted g) (ha : f x = some a) (ho : ¬ signed a.owner) :
    ∃ n, a.amount ≤ n ∧ g x = some { a with amount := n } := by
  induction h with
  | nil => exact ⟨a.amount, le_rfl, ha⟩
  | @transfer _ g src dst b c m _ hb hc hne _ _ hsigned ih =>
    obtain ⟨n, hn, hx⟩ := ih
    have hxs : x ≠ src := by
      rintro rfl
      rw [hx] at hb; cases hb
      exact ho hsigned
    by_cases hxd : x = dst
    · subst hxd
      rw [hx] at hc; cases hc
      exact ⟨n + m, by omega, update_self _ _ _⟩
    · exact ⟨n, hn, by rw [update_of_ne hxd, update_of_ne hxs, hx]⟩
  | @create _ g y _ _ _ hy ih =>
    obtain ⟨n, hn, hx⟩ := ih
    have hxy : x ≠ y := by rintro rfl; rw [hx] at hy; cases hy
    exact ⟨n, hn, by rw [update_of_ne hxy, hx]⟩
  | @mintTo _ g y b m _ hy ih =>
    obtain ⟨n, hn, hx⟩ := ih
    by_cases hxy : x = y
    · subst hxy
      rw [hx] at hy; cases hy
      exact ⟨n + m, by omega, update_self _ _ _⟩
    · exact ⟨n, hn, by rw [update_of_ne hxy, hx]⟩

end

end

end Tokens

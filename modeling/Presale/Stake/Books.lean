/-
The books of one staking pool: its total against the stake records, and every debt within what has
accrued, in every state of every run of the pool.
-/
import Presale.Lib.Share
import Presale.Program.Script
import Presale.Steps.Pool
import Presale.Steps.Sale

namespace Presale

open World Finset

/-! ## The books -/

/-- The pool agrees with the stake records `f`. -/
structure StakeBooks (p : StakePool) (f : Pubkey → UserStake) : Prop where
  total : p.totalStaked = ∑ u, (f u).amount
  debt : ∀ u, (f u).rewardDebt ≤ (f u).amount * p.accruedPerShare / precision

section
variable {p : StakePool} {f : Pubkey → UserStake} {now : ℤ}

theorem precision_pos : 0 < precision := by decide

/-- The accumulator never goes back. -/
theorem accruedPerShare_le (p : StakePool) (now : ℤ) : p.accruedPerShare ≤ (p.updated now).accruedPerShare :=
  Nat.le_add_right _ _

/-- Debts within what had accrued are within what accrues later. -/
theorem StakeBooks.updated (h : StakeBooks p f) (now : ℤ) : StakeBooks (p.updated now) f where
  total := h.total
  debt u := (h.debt u).trans (Nat.div_le_div_right (Nat.mul_le_mul_left _ (accruedPerShare_le p now)))

/-- One record is set to a new amount, with the debt that has accrued on it. -/
theorem StakeBooks.set (h : StakeBooks p f) (u : Pubkey) (s : UserStake) {total : ℕ}
    (htotal : total + (f u).amount = p.totalStaked + s.amount) (hdebt : s.rewardDebt = p.debt s.amount) :
    StakeBooks { p with totalStaked := total } (Function.update f u s) where
  total := by
    have hsum := Custody.sum_field (·.amount) f u s
    have htot := h.total
    simp only at hsum ⊢
    omega
  debt x := by
    by_cases hx : x = u
    · subst hx; simp [hdebt, StakePool.debt]
    · simpa [Function.update_of_ne hx] using h.debt x

end

/-! ## Runs of a pool -/

/-- The pool of `ctx.state` is opened and no other pool ever writes a stake record: the pool starts
in `w₁` and the steps `tr` lead to `w`. -/
structure PoolRun (ctx : InitializeStaking) (rate : ℕ) (w₁ : World) (tr : List Transition) (w : World) : Prop where
  opened : ∃ w₀ pre wₒ, Genesis w₀ ∧ Run w₀ pre wₒ ∧ (∀ x ∈ pre, x.label.OnlyPool ctx.state) ∧
    Step wₒ (.ok (.initializeStaking ctx rate)) w₁
  run : Run w₁ tr w
  only : ∀ x ∈ tr, x.label.OnlyPool ctx.state

/-- The pool is there, its books are in order, and so are the vaults. -/
structure Staking (A : Pubkey) (w : World) (p : StakePool) : Prop where
  pool : w.pools A = some p
  books : StakeBooks p w.userStake
  owned : Owned w.tokenAccounts

section
variable {A : Pubkey} {ctx : InitializeStaking} {rate : ℕ} {w₁ w w' : World} {tr : List Transition} {p : StakePool}
  {l : Label}

/-- The pool a call on `A` finds. -/
theorem Staking.found {B : Pubkey} {q : StakePool} (h : Staking A w p) (hB : B = A) (hq : w.pools B = some q) :
    p = q := by
  subst hB
  exact Option.some.inj (h.pool.symm.trans hq)

/-- The pool a call on `A` leaves. -/
theorem Staking.left {B : Pubkey} {q : StakePool} (h : Staking A w' p) (hB : B = A)
    (hq : w'.pools = Function.update w.pools B (some q)) : p = q := by
  refine h.found hB ?_
  rw [hq, Function.update_self]

/-- The amount of a record is part of the total. -/
theorem Staking.amount_le (h : Staking A w p) (u : Pubkey) : (w.userStake u).amount ≤ p.totalStaked := by
  rw [h.books.total]
  exact Custody.le_sum (fun u => (w.userStake u).amount) u

/-- Before the pool is opened nobody holds a stake record. -/
theorem no_stake_before {w₀ : World} (h0 : Genesis w₀) (h : Run w₀ tr w) (honly : ∀ x ∈ tr, x.label.OnlyPool A)
    (hA : w.pools A = none) : ∀ u, w.userStakes u = none := by
  refine (Runs.Run.invariant (I := fun w => Owned w.tokenAccounts ∧ (w.pools A = none → ∀ u, w.userStakes u = none))
    ⟨h0.owned, fun _ => h0.userStakes⟩ ?_ h honly).2 hA
  rintro s l t ⟨ho, hnone⟩ hs hl
  refine ⟨(hs.frame ho).evolves.owned ho, ?_⟩
  intro ht
  -- a pool that is there stays, and only a pool that is there takes stakes
  cases hs.pool ho hl with
  | opened hA hp => rw [hp.pools, hA] at ht; simp at ht
  | fund hA hf => rw [hf.pools, hA] at ht; simp at ht
  | stake hA hs => rw [hs.pools, hA] at ht; simp at ht
  | unstake hA hu => rw [hu.pools, hA] at ht; simp at ht
  | claim hA hc => rw [hc.pools, hA] at ht; simp at ht
  | quiet _ hq =>
    rw [hq.userStakes]
    exact hnone (hq.pool ▸ ht)

theorem PoolRun.start (h : PoolRun ctx rate w₁ tr w) : ∃ p, Staking ctx.state w₁ p ∧ (∀ u, w₁.userStake u = {}) ∧
    p.accruedPerShare = 0 ∧ p.remainingRewards = 0 := by
  obtain ⟨w₀, pre, wₒ, h0, hpre, honly, hstep⟩ := h.opened
  have hown := hpre.owned h0.owned
  have hown₁ := (hstep.frame hown).evolves.owned hown
  cases hstep with
  | ok _ hok =>
    obtain ⟨st, hp⟩ := initializeStaking_ok hok
    have hnone := no_stake_before h0 hpre honly hp.fresh
    have hzero : ∀ u, w₁.userStake u = {} := by
      intro u
      unfold userStake
      rw [hp.userStakes, hnone u]
      rfl
    refine ⟨_, ⟨by rw [hp.pools, Function.update_self], ⟨?_, fun u => ?_⟩, hown₁⟩, hzero, rfl, rfl⟩
    · simp [hzero]
    · rw [hzero]; exact Nat.zero_le _

/-- A step keeps the pool's books. -/
theorem Staking.step (h : Staking A w p) (hf : Frame w l w') (hs : PoolStep A w l w') : ∃ p', Staking A w' p' := by
  have hown := hf.evolves.owned h.owned
  cases hs with
  | opened hA ho => exact absurd h.pool (by rw [← hA, ho.fresh]; exact nofun)
  | fund hA hfund =>
    obtain rfl := h.found hA hfund.pool
    refine ⟨_, by rw [hfund.pools, hA, Function.update_self], ?_, hown⟩
    rw [userStake_congr hfund.userStakes]
    exact ⟨h.books.total, h.books.debt⟩
  | @stake c amount _ _ _ hA hs =>
    obtain rfl := h.found hA hs.pool
    refine ⟨_, by rw [hs.pools, hA, Function.update_self], ?_, hown⟩
    rw [userStake_update hs.userStakes]
    refine (h.books.updated w.clock).set c.user _ ?_ rfl
    simp only [StakePool.updated]
    omega
  | @unstake c amount _ _ _ s _ hA hu =>
    obtain rfl := h.found hA hu.pool
    have hs := userStake_of hu.record
    refine ⟨_, by rw [hu.pools, hA, Function.update_self], ?_, hown⟩
    rw [userStake_update hu.userStakes]
    refine (h.books.updated w.clock).set c.user _ ?_ rfl
    have := hu.amountLe
    have := hu.totalLe
    simp only [StakePool.updated, hs]
    omega
  | @claim c _ _ _ s _ hA hc =>
    obtain rfl := h.found hA hc.pool
    have hs := userStake_of hc.record
    refine ⟨_, by rw [hc.pools, hA, Function.update_self], ?_, hown⟩
    rw [userStake_update hc.userStakes]
    exact (h.books.updated w.clock).set c.user _ (by simp only [StakePool.updated, hs]) rfl
  | quiet _ hq =>
    refine ⟨p, by rw [hq.pool]; exact h.pool, ?_, hown⟩
    rw [userStake_congr hq.userStakes]
    exact h.books

/-- Induction over the steps of an open pool. -/
theorem PoolRun.induct {P : Transition → Prop} {J : List Transition → World → Prop} (h : PoolRun ctx rate w₁ tr w)
    (hP : ∀ x ∈ tr, P x) (h0 : J [] w₁)
    (hs : ∀ tr w p l w', Staking ctx.state w p → Step w l w' → PoolStep ctx.state w l w' → P ⟨w, l, w'⟩ → J tr w →
      J (tr ++ [⟨w, l, w'⟩]) w') : J tr w := by
  obtain ⟨p₁, hstart, -⟩ := h.start
  refine (Runs.Run.induct (P := fun x => x.label.OnlyPool ctx.state ∧ P x)
    (J := fun tr w => (∃ p, Staking ctx.state w p) ∧ J tr w) ⟨⟨p₁, hstart⟩, h0⟩ ?_ h.run
    fun x hx => ⟨h.only x hx, hP x hx⟩).2
  rintro tr s l t - ⟨⟨p, hst⟩, hJ⟩ hstep ⟨honly, hp⟩
  have hpool := hstep.pool hst.owned honly
  exact ⟨hst.step (hstep.frame hst.owned) hpool, hs tr s p l t hst hstep hpool hp hJ⟩

/-- The pool's books are in order in every state of its runs. -/
theorem PoolRun.staking (h : PoolRun ctx rate w₁ tr w) : ∃ p, Staking ctx.state w p := by
  obtain ⟨p₁, hstart, -⟩ := h.start
  exact h.induct (P := fun _ => True) (J := fun _ w => ∃ p, Staking ctx.state w p) (fun _ _ => trivial) ⟨p₁, hstart⟩
    fun _ _ _ _ _ hst hstep hpool _ _ => hst.step (hstep.frame hst.owned) hpool

/-- A script played after a pool is opened is a run of the pool. -/
theorem poolRun_play {w₀ : World} {pre acts : List Act} (h0 : Genesis w₀) (hpre : Playable w₀ pre)
    (hrate : IsU64 rate) (honlyPre : ∀ x ∈ steps w₀ pre, x.label.OnlyPool ctx.state)
    (hok : failure (play w₀ pre) (.initializeStaking ctx rate) = none)
    (hplay : Playable (play (play w₀ pre) [.call (.initializeStaking ctx rate)]) acts)
    (honly : ∀ x ∈ steps (play (play w₀ pre) [.call (.initializeStaking ctx rate)]) acts,
      x.label.OnlyPool ctx.state) :
    PoolRun ctx rate (play (play w₀ pre) [.call (.initializeStaking ctx rate)])
      (steps (play (play w₀ pre) [.call (.initializeStaking ctx rate)]) acts)
      (play (play (play w₀ pre) [.call (.initializeStaking ctx rate)]) acts) :=
  ⟨⟨w₀, _, play w₀ pre, h0, play_run hpre, honlyPre, .ok hrate (exec_of_play hok)⟩, play_run hplay, honly⟩

end

end Presale

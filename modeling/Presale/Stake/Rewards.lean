/-
The rewards of a pool: the reward vault against what is left to release and what the stakers have
earned, in every run in which no debt rounded down is worth a fraction of a token to its user.
-/
import Presale.Stake.Books

namespace Presale

open World Finset

/-! ## Solvency -/

/-- The reward vault of `A` covers, to the fraction of a token, what the pool owes its stakers and
has left to release. -/
def RewardsCovered (A : Pubkey) (w : World) (p : StakePool) : Prop :=
  Share.Solvent precision p.accruedPerShare (fun u => (w.userStake u).amount) (fun u => (w.userStake u).rewardDebt)
    p.remainingRewards (w.balance (.rewardVault A))

section
variable {A : Pubkey} {w w' : World} {p : StakePool}

/-- Bringing the pool up to date keeps its rewards covered. -/
theorem RewardsCovered.updated (h : RewardsCovered A w p) (hb : StakeBooks p w.userStake) (now : ℤ) :
    RewardsCovered A w (p.updated now) := by
  have hrelease := Share.Solvent.release h (released_le p now)
  rw [← hb.total] at hrelease
  exact hrelease

/-- The rewards of every user are in the vault. -/
theorem RewardsCovered.pending_le (h : RewardsCovered A w p) (u : Pubkey) :
    (w.userStake u).pending p ≤ w.balance (.rewardVault A) := by
  have hcov := Share.Solvent.covers h precision_pos
  have hle := Custody.le_sum (fun u => (w.userStake u).pending p) u
  refine hle.trans (le_trans ?_ hcov)
  exact Nat.le_add_right _ _

/-- One record is replaced and its user paid, within what the record was owed. -/
theorem RewardsCovered.settle {p' : StakePool} (h : RewardsCovered A w p) {u : Pubkey} {s : UserStake} {paid : ℕ}
    (hs : w'.userStakes = Function.update w.userStakes u (some s)) (hacc : p'.accruedPerShare = p.accruedPerShare)
    (hrest : p'.remainingRewards = p.remainingRewards)
    (howed : Share.owed precision p.accruedPerShare s.amount s.rewardDebt + precision * paid ≤
      Share.owed precision p.accruedPerShare (w.userStake u).amount (w.userStake u).rewardDebt)
    (hvault : w.balance (.rewardVault A) ≤ w'.balance (.rewardVault A) + paid) : RewardsCovered A w' p' := by
  have hsettle := Share.Solvent.settle h u howed hvault
  unfold RewardsCovered
  rw [userStake_update hs, hacc, hrest]
  convert hsettle using 1
  · funext x; exact Custody.field_update UserStake.amount w.userStake u s x
  · funext x; exact Custody.field_update UserStake.rewardDebt w.userStake u s x

end

/-! ## Rounding -/

/-- The pool, the user and the amount of a stake or an unstake. -/
structure StakeChange where
  pool : Pubkey
  user : Pubkey
  amount : ℕ

def Label.staked : Label → Option StakeChange
  | .ok (.stake ctx amount) => some ⟨ctx.state, ctx.user, amount⟩
  | _ => none

def Label.unstaked : Label → Option StakeChange
  | .ok (.unstake ctx amount) => some ⟨ctx.state, ctx.user, amount⟩
  | _ => none

/-- A stake or an unstake in the pool of `A` whose new debt, rounded down, leaves its user no larger
a fraction of a token than was accrued to them. -/
def RoundsDown (A : Pubkey) (x : Transition) : Prop :=
  (∀ c ∈ x.label.staked, c.pool = A → ∀ p ∈ x.before.pools A,
    ((x.before.userStake c.user).amount + c.amount) * (p.updated x.before.clock).accruedPerShare % precision ≤
      (x.before.userStake c.user).amount * (p.updated x.before.clock).accruedPerShare -
        precision * (x.before.userStake c.user).rewardDebt) ∧
  ∀ c ∈ x.label.unstaked, c.pool = A → ∀ p ∈ x.before.pools A,
    ((x.before.userStake c.user).amount - c.amount) * (p.updated x.before.clock).accruedPerShare % precision ≤
      (x.before.userStake c.user).amount * (p.updated x.before.clock).accruedPerShare % precision

instance (A : Pubkey) (x : Transition) : Decidable (RoundsDown A x) := inferInstanceAs (Decidable (_ ∧ _))

section
variable {A : Pubkey} {w w' : World} {p p' : StakePool} {l : Label}

/-- A step keeps the rewards covered when it rounds down. -/
theorem RewardsCovered.step (h : RewardsCovered A w p) (hst : Staking A w p) (hst' : Staking A w' p')
    (hs : PoolStep A w l w') (hr : RoundsDown A ⟨w, l, w'⟩) : RewardsCovered A w' p' := by
  cases hs with
  | opened hA ho => exact absurd hst.pool (by rw [← hA, ho.fresh]; exact nofun)
  | fund hA hf =>
    obtain rfl := hst.found hA hf.pool
    obtain rfl := hst'.left hA hf.pools
    have hvault := hf.rewardVault hst.owned
    rw [hA] at hvault
    unfold RewardsCovered userStake at h ⊢
    rw [hf.userStakes]
    exact Share.Solvent.fund h hvault.ge
  | @stake c amount _ _ _ hA hs =>
    obtain rfl := hst.found hA hs.pool
    obtain rfl := hst'.left hA hs.pools
    have hvault := hs.rewardVault hst.owned
    rw [hA] at hvault
    have hround := hr.1 _ rfl hA _ hst.pool
    have hheld : w.balance (.rewardVault A) ≤ w'.balance (.rewardVault A) + 0 := hvault.ge
    refine (h.updated hst.books w.clock).settle hs.userStakes rfl rfl ?_ hheld
    rw [Nat.mul_zero, Nat.add_zero, StakePool.debt, Share.owed_settled]
    exact hround
  | @unstake c amount _ _ _ s paid hA hu =>
    obtain rfl := hst.found hA hu.pool
    obtain rfl := hst'.left hA hu.pools
    have hvault := hu.rewardVault hst.owned
    rw [hA] at hvault
    refine (h.updated hst.books w.clock).settle hu.userStakes rfl rfl ?_ hvault.ge
    have hround := hr.2 _ rfl hA _ hst.pool
    have hpaid : paid ≤ s.pending (p.updated w.clock) := hu.paidEq ▸ Nat.mod_le _ _
    rw [userStake_of hu.record] at hround ⊢
    exact Share.owed_pay hu.debtLe hpaid hround
  | @claim c _ _ _ s paid hA hc =>
    obtain rfl := hst.found hA hc.pool
    obtain rfl := hst'.left hA hc.pools
    have hvault := hc.rewardVault hst.owned
    rw [hA] at hvault
    refine (h.updated hst.books w.clock).settle hc.userStakes rfl rfl ?_ hvault.ge
    have hpaid : paid ≤ s.pending (p.updated w.clock) := hc.paidEq ▸ Nat.mod_le _ _
    rw [userStake_of hc.record]
    exact Share.owed_pay hc.debtLe hpaid le_rfl
  | quiet _ hq =>
    obtain rfl := hst'.found rfl (hq.pool.trans hst.pool)
    unfold RewardsCovered userStake at h ⊢
    rw [hq.userStakes]
    exact Share.Solvent.mono h hq.rewardVault

end

section
variable {ctx : InitializeStaking} {rate : ℕ} {w₁ w : World} {tr : List Transition}

theorem PoolRun.rewardsCovered (h : PoolRun ctx rate w₁ tr w) (hround : ∀ x ∈ tr, RoundsDown ctx.state x) :
    ∀ p ∈ w.pools ctx.state, RewardsCovered ctx.state w p := by
  refine h.induct (P := RoundsDown ctx.state) (J := fun _ w => ∀ p ∈ w.pools ctx.state, RewardsCovered ctx.state w p)
    hround ?_ ?_
  · obtain ⟨p₁, hst, hzero, hacc, hrest⟩ := h.start
    intro p hp
    rw [hst.pool] at hp; cases hp
    unfold RewardsCovered Share.Solvent
    simp [hzero, hrest, Share.owed]
  · intro tr w p l w' hst hstep hpool hr hJ p' hp'
    obtain ⟨q, hst'⟩ := hst.step (hstep.frame hst.owned) hpool
    rw [hst'.pool] at hp'; cases hp'
    exact (hJ p hst.pool).step hst hst' hpool hr

/-- The reward vault covers the rewards left to release and those of all stakers in every state, and
no claim or unstake finds it short, as long as no stake or unstake gains from rounding. -/
theorem poolRun_rewards_covered (h : PoolRun ctx rate w₁ tr w) (hround : ∀ x ∈ tr, RoundsDown ctx.state x) :
    ∃ p, w.pools ctx.state = some p ∧
      p.remainingRewards + ∑ u, ((w.userStake u).amount * p.accruedPerShare / precision - (w.userStake u).rewardDebt) ≤
        w.balance (.rewardVault ctx.state) ∧
      (∀ c : ClaimRewards, c.state = ctx.state → claimRewards c w ≠ .error (.runtime .insufficientFunds)) ∧
      ∀ (c : Unstake) (amount : ℕ), c.state = ctx.state → unstake c amount w = .error (.runtime .insufficientFunds) →
        w.balance (.stakeVault ctx.state) < amount := by
  obtain ⟨p, hst⟩ := h.staking
  have hcov := h.rewardsCovered hround p hst.pool
  have hnow := hcov.updated hst.books w.clock
  -- the reward of a record at the present time is in the vault
  have hpending : ∀ A u q s, A = ctx.state → w.pools A = some q → w.userStakes u = some s →
      s.pending (q.updated w.clock) ≤ w.balance (.rewardVault A) := by
    rintro _ u q s rfl hq hs
    rw [hst.pool] at hq; cases hq
    rw [← userStake_of hs]
    exact hnow.pending_le u
  refine ⟨p, hst.pool, ?_, ?_, ?_⟩
  · rw [Nat.add_comm]
    exact Share.Solvent.covers hcov precision_pos
  · intro c hc herr
    obtain ⟨q, s, hq, hs, hshort⟩ := claimRewards_short herr
    have := hpending _ _ q s hc hq hs
    omega
  · intro c amount hc herr
    rcases unstake_short herr with ⟨q, s, hq, hs, hshort⟩ | hshort
    · have := hpending _ _ q s hc hq hs
      omega
    · rw [← hc]; exact hshort

end

/-- Three stakers. When half a token a share has accrued, wallet `4` enters with an even number of shares
and wallet `2` leaves one of its three, which is owed half a token before and after. -/
def sampleRewards : List Act :=
  [sampleReward 100, sampleStake 2 3, sampleStake 3 1, .wait 22, sampleStake 4 2, sampleUnstake 2 2, .wait 40,
    sampleClaim 3]

theorem sampleRewards_run : PoolRun samplePool 2 (sampleOpened 2) (steps (sampleOpened 2) sampleRewards)
    (play (sampleOpened 2) sampleRewards) :=
  poolRun_play sampleWorld_genesis (by decide +kernel) (by decide) (by decide +kernel) (by decide +kernel)
    (by decide +kernel) (by decide +kernel)

theorem poolRun_rewards_covered_sample :
    ∃ p, (play (sampleOpened 2) sampleRewards).pools samplePool.state = some p ∧
      p.remainingRewards + ∑ u, (((play (sampleOpened 2) sampleRewards).userStake u).amount * p.accruedPerShare /
          precision - ((play (sampleOpened 2) sampleRewards).userStake u).rewardDebt) ≤
        (play (sampleOpened 2) sampleRewards).balance (.rewardVault samplePool.state) ∧
      (∀ c : ClaimRewards, c.state = samplePool.state →
        claimRewards c (play (sampleOpened 2) sampleRewards) ≠ .error (.runtime .insufficientFunds)) ∧
      ∀ (c : Unstake) (amount : ℕ), c.state = samplePool.state →
        unstake c amount (play (sampleOpened 2) sampleRewards) = .error (.runtime .insufficientFunds) →
        (play (sampleOpened 2) sampleRewards).balance (.stakeVault samplePool.state) < amount :=
  poolRun_rewards_covered sampleRewards_run (by decide +kernel)

/-- One token a second is released to one staker, then to two others whose debts are rounded down. -/
def sampleRounded : List Act :=
  [sampleReward 2, sampleStake 2 2, .wait 22, sampleUnstake 2 2, sampleStake 3 1, sampleStake 4 1, .wait 23,
    sampleClaim 3]

/-- The reward vault is a token short of what the stakers have earned: the last of them can neither
claim nor unstake. -/
theorem rewards_short :
    PoolRun samplePool 1 (sampleOpened 1) (steps (sampleOpened 1) sampleRounded)
      (play (sampleOpened 1) sampleRounded) ∧
    (∃ p, (play (sampleOpened 1) sampleRounded).pools 1 = some p ∧
      (play (sampleOpened 1) sampleRounded).balance (.rewardVault 1) <
        p.remainingRewards + ∑ u, (((play (sampleOpened 1) sampleRounded).userStake u).amount * p.accruedPerShare /
          precision - ((play (sampleOpened 1) sampleRounded).userStake u).rewardDebt)) ∧
    exec (.claimRewards ⟨1, 4, 100, .ata (.key 4) 100⟩) (play (sampleOpened 1) sampleRounded) =
      .error (.runtime .insufficientFunds) ∧
    exec (.unstake ⟨1, 4, 100, .ata (.key 4) 100⟩ 1) (play (sampleOpened 1) sampleRounded) =
      .error (.runtime .insufficientFunds) := by
  have hpool : (play (sampleOpened 1) sampleRounded).pools 1 = some ⟨1, 23, 1000000000000, 2, 0⟩ := by decide +kernel
  refine ⟨poolRun_play sampleWorld_genesis (by decide +kernel) (by decide) (by decide +kernel) (by decide +kernel)
    (by decide +kernel) (by decide +kernel), ⟨_, hpool, ?_⟩, exec_of_failure (by decide +kernel),
    exec_of_failure (by decide +kernel)⟩
  refine lt_of_lt_of_le ?_ ((Custody.le_sum _ (4 : Pubkey)).trans (Nat.le_add_left _ _))
  decide +kernel

end Presale

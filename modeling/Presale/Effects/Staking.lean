/-
What a successful staking call found and did.
-/
import Presale.Effects.Transfer
import Presale.Program.Staking

namespace Presale

open Checked World

/-! ## The pool update -/

/-- The rewards an update at `now` releases to the stakers. -/
def StakePool.released (pool : StakePool) (now : ℤ) : ℕ :=
  if pool.lastUpdateTime < now ∧ 0 < pool.totalStaked then
    min ((now - pool.lastUpdateTime).toNat * pool.rewardRatePerSecond) pool.remainingRewards
  else 0

/-- The pool brought up to date. -/
def StakePool.updated (pool : StakePool) (now : ℤ) : StakePool :=
  { pool with
    lastUpdateTime := max pool.lastUpdateTime now
    accruedPerShare := pool.accruedPerShare + pool.released now * precision / pool.totalStaked
    remainingRewards := pool.remainingRewards - pool.released now }

theorem released_le (pool : StakePool) (now : ℤ) : pool.released now ≤ pool.remainingRewards := by
  unfold StakePool.released
  split
  · exact Nat.min_le_right _ _
  · exact Nat.zero_le _

theorem accrue_ok {pool pool' : StakePool} {scheduled : ℕ} (h : accrue pool scheduled = .ok pool') :
    pool' = { pool with
      accruedPerShare := pool.accruedPerShare +
        (if 0 < pool.totalStaked then min scheduled pool.remainingRewards else 0) * precision / pool.totalStaked
      remainingRewards := pool.remainingRewards -
        if 0 < pool.totalStaked then min scheduled pool.remainingRewards else 0 } := by
  unfold accrue at h
  split at h
  · rename_i hpos
    simp only [bind_ok_iff, okOr_eq_ok, mul_eq_some, add_eq_some, sub_eq_some, pure_ok_iff] at h
    obtain ⟨_, ⟨-, rfl⟩, _, ⟨-, rfl⟩, _, ⟨-, rfl⟩, rfl⟩ := h
    rw [if_pos hpos.1]
  · rename_i hneg
    cases h
    -- nothing staked, or nothing left to release
    have hzero : (if 0 < pool.totalStaked then min scheduled pool.remainingRewards else 0) = 0 := by
      split <;> omega
    rw [hzero]
    simp

/-- A successful update brings the pool up to date. -/
theorem updatePool_ok {pool pool' : StakePool} {now : ℤ} (h : updatePool pool now = .ok pool') :
    pool' = pool.updated now := by
  unfold updatePool at h
  unfold StakePool.updated StakePool.released
  split at h
  · rename_i hle
    cases h
    rw [if_neg (by omega), max_eq_left hle]
    simp
  · rename_i hlt
    simp only [bind_ok_iff, okOr_eq_ok, signed_eq_some, mul_eq_some, pure_ok_iff] at h
    obtain ⟨_, ⟨-, rfl⟩, _, ⟨-, rfl⟩, p, hp, rfl⟩ := h
    rw [accrue_ok hp, max_eq_right (by omega)]
    by_cases hs : 0 < pool.totalStaked
    · rw [if_pos hs, if_pos ⟨by omega, hs⟩]
    · rw [if_neg hs, if_neg (by omega)]

/-- A pool that is up to date is left as it is. -/
theorem updatePool_current {pool : StakePool} {now : ℤ} (h : now ≤ pool.lastUpdateTime) :
    updatePool pool now = .ok pool ∧ pool.updated now = pool := by
  have hsame : updatePool pool now = .ok pool := if_pos h
  exact ⟨hsame, (updatePool_ok hsame).symm⟩

/-! ## Rewards -/

/-- The reward a record has accrued in a pool since its debt was set, in whole tokens. -/
def UserStake.pending (s : UserStake) (pool : StakePool) : ℕ :=
  s.amount * pool.accruedPerShare / precision - s.rewardDebt

/-- The debt a position of `amount` is given in a pool. -/
def StakePool.debt (pool : StakePool) (amount : ℕ) : ℕ := amount * pool.accruedPerShare / precision

theorem accruedRewards_ok {amount accrued r : ℕ} (h : accruedRewards amount accrued = .ok r) :
    r = amount * accrued / precision := by
  simp only [accruedRewards, bind_ok_iff, okOr_eq_ok, mul_eq_some, pure_ok_iff] at h
  obtain ⟨_, ⟨-, rfl⟩, rfl⟩ := h
  rfl

/-- The payout is the pending reward cut to `u64`; the debt does not exceed what has accrued. -/
theorem pendingRewards_ok {s : UserStake} {pool : StakePool} {r : ℕ} (h : pendingRewards s pool = .ok r) :
    r = s.pending pool % 2 ^ 64 ∧ s.rewardDebt ≤ s.amount * pool.accruedPerShare / precision := by
  simp only [pendingRewards, bind_ok_iff, okOr_eq_ok, sub_eq_some, pure_ok_iff] at h
  obtain ⟨_, hacc, _, ⟨hle, rfl⟩, rfl⟩ := h
  obtain rfl := accruedRewards_ok hacc
  exact ⟨rfl, hle⟩

/-! ## Eligibility -/

/-- The sale has ended, is finalized, not paused, and met its soft cap. -/
structure PresaleState.StakingAllowed (st : PresaleState) (now : ℤ) : Prop where
  notPaused : ¬ st.isPaused
  finalized : ¬ st.isActive
  ended : st.endTime < now
  softCap : st.softCapLamports ≤ st.totalRaisedLamports

theorem ensureStakingAllowed_ok {st : PresaleState} {now : ℤ} {u : Unit}
    (h : ensureStakingAllowed st now = .ok u) : st.StakingAllowed now := by
  simp only [ensureStakingAllowed, bind_ok_iff, require_eq_ok] at h
  obtain ⟨_, hp, _, hf, hs⟩ := h
  exact ⟨hp, hf.1, hf.2, hs⟩

/-! ## Pool administration -/

/-- What no staking call touches. -/
structure SaleKept (w w' : World) : Prop where
  clock : w'.clock = w.clock
  states : w'.states = w.states
  vestings : w'.vestings = w.vestings
  mints : w'.mints = w.mints
  lamports : w'.lamports = w.lamports

structure PoolOpened (ctx : InitializeStaking) (rewardRate : ℕ) (w w' : World) (st : PresaleState) : Prop where
  state : w.states ctx.state = some st
  fresh : w.pools ctx.state = none
  admin : ctx.admin = st.admin
  rate : rewardRate ≤ maxRewardRatePerSecond
  noStakeVault : w.tokenAccounts (.stakeVault ctx.state) = none
  noRewardVault : w.tokenAccounts (.rewardVault ctx.state) = none
  pools : w'.pools = Function.update w.pools ctx.state (some
    { rewardRatePerSecond := rewardRate, lastUpdateTime := w.clock, accruedPerShare := 0, totalStaked := 0,
      remainingRewards := 0 })
  tokenAccounts : w'.tokenAccounts =
    Function.update (Function.update w.tokenAccounts (.stakeVault ctx.state)
      (some ⟨ctx.mint, .vaultAuthority ctx.state, 0⟩)) (.rewardVault ctx.state)
      (some ⟨ctx.mint, .vaultAuthority ctx.state, 0⟩)
  userStakes : w'.userStakes = w.userStakes
  kept : SaleKept w w'

theorem initializeStaking_ok {ctx : InitializeStaking} {rate : ℕ} {w w' : World}
    (h : initializeStaking ctx rate w = .ok w') : ∃ st, PoolOpened ctx rate w w' st := by
  unfold initializeStaking InitializeStaking.tryAccounts account at h
  simp only [bind_ok_iff, require_eq_ok, okOr_eq_ok, pure_ok_iff, Prod.exists, Prod.mk.injEq] at h
  obtain ⟨_, _, ⟨st, hst, _, -, _, hfresh, w₁, hstake, w₂, hreward, rfl, rfl⟩, _, hadmin, _, hrate, rfl⟩ := h
  obtain ⟨hnoStake, rfl⟩ := createTokenAccount_ok hstake
  obtain ⟨hnoReward, rfl⟩ := createTokenAccount_ok hreward
  have hne : Address.rewardVault ctx.state ≠ .stakeVault ctx.state := by simp
  rw [setTokenAccount_tokenAccounts, Function.update_of_ne hne] at hnoReward
  exact ⟨_, ⟨hst, hfresh, hadmin, hrate, hnoStake, hnoReward, rfl, rfl, rfl, ⟨rfl, rfl, rfl, rfl, rfl⟩⟩⟩

theorem initializeStaking_mint {ctx : InitializeStaking} {rate : ℕ} {w w' : World}
    (h : initializeStaking ctx rate w = .ok w') :
    ∃ m, w.mints ctx.mint = some m := by
  unfold initializeStaking InitializeStaking.tryAccounts account at h
  obtain ⟨_, hacc, -⟩ := bind_ok_iff.1 h
  obtain ⟨_, -, hacc⟩ := bind_ok_iff.1 hacc
  obtain ⟨m, hm, -⟩ := bind_ok_iff.1 hacc
  exact ⟨m, okOr_eq_ok.1 hm⟩

theorem initializeStaking_succeeds {ctx : InitializeStaking} {rate : ℕ} {w : World} {st : PresaleState}
    (hst : w.states ctx.state = some st)
    (hadmin : ctx.admin = st.admin) (hfresh : w.pools ctx.state = none)
    (hstake : w.tokenAccounts (.stakeVault ctx.state) = none) (hreward : w.tokenAccounts (.rewardVault ctx.state) = none)
    (hm : ∃ m, w.mints ctx.mint = some m) (hrate : rate ≤ maxRewardRatePerSecond) :
    ∃ w', initializeStaking ctx rate w = .ok w' := by
  have hne : Address.rewardVault ctx.state ≠ .stakeVault ctx.state := by simp
  unfold initializeStaking InitializeStaking.tryAccounts account
  obtain ⟨m, hm⟩ := hm
  simp only [bind_ok_iff, require_eq_ok, okOr_eq_ok, pure_ok_iff]
  refine ⟨_, (st, _), ⟨st, hst, m, hm, (), hfresh, _, createTokenAccount_succeeds hstake ⟨m, hm⟩, _,
    createTokenAccount_succeeds ?_ ⟨m, hm⟩, rfl⟩, (), hadmin, (), hrate, rfl⟩
  rw [setTokenAccount_tokenAccounts, Function.update_of_ne hne]
  exact hreward

structure RewardsFunded (ctx : FundRewardVault) (amount : ℕ) (w w' : World) (st : PresaleState)
    (p : StakePool) : Prop where
  state : w.states ctx.state = some st
  pool : w.pools ctx.state = some p
  admin : ctx.admin = st.admin
  pos : 0 < amount
  source : ∃ a, w.tokenAccounts ctx.adminTokenAccount = some a ∧ a.owner = .key ctx.admin
  move : TokenMove w.tokenAccounts w'.tokenAccounts ctx.adminTokenAccount (.rewardVault ctx.state) amount
  fits : p.remainingRewards + amount < 2 ^ 64
  pools : w'.pools = Function.update w.pools ctx.state
    (some { p with remainingRewards := p.remainingRewards + amount })
  userStakes : w'.userStakes = w.userStakes
  kept : SaleKept w w'

theorem fundRewardVault_ok {ctx : FundRewardVault} {amount : ℕ} {w w' : World}
    (h : fundRewardVault ctx amount w = .ok w') : ∃ st pool, RewardsFunded ctx amount w w' st pool := by
  unfold fundRewardVault FundRewardVault.tryAccounts account at h
  simp only [bind_ok_iff, require_eq_ok, okOr_eq_ok, add_eq_some, pure_ok_iff, Prod.exists, Prod.mk.injEq] at h
  obtain ⟨_, _, _, ⟨st, hst, pool, hpool, _, -, a, ha, _, -, _, howner, _, -, _, -, rfl, rfl, rfl⟩, _, hadmin, _, hpos,
    w₁, htr, _, ⟨hfits, rfl⟩, rfl⟩ := h
  obtain ⟨-, hmove, hw₁⟩ := transferChecked_ok htr
  refine ⟨_, _, ⟨hst, hpool, hadmin, hpos, ⟨a, ha, howner⟩, hmove, hfits, ?_, ?_, ?_⟩⟩
  · rw [hw₁]; rfl
  · rw [hw₁]; rfl
  · rw [hw₁]; exact ⟨rfl, rfl, rfl, rfl, rfl⟩

/-! ## Stakers -/

structure Staked (ctx : Stake) (amount : ℕ) (w w' : World) (st : PresaleState) (p : StakePool) : Prop where
  state : w.states ctx.state = some st
  pool : w.pools ctx.state = some p
  pos : 0 < amount
  allowed : st.StakingAllowed w.clock
  updated : updatePool p w.clock = .ok (p.updated w.clock)
  source : ∃ a, w.tokenAccounts ctx.userToken = some a ∧ a.owner = .key ctx.user
  move : TokenMove w.tokenAccounts w'.tokenAccounts ctx.userToken (.stakeVault ctx.state) amount
  amountFits : (w.userStake ctx.user).amount + amount < 2 ^ 64
  totalFits : p.totalStaked + amount < 2 ^ 64
  pools : w'.pools = Function.update w.pools ctx.state
    (some { p.updated w.clock with totalStaked := p.totalStaked + amount })
  userStakes : w'.userStakes = Function.update w.userStakes ctx.user
    (some { user := ctx.user, amount := (w.userStake ctx.user).amount + amount,
            rewardDebt := (p.updated w.clock).debt ((w.userStake ctx.user).amount + amount) })
  kept : SaleKept w w'

theorem Stake.tryAccounts_ok {ctx : Stake} {w : World} {st : PresaleState} {pool : StakePool} {s : UserStake} {m : Mint}
    (h : ctx.tryAccounts w = .ok (st, pool, s, m)) :
    w.states ctx.state = some st ∧ w.pools ctx.state = some pool ∧ s = w.userStake ctx.user ∧
      ∃ a, w.tokenAccounts ctx.userToken = some a ∧ a.owner = .key ctx.user := by
  unfold Stake.tryAccounts account at h
  simp only [bind_ok_iff, okOr_eq_ok, require_eq_ok, pure_ok_iff, Prod.mk.injEq] at h
  obtain ⟨_, hst, _, hpool, _, -, _, -, a, ha, _, -, _, howner, _, -, rfl, rfl, rfl, -⟩ := h
  exact ⟨hst, hpool, rfl, a, ha, howner⟩

theorem stake_ok {ctx : Stake} {amount : ℕ} {w w' : World} (h : stake ctx amount w = .ok w') :
    ∃ st pool, Staked ctx amount w w' st pool := by
  unfold stake at h
  obtain ⟨⟨st, pool, s, m⟩, hacc, h⟩ := bind_ok_iff.1 h
  obtain ⟨hst, hpool, rfl, hsource⟩ := Stake.tryAccounts_ok hacc
  simp only [bind_ok_iff, require_eq_ok, okOr_eq_ok, add_eq_some, pure_ok_iff] at h
  obtain ⟨_, hpos, _, hallowed, p, hp, w₁, htr, _, ⟨hamount, rfl⟩, _, ⟨htotal, rfl⟩, _, hdebt, rfl⟩ := h
  obtain ⟨-, hmove, hw₁⟩ := transferChecked_ok htr
  obtain rfl := updatePool_ok hp
  obtain rfl := accruedRewards_ok hdebt
  refine ⟨_, _, ⟨hst, hpool, hpos, ensureStakingAllowed_ok hallowed, hp, hsource, hmove, hamount, htotal, ?_, ?_, ?_⟩⟩
  · rw [hw₁]; rfl
  · rw [hw₁]; rfl
  · rw [hw₁]; exact ⟨rfl, rfl, rfl, rfl, rfl⟩

/-- A pending reward goes from the reward vault to a user's token account, or there is none. -/
structure RewardPaid (state : Pubkey) (userToken : Address) (paid : ℕ) (f f' : TokenAccounts) : Prop where
  move : (paid = 0 ∧ f' = f) ∨ TokenMove f f' (.rewardVault state) userToken paid

structure Unstaked (ctx : Unstake) (amount : ℕ) (w w' : World) (st : PresaleState) (p : StakePool)
    (s : UserStake) (paid : ℕ) : Prop where
  state : w.states ctx.state = some st
  pool : w.pools ctx.state = some p
  record : w.userStakes ctx.user = some s
  pos : 0 < amount
  allowed : st.StakingAllowed w.clock
  updated : updatePool p w.clock = .ok (p.updated w.clock)
  target : ∃ a, w.tokenAccounts ctx.userToken = some a ∧ a.owner = .key ctx.user
  debtLe : s.rewardDebt ≤ s.amount * (p.updated w.clock).accruedPerShare / precision
  paidEq : paid = s.pending (p.updated w.clock) % 2 ^ 64
  moves : ∃ f, RewardPaid ctx.state ctx.userToken paid w.tokenAccounts f ∧
    TokenMove f w'.tokenAccounts (.stakeVault ctx.state) ctx.userToken amount
  amountLe : amount ≤ s.amount
  totalLe : amount ≤ p.totalStaked
  pools : w'.pools = Function.update w.pools ctx.state
    (some { p.updated w.clock with totalStaked := p.totalStaked - amount })
  userStakes : w'.userStakes = Function.update w.userStakes ctx.user
    (some { s with amount := s.amount - amount, rewardDebt := (p.updated w.clock).debt (s.amount - amount) })
  kept : SaleKept w w'

theorem payPending_ok {ctx : Unstake} {pending decimals : ℕ} {w w' : World}
    (h : payPending ctx pending decimals w = .ok w') :
    RewardPaid ctx.state ctx.userToken pending w.tokenAccounts w'.tokenAccounts ∧
      w' = { w with tokenAccounts := w'.tokenAccounts } := by
  unfold payPending at h
  split at h
  · obtain ⟨-, hmove, hw⟩ := transferChecked_ok h
    exact ⟨⟨.inr hmove⟩, hw⟩
  · rename_i hzero
    cases h
    exact ⟨⟨.inl ⟨by omega, rfl⟩⟩, rfl⟩

/-- The accounts an unstake works with. -/
structure UnstakeAccounts.Found (ctx : Unstake) (w : World) (a : UnstakeAccounts) : Prop where
  state : w.states ctx.state = some a.state
  pool : w.pools ctx.state = some a.pool
  userStake : w.userStakes ctx.user = some a.userStake
  mint : w.mints ctx.mint = some a.mint
  stakeVault : w.tokenAccounts (.stakeVault ctx.state) = some a.stakeVault
  rewardVault : w.tokenAccounts (.rewardVault ctx.state) = some a.rewardVault
  userToken : w.tokenAccounts ctx.userToken = some a.userToken

theorem Unstake.tryAccounts_ok {ctx : Unstake} {w : World} {a : UnstakeAccounts} (h : ctx.tryAccounts w = .ok a) :
    a.Found ctx w := by
  unfold Unstake.tryAccounts account at h
  simp only [bind_ok_iff, okOr_eq_ok, pure_ok_iff] at h
  obtain ⟨_, hst, _, hp, _, hs, _, hm, _, ht, _, hr, _, hu, rfl⟩ := h
  exact ⟨hst, hp, hs, hm, ht, hr, hu⟩

theorem unstake_ok {ctx : Unstake} {amount : ℕ} {w w' : World} (h : unstake ctx amount w = .ok w') :
    ∃ st pool s paid, Unstaked ctx amount w w' st pool s paid := by
  unfold unstake at h
  obtain ⟨a, hacc, h⟩ := bind_ok_iff.1 h
  have hfound := Unstake.tryAccounts_ok hacc
  simp only [bind_ok_iff, require_eq_ok, okOr_eq_ok, sub_eq_some, pure_ok_iff] at h
  obtain ⟨_, hpos, _, hallowed, _, -, _, -, _, howner, _, -, _, -, _, -, p, hp, paid, hpaid, w₁, hpay, w₂, htr, _,
    ⟨hamount, rfl⟩, _, ⟨htotal, rfl⟩, _, hdebt, rfl⟩ := h
  obtain ⟨hreward, hw₁⟩ := payPending_ok hpay
  obtain ⟨-, hmove, hw₂⟩ := transferChecked_ok htr
  obtain rfl := updatePool_ok hp
  obtain rfl := accruedRewards_ok hdebt
  obtain ⟨hpaidEq, hle⟩ := pendingRewards_ok hpaid
  refine ⟨_, _, _, _, ⟨hfound.state, hfound.pool, hfound.userStake, hpos, ensureStakingAllowed_ok hallowed, hp,
    ⟨_, hfound.userToken, howner⟩, hle, hpaidEq, ⟨_, hreward, hmove⟩, hamount, htotal, ?_, ?_, ?_⟩⟩
  · rw [hw₂, hw₁]; rfl
  · rw [hw₂, hw₁]; rfl
  · rw [hw₂, hw₁]; exact ⟨rfl, rfl, rfl, rfl, rfl⟩

structure RewardsClaimed (ctx : ClaimRewards) (w w' : World) (st : PresaleState) (p : StakePool)
    (s : UserStake) (paid : ℕ) : Prop where
  state : w.states ctx.state = some st
  pool : w.pools ctx.state = some p
  record : w.userStakes ctx.user = some s
  allowed : st.StakingAllowed w.clock
  updated : updatePool p w.clock = .ok (p.updated w.clock)
  target : ∃ a, w.tokenAccounts ctx.userToken = some a ∧ a.owner = .key ctx.user
  debtLe : s.rewardDebt ≤ s.amount * (p.updated w.clock).accruedPerShare / precision
  paidEq : paid = s.pending (p.updated w.clock) % 2 ^ 64
  pos : 0 < paid
  move : TokenMove w.tokenAccounts w'.tokenAccounts (.rewardVault ctx.state) ctx.userToken paid
  pools : w'.pools = Function.update w.pools ctx.state (some (p.updated w.clock))
  userStakes : w'.userStakes = Function.update w.userStakes ctx.user
    (some { s with rewardDebt := (p.updated w.clock).debt s.amount })
  kept : SaleKept w w'

theorem ClaimRewards.tryAccounts_ok {ctx : ClaimRewards} {w : World} {st : PresaleState} {pool : StakePool}
    {s : UserStake} {m : Mint} (h : ctx.tryAccounts w = .ok (st, pool, s, m)) :
    w.states ctx.state = some st ∧ w.pools ctx.state = some pool ∧ w.userStakes ctx.user = some s ∧
      ∃ a, w.tokenAccounts ctx.userToken = some a ∧ a.owner = .key ctx.user := by
  unfold ClaimRewards.tryAccounts account at h
  simp only [bind_ok_iff, okOr_eq_ok, require_eq_ok, pure_ok_iff, Prod.mk.injEq] at h
  obtain ⟨_, hst, _, hpool, _, hs, _, -, _, -, a, ha, _, -, _, howner, _, -, rfl, rfl, rfl, -⟩ := h
  exact ⟨hst, hpool, hs, a, ha, howner⟩

theorem claimRewards_ok {ctx : ClaimRewards} {w w' : World} (h : claimRewards ctx w = .ok w') :
    ∃ st pool s paid, RewardsClaimed ctx w w' st pool s paid := by
  unfold claimRewards at h
  obtain ⟨⟨st, pool, s, m⟩, hacc, h⟩ := bind_ok_iff.1 h
  obtain ⟨hst, hpool, hs, htarget⟩ := ClaimRewards.tryAccounts_ok hacc
  simp only [bind_ok_iff, require_eq_ok, pure_ok_iff] at h
  obtain ⟨_, hallowed, p, hp, paid, hpaid, _, hpos, _, hdebt, w₁, htr, rfl⟩ := h
  obtain ⟨-, hmove, hw₁⟩ := transferChecked_ok htr
  obtain rfl := updatePool_ok hp
  obtain rfl := accruedRewards_ok hdebt
  obtain ⟨hpaidEq, hle⟩ := pendingRewards_ok hpaid
  refine ⟨_, _, _, _, ⟨hst, hpool, hs, ensureStakingAllowed_ok hallowed, hp, htarget, hle, hpaidEq, hpos, hmove,
    ?_, ?_, ?_⟩⟩
  · rw [hw₁]; rfl
  · rw [hw₁]; rfl
  · rw [hw₁]; exact ⟨rfl, rfl, rfl, rfl, rfl⟩

/-! ## Running short -/

/-- A failure of the handler itself, not of the token program. -/
def Error.IsOwn (e : Error) : Prop := ∀ r, e ≠ .runtime r

theorem isOwn_presale (e : PresaleError) : (Error.presale e).IsOwn := by simp [Error.IsOwn]

theorem isOwn_panic : Error.panic.IsOwn := by simp [Error.IsOwn]

theorem accrue_own (pool : StakePool) (scheduled : ℕ) : Fails Error.IsOwn (accrue pool scheduled) := by
  unfold accrue
  split
  · exact .bind (.okOr isOwn_panic) fun _ _ => .bind (.okOr (isOwn_presale _)) fun _ _ =>
      .bind (.okOr (isOwn_presale _)) fun _ _ => .pure _
  · exact .pure _

theorem updatePool_own (pool : StakePool) (now : ℤ) : Fails Error.IsOwn (updatePool pool now) := by
  unfold updatePool
  split
  · exact .pure _
  · exact .bind (.okOr isOwn_panic) fun _ _ => .bind (.okOr (isOwn_presale _)) fun _ _ =>
      .bind (accrue_own _ _) fun _ _ => .pure _

theorem accruedRewards_own (amount accrued : ℕ) : Fails Error.IsOwn (accruedRewards amount accrued) :=
  .bind (.okOr isOwn_panic) fun _ _ => .pure _

theorem pendingRewards_own (s : UserStake) (pool : StakePool) : Fails Error.IsOwn (pendingRewards s pool) :=
  .bind (accruedRewards_own _ _) fun _ _ => .bind (.okOr (isOwn_presale _)) fun _ _ => .pure _

theorem account_short {α : Type} (o : Option α) : Fails (· ≠ .runtime .insufficientFunds) (account o) := .okOr (by simp)

theorem ClaimRewards.tryAccounts_short (ctx : ClaimRewards) (w : World) :
    Fails (· ≠ .runtime .insufficientFunds) (ctx.tryAccounts w) := by
  unfold ClaimRewards.tryAccounts
  refine .bind (account_short _) fun _ _ => .bind (account_short _) fun _ _ => .bind (account_short _) fun _ _ =>
    .bind (account_short _) fun _ _ => .bind (account_short _) fun _ _ => .bind (account_short _) fun _ _ =>
    .bind (.require ?_) fun _ _ => .bind (.require ?_) fun _ _ => .bind (.require ?_) fun _ _ => .pure _
  all_goals simp

theorem Unstake.tryAccounts_short (ctx : Unstake) (w : World) :
    Fails (· ≠ .runtime .insufficientFunds) (ctx.tryAccounts w) := by
  unfold Unstake.tryAccounts
  exact .bind (account_short _) fun _ _ => .bind (account_short _) fun _ _ => .bind (account_short _) fun _ _ =>
    .bind (account_short _) fun _ _ => .bind (account_short _) fun _ _ => .bind (account_short _) fun _ _ =>
    .bind (account_short _) fun _ _ => .pure _

theorem ensureStakingAllowed_own (st : PresaleState) (now : ℤ) : Fails Error.IsOwn (ensureStakingAllowed st now) :=
  .bind (.require (isOwn_presale _)) fun _ _ => .bind (.require (isOwn_presale _)) fun _ _ =>
    .require (isOwn_presale _)

/-- A claim of rewards that fails for lack of tokens is one the reward vault does not cover. -/
theorem claimRewards_short {ctx : ClaimRewards} {w : World}
    (h : claimRewards ctx w = .error (.runtime .insufficientFunds)) :
    ∃ p s, w.pools ctx.state = some p ∧ w.userStakes ctx.user = some s ∧
      w.balance (.rewardVault ctx.state) < s.pending (p.updated w.clock) := by
  unfold claimRewards at h
  rcases bind_error_iff.1 h with hacc | ⟨⟨st, p, s, m⟩, hacc, h⟩
  · exact absurd rfl (ClaimRewards.tryAccounts_short _ _ _ hacc)
  obtain ⟨-, hp, hs, -⟩ := ClaimRewards.tryAccounts_ok hacc
  simp only [bind_error_iff, require_eq_ok, require_eq_error, pure_ne_error, reduceCtorEq, and_false, false_or,
    exists_false, or_false] at h
  refine ⟨p, s, hp, hs, ?_⟩
  rcases h with h | ⟨_, _, h | ⟨p', hp', h | ⟨paid, hpaid, _, _, h | ⟨_, _, htr⟩⟩⟩⟩
  · exact absurd rfl (ensureStakingAllowed_own _ _ _ h _)
  · exact absurd rfl (updatePool_own _ _ _ h _)
  · exact absurd rfl (pendingRewards_own _ _ _ h _)
  · exact absurd rfl (accruedRewards_own _ _ _ h _)
  · obtain rfl := updatePool_ok hp'
    have hshort := transferChecked_short htr
    rw [balance_eq, setUserStake_tokenAccounts, setPool_tokenAccounts, ← balance_eq] at hshort
    obtain ⟨hpaid, -⟩ := pendingRewards_ok hpaid
    exact lt_of_lt_of_le hshort (hpaid ▸ Nat.mod_le _ _)

/-- An unstake that fails for lack of tokens is one the reward vault or the stake vault does not
cover. -/
theorem unstake_short {ctx : Unstake} {amount : ℕ} {w : World}
    (h : unstake ctx amount w = .error (.runtime .insufficientFunds)) :
    (∃ p s, w.pools ctx.state = some p ∧ w.userStakes ctx.user = some s ∧
      w.balance (.rewardVault ctx.state) < s.pending (p.updated w.clock)) ∨
    w.balance (.stakeVault ctx.state) < amount := by
  unfold unstake at h
  rcases bind_error_iff.1 h with hacc | ⟨a, hacc, h⟩
  · exact absurd rfl (Unstake.tryAccounts_short _ _ _ hacc)
  have hfound := Unstake.tryAccounts_ok hacc
  simp only [bind_error_iff, require_eq_ok, require_eq_error, okOr_eq_ok, okOr_eq_error, pure_ne_error, reduceCtorEq,
    and_false, false_or, exists_false, or_false] at h
  obtain ⟨_, -, h⟩ := h
  rcases h with h | ⟨_, _, _, -, _, -, _, -, _, -, _, -, _, -, h⟩
  · exact absurd rfl (ensureStakingAllowed_own _ _ _ h _)
  rcases h with h | ⟨p', hp', h | ⟨paid, hpaid, h | ⟨w₁, hpay, h | ⟨_, _, _, _, _, _, h⟩⟩⟩⟩
  · exact absurd rfl (updatePool_own _ _ _ h _)
  · exact absurd rfl (pendingRewards_own _ _ _ h _)
  · left
    obtain rfl := updatePool_ok hp'
    obtain ⟨hpaid, -⟩ := pendingRewards_ok hpaid
    unfold payPending at h
    split at h
    · exact ⟨_, _, hfound.pool, hfound.userStake, lt_of_lt_of_le (transferChecked_short h) (hpaid ▸ Nat.mod_le _ _)⟩
    · cases h
  · right
    obtain ⟨hreward, -⟩ := payPending_ok hpay
    refine lt_of_le_of_lt ?_ (transferChecked_short h)
    rcases hreward.move with ⟨-, he⟩ | hm
    · rw [balance_eq, balance_eq, he]
    · exact hm.le_balance (by simp)
  · exact absurd rfl (accruedRewards_own _ _ _ h _)

end Presale

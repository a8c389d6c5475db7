/-
Staking (`staking.rs`) and the shared helpers (`utils.rs`).
-/
import Presale.Program.Contexts

namespace Presale

open Checked World

/-! ## Helpers -/

/-- Accrual for a pool with `delta` seconds to catch up: `distributable` tokens leave the inventory
for the stakers. -/
def accrue (pool : StakePool) (scheduledRewards : ℕ) : Except Error StakePool :=
  if pool.totalStaked > 0 ∧ pool.remainingRewards > 0 then do
    let distributable := min scheduledRewards pool.remainingRewards
    let product ← mulU128 distributable precision
    let accruedPerShare ← checkedAddU128 pool.accruedPerShare (product / pool.totalStaked)
    let remainingRewards ← checkedSub pool.remainingRewards distributable
    return { pool with accruedPerShare, remainingRewards }
  else .ok pool

def updatePool (pool : StakePool) (timestamp : ℤ) : Except Error StakePool :=
  if timestamp ≤ pool.lastUpdateTime then .ok pool
  else do
    let delta ← subI64 timestamp pool.lastUpdateTime
    let scheduledRewards ← checkedMul delta.toNat pool.rewardRatePerSecond
    let pool ← accrue pool scheduledRewards
    return { pool with lastUpdateTime := timestamp }

def ensureStakingAllowed (state : PresaleState) (timestamp : ℤ) : Except Error Unit := do
  require (¬ state.isPaused) (.presale .presaleInactive)
  require (¬ state.isActive ∧ timestamp > state.endTime) (.presale .presaleStillActive)
  require (state.totalRaisedLamports ≥ state.softCapLamports) (.presale .softCapNotMet)

/-- `user_stake.amount as u128 * pool.accrued_per_share / PRECISION`. -/
def accruedRewards (amount accruedPerShare : ℕ) : Except Error ℕ := do
  let product ← mulU128 amount accruedPerShare
  return product / precision

/-- A user's pending reward; the cast to `u64` drops the high bits. -/
def pendingRewards (userStake : UserStake) (pool : StakePool) : Except Error ℕ := do
  let accrued ← accruedRewards userStake.amount pool.accruedPerShare
  let pending ← checkedSub accrued userStake.rewardDebt
  return pending % 2 ^ 64

/-! ## Pool administration -/

def initializeStaking (ctx : InitializeStaking) (rewardRatePerSecond : ℕ) (w : World) : Except Error World := do
  let (state, w) ← ctx.tryAccounts w
  require (ctx.admin = state.admin) (.presale .unauthorized)
  require (rewardRatePerSecond ≤ maxRewardRatePerSecond) (.presale .invalidRewardRate)
  let w := w.setPool ctx.state
    { rewardRatePerSecond, lastUpdateTime := w.clock, accruedPerShare := 0, totalStaked := 0, remainingRewards := 0 }
  return w.emit (.stakingInitialized ctx.admin rewardRatePerSecond)

def fundRewardVault (ctx : FundRewardVault) (amount : ℕ) (w : World) : Except Error World := do
  let (state, pool, mint) ← ctx.tryAccounts w
  require (ctx.admin = state.admin) (.presale .unauthorized)
  require (amount > 0) (.presale .invalidTokenAmount)
  let w ← transferChecked w ctx.adminTokenAccount ctx.mint (.rewardVault ctx.state) (.key ctx.admin)
    amount mint.decimals
  let remainingRewards ← checkedAdd pool.remainingRewards amount
  let w := w.setPool ctx.state { pool with remainingRewards }
  return w.emit (.rewardVaultFunded ctx.admin amount)

/-! ## Stakers -/

def stake (ctx : Stake) (amount : ℕ) (w : World) : Except Error World := do
  let (state, pool, userStake, mint) ← ctx.tryAccounts w
  require (amount > 0) (.presale .invalidTokenAmount)
  ensureStakingAllowed state w.clock
  let pool ← updatePool pool w.clock
  let w ← transferChecked w ctx.userToken ctx.mint (.stakeVault ctx.state) (.key ctx.user) amount mint.decimals
  let userAmount ← checkedAdd userStake.amount amount
  let totalStaked ← checkedAdd pool.totalStaked amount
  let rewardDebt ← accruedRewards userAmount pool.accruedPerShare
  let w := w.setPool ctx.state { pool with totalStaked }
  let w := w.setUserStake ctx.user { user := ctx.user, amount := userAmount, rewardDebt }
  return w.emit (.staked ctx.user amount)

/-- The transfer of a pending reward out of the reward vault. -/
def payPending (ctx : Unstake) (pending decimals : ℕ) (w : World) : Except Error World :=
  if pending > 0 then
    transferChecked w (.rewardVault ctx.state) ctx.mint ctx.userToken (.vaultAuthority ctx.state) pending decimals
  else .ok w

def unstake (ctx : Unstake) (amount : ℕ) (w : World) : Except Error World := do
  let a ← ctx.tryAccounts w
  require (amount > 0) (.presale .invalidTokenAmount)
  ensureStakingAllowed a.state w.clock
  require (a.stakeVault.mint = ctx.mint) (.presale .invalidReferralMint)
  require (a.rewardVault.mint = ctx.mint) (.presale .invalidReferralMint)
  require (a.userToken.owner = .key ctx.user) (.presale .unauthorized)
  require (a.userToken.mint = ctx.mint) (.presale .invalidReferralMint)
  require (a.stakeVault.owner = .vaultAuthority ctx.state) (.presale .unauthorized)
  require (a.rewardVault.owner = .vaultAuthority ctx.state) (.presale .unauthorized)
  let pool ← updatePool a.pool w.clock
  let pending ← pendingRewards a.userStake pool
  let w ← payPending ctx pending a.mint.decimals w
  let w ← transferChecked w (.stakeVault ctx.state) ctx.mint ctx.userToken (.vaultAuthority ctx.state)
    amount a.mint.decimals
  let userAmount ← checkedSub a.userStake.amount amount
  let totalStaked ← checkedSub pool.totalStaked amount
  let rewardDebt ← accruedRewards userAmount pool.accruedPerShare
  let w := w.setPool ctx.state { pool with totalStaked }
  let w := w.setUserStake ctx.user { a.userStake with amount := userAmount, rewardDebt }
  return w.emit (.unstaked ctx.user amount pending)

def claimRewards (ctx : ClaimRewards) (w : World) : Except Error World := do
  let (state, pool, userStake, mint) ← ctx.tryAccounts w
  ensureStakingAllowed state w.clock
  let pool ← updatePool pool w.clock
  let pending ← pendingRewards userStake pool
  require (pending > 0) (.presale .nothingToClaim)
  let rewardDebt ← accruedRewards userStake.amount pool.accruedPerShare
  let w := (w.setPool ctx.state pool).setUserStake ctx.user { userStake with rewardDebt }
  let w ← transferChecked w (.rewardVault ctx.state) ctx.mint ctx.userToken (.vaultAuthority ctx.state)
    pending mint.decimals
  return w.emit (.rewardsClaimed ctx.user pending)

end Presale

/-
The account contexts of the instructions (`contexts.rs`). A context holds the accounts a caller
chooses: the presale is named by its admin, signers and mints by their keys, token accounts by
their addresses. An account whose seeds are checked is not chosen, it is read at the address the
seeds give. `tryAccounts` makes the checks of the context and hands the handler what it reads:
the accounts that must be there are read first, then the new ones are created, and the
constraints come last, each in the order of the fields.

Bumps are not part of the model, nor is the rent a payer lays out for the records created for it.
-/
import Presale.Program.Ledger

namespace Presale

open Checked World

/-! ## Administration -/

structure CreateToken where
  mint : Pubkey
  mintAuthority : Address
  adminTokenAccount : Address
  admin : Pubkey
  metadata : Address
  metadataProgram : Pubkey

structure InitializePresale where
  mint : Pubkey
  admin : Pubkey
  treasury : Address

def InitializePresale.tryAccounts (ctx : InitializePresale) (w : World) : Except Error World := do
  let _ ← account (w.mints ctx.mint)
  require (w.states ctx.admin = none) (.runtime .accountAlreadyInUse)
  let w ← createTokenAccount w (.tokenVault ctx.admin) ctx.mint (.vaultAuthority ctx.admin)
  -- lamports sent to the vault's address beforehand stay and count towards its rent
  return w.setLamports (.solVault ctx.admin) (max (w.lamports (.solVault ctx.admin)) rentMinimum)

structure FundVault where
  state : Pubkey
  admin : Pubkey
  adminTokenAccount : Address
  mint : Pubkey

def FundVault.tryAccounts (ctx : FundVault) (w : World) : Except Error (PresaleState × Mint) := do
  let state ← account (w.states ctx.state)
  let adminTokenAccount ← account (w.tokenAccounts ctx.adminTokenAccount)
  let mint ← account (w.mints ctx.mint)
  let _ ← account (w.tokenAccounts (.tokenVault ctx.state))
  require (adminTokenAccount.owner = .key ctx.admin) (.presale .unauthorized)
  require (adminTokenAccount.mint = ctx.mint) (.presale .invalidReferralMint)
  return (state, mint)

/-- `TogglePause` and `AdminOnly`. -/
structure AdminOnly where
  state : Pubkey
  admin : Pubkey

def AdminOnly.tryAccounts (ctx : AdminOnly) (w : World) : Except Error PresaleState :=
  account (w.states ctx.state)

structure WithdrawFunds where
  state : Pubkey
  treasury : Address
  admin : Pubkey

def WithdrawFunds.tryAccounts (ctx : WithdrawFunds) (w : World) : Except Error PresaleState := do
  let state ← account (w.states ctx.state)
  require (ctx.treasury = state.treasury) (.runtime .constraintAddress)
  require (ctx.admin = state.admin) (.runtime .constraintAddress)
  return state

structure AdminWithdraw where
  state : Pubkey
  admin : Pubkey
  mint : Pubkey

def AdminWithdraw.tryAccounts (ctx : AdminWithdraw) (w : World) :
    Except Error (PresaleState × Mint × TokenAccount × World) := do
  let state ← account (w.states ctx.state)
  let mint ← account (w.mints ctx.mint)
  let vault ← account (w.tokenAccounts (.tokenVault ctx.state))
  let w ← initAtaIfNeeded w ctx.admin ctx.mint
  return (state, mint, vault, w)

/-! ## Investors -/

structure BuyTokens where
  state : Pubkey
  buyer : Pubkey
  mint : Pubkey
  referrerTokenAccount : Address

def BuyTokens.tryAccounts (ctx : BuyTokens) (w : World) : Except Error (PresaleState × Mint × UserVesting) := do
  let state ← account (w.states ctx.state)
  let mint ← account (w.mints ctx.mint)
  let _ ← account (w.tokenAccounts (.tokenVault ctx.state))
  -- `init_if_needed`
  return (state, mint, w.vesting ctx.buyer)

structure ClaimVested where
  state : Pubkey
  user : Pubkey
  mint : Pubkey

def ClaimVested.tryAccounts (ctx : ClaimVested) (w : World) :
    Except Error (PresaleState × UserVesting × Mint × World) := do
  let state ← account (w.states ctx.state)
  let vesting ← account (w.vestings ctx.user)
  let mint ← account (w.mints ctx.mint)
  let _ ← account (w.tokenAccounts (.tokenVault ctx.state))
  let w ← initAtaIfNeeded w ctx.user ctx.mint
  return (state, vesting, mint, w)

structure ClaimRefund where
  state : Pubkey
  user : Pubkey

def ClaimRefund.tryAccounts (ctx : ClaimRefund) (w : World) : Except Error (PresaleState × UserVesting) := do
  let state ← account (w.states ctx.state)
  let vesting ← account (w.vestings ctx.user)
  return (state, vesting)

/-! ## Staking -/

structure InitializeStaking where
  state : Pubkey
  admin : Pubkey
  mint : Pubkey

def InitializeStaking.tryAccounts (ctx : InitializeStaking) (w : World) : Except Error (PresaleState × World) := do
  let state ← account (w.states ctx.state)
  let _ ← account (w.mints ctx.mint)
  require (w.pools ctx.state = none) (.runtime .accountAlreadyInUse)
  let w ← createTokenAccount w (.stakeVault ctx.state) ctx.mint (.vaultAuthority ctx.state)
  let w ← createTokenAccount w (.rewardVault ctx.state) ctx.mint (.vaultAuthority ctx.state)
  return (state, w)

structure FundRewardVault where
  state : Pubkey
  admin : Pubkey
  mint : Pubkey
  adminTokenAccount : Address

def FundRewardVault.tryAccounts (ctx : FundRewardVault) (w : World) :
    Except Error (PresaleState × StakePool × Mint) := do
  let state ← account (w.states ctx.state)
  let pool ← account (w.pools ctx.state)
  let mint ← account (w.mints ctx.mint)
  let adminTokenAccount ← account (w.tokenAccounts ctx.adminTokenAccount)
  let rewardVault ← account (w.tokenAccounts (.rewardVault ctx.state))
  require (adminTokenAccount.owner = .key ctx.admin) (.presale .unauthorized)
  require (adminTokenAccount.mint = ctx.mint) (.presale .invalidReferralMint)
  require (rewardVault.mint = ctx.mint) (.presale .invalidReferralMint)
  return (state, pool, mint)

structure Stake where
  state : Pubkey
  user : Pubkey
  mint : Pubkey
  userToken : Address

def Stake.tryAccounts (ctx : Stake) (w : World) : Except Error (PresaleState × StakePool × UserStake × Mint) := do
  let state ← account (w.states ctx.state)
  let pool ← account (w.pools ctx.state)
  let mint ← account (w.mints ctx.mint)
  let stakeVault ← account (w.tokenAccounts (.stakeVault ctx.state))
  let userToken ← account (w.tokenAccounts ctx.userToken)
  require (stakeVault.mint = ctx.mint) (.presale .invalidReferralMint)
  require (userToken.owner = .key ctx.user) (.presale .unauthorized)
  require (userToken.mint = ctx.mint) (.presale .invalidReferralMint)
  -- `init_if_needed`
  return (state, pool, w.userStake ctx.user, mint)

structure Unstake where
  state : Pubkey
  user : Pubkey
  mint : Pubkey
  userToken : Address

/-- What `unstake` is handed: it checks the token accounts itself. -/
structure UnstakeAccounts where
  state : PresaleState
  pool : StakePool
  userStake : UserStake
  mint : Mint
  stakeVault : TokenAccount
  rewardVault : TokenAccount
  userToken : TokenAccount

def Unstake.tryAccounts (ctx : Unstake) (w : World) : Except Error UnstakeAccounts := do
  let state ← account (w.states ctx.state)
  let pool ← account (w.pools ctx.state)
  let userStake ← account (w.userStakes ctx.user)
  let mint ← account (w.mints ctx.mint)
  let stakeVault ← account (w.tokenAccounts (.stakeVault ctx.state))
  let rewardVault ← account (w.tokenAccounts (.rewardVault ctx.state))
  let userToken ← account (w.tokenAccounts ctx.userToken)
  return { state, pool, userStake, mint, stakeVault, rewardVault, userToken }

structure ClaimRewards where
  state : Pubkey
  user : Pubkey
  mint : Pubkey
  userToken : Address

def ClaimRewards.tryAccounts (ctx : ClaimRewards) (w : World) :
    Except Error (PresaleState × StakePool × UserStake × Mint) := do
  let state ← account (w.states ctx.state)
  let pool ← account (w.pools ctx.state)
  let userStake ← account (w.userStakes ctx.user)
  let mint ← account (w.mints ctx.mint)
  let rewardVault ← account (w.tokenAccounts (.rewardVault ctx.state))
  let userToken ← account (w.tokenAccounts ctx.userToken)
  require (rewardVault.mint = ctx.mint) (.presale .invalidReferralMint)
  require (userToken.owner = .key ctx.user) (.presale .unauthorized)
  require (userToken.mint = ctx.mint) (.presale .invalidReferralMint)
  return (state, pool, userStake, mint)

end Presale

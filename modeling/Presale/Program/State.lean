/-
The records of the program (`state.rs`), its constants and errors (`constants.rs`, `errors.rs`),
its events (`events.rs`) and the checked arithmetic its handlers use.

`u8`, `u16`, `u64` and `u128` values are natural numbers and `i64` values integers; every operation
that can leave its type's range is a checked one. A wallet, or any account this program does not
derive, is a `Pubkey`; an `Address` is a public key together with how it was derived, so that
accounts derived from different seeds are different addresses.
-/
import Presale.Lib.Checked

namespace Presale

/-! ## Addresses -/

/-- A 32-byte public key. -/
def Pubkey : Type := Fin (2 ^ 256)

instance : DecidableEq Pubkey := inferInstanceAs (DecidableEq (Fin (2 ^ 256)))
instance (n : ℕ) : OfNat Pubkey n := ⟨Fin.ofNat (2 ^ 256) n⟩

/-- All public keys: too many to unfold. -/
@[irreducible] def Pubkey.all : Fintype Pubkey := inferInstanceAs (Fintype (Fin (2 ^ 256)))

instance : Fintype Pubkey := Pubkey.all

/-- An account address. A presale's config account is named by its admin, so are the accounts
derived from it. -/
inductive Address where
  | key (k : Pubkey)
  | tokenVault (admin : Pubkey)
  | solVault (admin : Pubkey)
  | vaultAuthority (admin : Pubkey)
  | stakeVault (admin : Pubkey)
  | rewardVault (admin : Pubkey)
  | mintAuthority
  | metadata (mint : Pubkey)
  | ata (owner : Address) (mint : Pubkey)
  deriving DecidableEq

/-! ## Constants -/

def precision : ℕ := 1_000_000_000_000
def maxRewardRatePerSecond : ℕ := 1_000_000_000

/-! ## Records -/

structure PresaleStage where
  pricePerToken : ℕ
  tokensAvailable : ℕ
  tokensSoldInStage : ℕ
  deriving DecidableEq

structure PresaleState where
  admin : Pubkey
  tokenMint : Pubkey
  treasury : Address
  softCapLamports : ℕ
  hardCapLamports : ℕ
  maxContributionLamports : ℕ
  tokensForSale : ℕ
  tokensSold : ℕ
  totalRaisedLamports : ℕ
  totalReferralBonuses : ℕ
  startTime : ℤ
  endTime : ℤ
  vestingDuration : ℤ
  vestingCliff : ℤ
  minClaimAmount : ℕ
  referralBonusBps : ℕ
  isActive : Bool
  isPaused : Bool
  stages : List PresaleStage
  currentStageIndex : ℕ
  adminActionsLockedUntil : ℤ
  deriving DecidableEq

/-- A fresh record is all zeros, as `init_if_needed` creates it. -/
structure UserVesting where
  user : Pubkey := 0
  totalLocked : ℕ := 0
  alreadyClaimed : ℕ := 0
  contributedLamports : ℕ := 0
  startTime : ℤ := 0
  deriving DecidableEq

structure StakePool where
  rewardRatePerSecond : ℕ
  lastUpdateTime : ℤ
  accruedPerShare : ℕ
  totalStaked : ℕ
  remainingRewards : ℕ
  deriving DecidableEq

structure UserStake where
  user : Pubkey := 0
  amount : ℕ := 0
  rewardDebt : ℕ := 0
  deriving DecidableEq

/-- An SPL mint account. -/
structure Mint where
  /-- Who may mint; nobody once it is given up. -/
  mintAuthority : Option Address
  decimals : ℕ
  deriving DecidableEq

/-- An SPL token account. -/
structure TokenAccount where
  mint : Pubkey
  owner : Address
  amount : ℕ
  deriving DecidableEq

/-! ## Errors and events -/

inductive PresaleError where
  | presaleInactive | wrongTiming | hardCapReached | soldOut | mathOverflow | walletCapExceeded
  | stageSoldOut | selfReferral | invalidReferralAccount | invalidReferralMint | presaleStillActive
  | invalidTime | belowMinClaim | cliffNotPassed | softCapNotMet | softCapMet | invalidCaps
  | invalidVesting | invalidReferralRate | invalidPrice | invalidTokenAmount
  | invalidMaxContribution | invalidStages | stageTokenMismatch | presaleAlreadyStarted
  | nothingToWithdraw | nothingToRefund | nothingToClaim | vestingNotComplete | adminActionsLocked
  | unauthorized | invalidMintAuthority | invalidRewardRate | invalidTokenMetadata
  deriving DecidableEq

/-- Errors of the account layer, the token program and the system program. -/
inductive RuntimeError where
  | accountNotInitialized | accountAlreadyInUse
  | constraintAddress | constraintTokenMint | constraintTokenOwner
  | insufficientFunds | insufficientLamports | mintMismatch | mintDecimalsMismatch | ownerMismatch
  | fixedSupply
  deriving DecidableEq

inductive Error where
  | presale (e : PresaleError)
  | runtime (e : RuntimeError)
  /-- A plain operator left its range: the release build aborts. -/
  | panic
  deriving DecidableEq

inductive Event where
  | tokenMetadataInitialized (admin mint : Pubkey) (name symbol uri : String)
  | tokenCreated (admin mint : Pubkey) (decimals initialSupply : ℕ) (mintAuthorityRevoked : Bool)
  | presaleInitialized (admin tokenMint : Pubkey) (softCap hardCap : ℕ) (startTime endTime : ℤ)
  | vaultFunded (admin : Pubkey) (amount : ℕ)
  | tokensPurchased (buyer : Pubkey) (amountSol tokensReceived stage : ℕ)
  | referralBonus (referrer : Address) (buyer : Pubkey) (bonusAmount : ℕ)
  | tokensClaimed (user : Pubkey) (amount : ℕ)
  | refundClaimed (user : Pubkey) (amountSol : ℕ)
  | presalePauseToggled (isPaused : Bool)
  | presaleFinalized (totalRaised tokensSold : ℕ) (softCapMet : Bool)
  | remainingClaimed (admin : Pubkey) (amount : ℕ)
  | stakingInitialized (admin : Pubkey) (rewardRatePerSecond : ℕ)
  | rewardVaultFunded (admin : Pubkey) (amount : ℕ)
  | staked (user : Pubkey) (amount : ℕ)
  | unstaked (user : Pubkey) (amount rewardsClaimed : ℕ)
  | rewardsClaimed (user : Pubkey) (amount : ℕ)
  | adminActionsLockSet (admin : Pubkey) (unlockTimestamp : ℤ)
  deriving DecidableEq

/-! ## Arithmetic

`a.checked_op(b).ok_or(PresaleError::MathOverflow)?` on `u64`, on `u128` where the name says so,
and the plain operators, which panic. -/

open Checked (okOr require)

abbrev checkedAdd (a b : ℕ) : Except Error ℕ := okOr (Checked.add 64 a b) (.presale .mathOverflow)
abbrev checkedSub (a b : ℕ) : Except Error ℕ := okOr (Checked.sub a b) (.presale .mathOverflow)
abbrev checkedMul (a b : ℕ) : Except Error ℕ := okOr (Checked.mul 64 a b) (.presale .mathOverflow)
abbrev checkedDiv (a b : ℕ) : Except Error ℕ := okOr (Checked.div a b) (.presale .mathOverflow)
abbrev checkedPow (a n : ℕ) : Except Error ℕ := okOr (Checked.pow 64 a n) (.presale .mathOverflow)
abbrev checkedAddU128 (a b : ℕ) : Except Error ℕ := okOr (Checked.add 128 a b) (.presale .mathOverflow)
abbrev mulU128 (a b : ℕ) : Except Error ℕ := okOr (Checked.mul 128 a b) .panic
abbrev addI64 (a b : ℤ) : Except Error ℤ := okOr (Checked.signed 64 (a + b)) .panic
abbrev subI64 (a b : ℤ) : Except Error ℤ := okOr (Checked.signed 64 (a - b)) .panic

end Presale

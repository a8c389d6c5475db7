/-
The administrator's instructions (`admin.rs`).
-/
import Presale.Program.Contexts

namespace Presale

open Checked World

/-! ## Token creation -/

/-- The Metaplex program's key. -/
def metadataProgramId : Pubkey := 0x0b7065b1e3d17c45389d527f6b04c3cd58b86c731aa0fdb549b6d1bc03f82946

/-- The admin's associated token account, created when its address holds nothing. -/
def createAdminAta (ctx : CreateToken) (w : World) : Except Error World :=
  if w.tokenAccounts ctx.adminTokenAccount = none ∧ w.lamports ctx.adminTokenAccount = 0 then do
    -- the associated token program derives the address it creates
    require (ctx.adminTokenAccount = .ata (.key ctx.admin) ctx.mint) (.runtime .constraintAddress)
    createTokenAccount w ctx.adminTokenAccount ctx.mint (.key ctx.admin)
  else return w

/-- `mint_to` under the program's mint authority, when there is a supply to mint. -/
def mintInitialSupply (ctx : CreateToken) (initialSupply : ℕ) (w : World) : Except Error World :=
  if initialSupply > 0 then mintTo w ctx.mint ctx.adminTokenAccount .mintAuthority initialSupply
  else return w

/-- The mint is created with the program's own authority, the supply goes to the admin's
associated token account, and the authority is given up. The Metaplex account is not part of the
model: nothing of this program reads it. -/
def createToken (ctx : CreateToken) (decimals initialSupply : ℕ) (name symbol uri : String) (w : World) :
    Except Error World := do
  require (name.utf8ByteSize ≤ 32) (.presale .invalidTokenMetadata)
  require (symbol.utf8ByteSize ≤ 10) (.presale .invalidTokenMetadata)
  require (uri.utf8ByteSize ≤ 200) (.presale .invalidTokenMetadata)
  require (ctx.mintAuthority = .mintAuthority) (.presale .invalidMintAuthority)
  require (ctx.metadataProgram = metadataProgramId) (.presale .invalidTokenMetadata)
  require (ctx.metadata = .metadata ctx.mint) (.presale .invalidTokenMetadata)
  require (w.mints ctx.mint = none ∧ w.tokenAccounts (.key ctx.mint) = none ∧ w.lamports (.key ctx.mint) = 0)
    (.runtime .accountAlreadyInUse)
  let w := (w.setMint ctx.mint ⟨some .mintAuthority, decimals⟩).emit (.tokenMetadataInitialized ctx.admin ctx.mint name symbol uri)
  let w ← createAdminAta ctx w
  let w ← mintInitialSupply ctx initialSupply w
  let w ← setMintAuthority w ctx.mint .mintAuthority none
  return w.emit (.tokenCreated ctx.admin ctx.mint decimals initialSupply true)

/-! ## The presale -/

structure InitializePresaleArgs where
  softCap : ℕ
  hardCap : ℕ
  maxContribution : ℕ
  tokensForSale : ℕ
  startTime : ℤ
  endTime : ℤ
  vestingDuration : ℤ
  vestingCliff : ℤ
  minClaimAmount : ℕ
  referralBonusBps : ℕ
  stages : List PresaleStage

/-- The loop over the stages: each has a price and a supply; the result is the total supply. -/
def totalStageTokens : List PresaleStage → ℕ → Except Error ℕ
  | [], total => .ok total
  | stage :: stages, total => do
    require (0 < stage.pricePerToken) (.presale .invalidPrice)
    require (0 < stage.tokensAvailable) (.presale .invalidTokenAmount)
    let total ← checkedAdd total stage.tokensAvailable
    totalStageTokens stages total

/-- The state record `initialize_presale` writes. -/
def InitializePresaleArgs.toState (args : InitializePresaleArgs) (ctx : InitializePresale) : PresaleState where
  admin := ctx.admin
  tokenMint := ctx.mint
  treasury := ctx.treasury
  softCapLamports := args.softCap
  hardCapLamports := args.hardCap
  maxContributionLamports := args.maxContribution
  tokensForSale := args.tokensForSale
  tokensSold := 0
  totalRaisedLamports := 0
  totalReferralBonuses := 0
  startTime := args.startTime
  endTime := args.endTime
  vestingDuration := args.vestingDuration
  vestingCliff := args.vestingCliff
  minClaimAmount := args.minClaimAmount
  referralBonusBps := args.referralBonusBps
  isActive := true
  isPaused := false
  stages := args.stages
  currentStageIndex := 0
  adminActionsLockedUntil := 0

def initializePresale (ctx : InitializePresale) (args : InitializePresaleArgs) (w : World) : Except Error World := do
  let w ← ctx.tryAccounts w
  require (args.startTime > w.clock) (.presale .invalidTime)
  require (args.endTime > args.startTime) (.presale .invalidTime)
  require (args.hardCap ≥ args.softCap ∧ args.hardCap > 0) (.presale .invalidCaps)
  require (args.maxContribution > 0 ∧ args.maxContribution ≤ args.hardCap) (.presale .invalidMaxContribution)
  require (args.vestingDuration > 0) (.presale .invalidVesting)
  require (args.vestingCliff ≥ 0 ∧ args.vestingCliff ≤ args.vestingDuration) (.presale .invalidVesting)
  require (args.referralBonusBps ≤ 2500) (.presale .invalidReferralRate)
  require (args.stages ≠ [] ∧ args.stages.length ≤ 5) (.presale .invalidStages)
  let total ← totalStageTokens args.stages 0
  require (total = args.tokensForSale) (.presale .stageTokenMismatch)
  let w := w.setState ctx.admin (args.toState ctx)
  return w.emit (.presaleInitialized ctx.admin ctx.mint args.softCap args.hardCap args.startTime args.endTime)

def fundPresaleVault (ctx : FundVault) (amount : ℕ) (w : World) : Except Error World := do
  let (state, mint) ← ctx.tryAccounts w
  require (ctx.admin = state.admin) (.presale .unauthorized)
  require (w.clock < state.startTime) (.presale .presaleAlreadyStarted)
  let w ← transferChecked w ctx.adminTokenAccount ctx.mint (.tokenVault ctx.state) (.key ctx.admin)
    amount mint.decimals
  return w.emit (.vaultFunded ctx.admin amount)

def togglePause (ctx : AdminOnly) (paused : Bool) (w : World) : Except Error World := do
  let state ← ctx.tryAccounts w
  require (w.clock ≥ state.adminActionsLockedUntil) (.presale .adminActionsLocked)
  require (ctx.admin = state.admin) (.presale .unauthorized)
  let w := w.setState ctx.state { state with isPaused := paused }
  return w.emit (.presalePauseToggled paused)

def finalizePresale (ctx : AdminOnly) (w : World) : Except Error World := do
  let state ← ctx.tryAccounts w
  require (w.clock ≥ state.adminActionsLockedUntil) (.presale .adminActionsLocked)
  require (ctx.admin = state.admin) (.presale .unauthorized)
  require (w.clock > state.endTime) (.presale .presaleStillActive)
  let w := w.setState ctx.state { state with isActive := false }
  return w.emit (.presaleFinalized state.totalRaisedLamports state.tokensSold
    (state.totalRaisedLamports ≥ state.softCapLamports))

def withdrawFunds (ctx : WithdrawFunds) (w : World) : Except Error World := do
  let state ← ctx.tryAccounts w
  require (w.clock ≥ state.adminActionsLockedUntil) (.presale .adminActionsLocked)
  require (ctx.admin = state.admin) (.presale .unauthorized)
  require (w.clock > state.endTime) (.presale .presaleStillActive)
  require (state.totalRaisedLamports ≥ state.softCapLamports) (.presale .softCapNotMet)
  let amount := w.lamports (.solVault ctx.state)
  require (amount > 0) (.presale .nothingToWithdraw)
  systemTransfer w (.solVault ctx.state) ctx.treasury amount

def withdrawUnsold (ctx : AdminWithdraw) (w : World) : Except Error World := do
  let (state, mint, vault, w) ← ctx.tryAccounts w
  require (w.clock ≥ state.adminActionsLockedUntil) (.presale .adminActionsLocked)
  require (ctx.admin = state.admin) (.presale .unauthorized)
  require (w.clock > state.endTime) (.presale .presaleStillActive)
  let totalLocked ← checkedAdd state.tokensSold state.totalReferralBonuses
  -- `saturating_sub`
  let withdrawable := vault.amount - totalLocked
  require (withdrawable > 0) (.presale .nothingToWithdraw)
  let w ← transferChecked w (.tokenVault ctx.state) ctx.mint (.ata (.key ctx.admin) ctx.mint)
    (.vaultAuthority ctx.state) withdrawable mint.decimals
  return w.emit (.remainingClaimed ctx.admin withdrawable)

def setAdminActionsLock (ctx : AdminOnly) (unlockTimestamp : ℤ) (w : World) : Except Error World := do
  let state ← ctx.tryAccounts w
  require (ctx.admin = state.admin) (.presale .unauthorized)
  require (unlockTimestamp > w.clock) (.presale .invalidTime)
  let w := w.setState ctx.state { state with adminActionsLockedUntil := unlockTimestamp }
  return w.emit (.adminActionsLockSet ctx.admin unlockTimestamp)

end Presale

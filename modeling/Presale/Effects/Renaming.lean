/-
Renaming the keys everywhere, in the accounts and in the arguments: what each instruction does then
is what it did, renamed. No key is treated in a way of its own, but that of the Metaplex program.
-/
import Presale.Program.Machine
import Presale.Lib.Renaming

namespace Presale

open Checked World Renaming

/-! ## Renamed records -/

def Address.rename (σ : Equiv.Perm Pubkey) : Address → Address
  | .key k => .key (σ k)
  | .tokenVault admin => .tokenVault (σ admin)
  | .solVault admin => .solVault (σ admin)
  | .vaultAuthority admin => .vaultAuthority (σ admin)
  | .stakeVault admin => .stakeVault (σ admin)
  | .rewardVault admin => .rewardVault (σ admin)
  | .mintAuthority => .mintAuthority
  | .metadata mint => .metadata (σ mint)
  | .ata owner mint => .ata (owner.rename σ) (σ mint)

theorem Address.rename_symm (σ : Equiv.Perm Pubkey) : ∀ a : Address, (a.rename σ).rename σ.symm = a
  | .key _ | .tokenVault _ | .solVault _ | .vaultAuthority _ | .stakeVault _ | .rewardVault _ | .metadata _ => by
    simp [rename]
  | .mintAuthority => rfl
  | .ata owner mint => by simp [rename, rename_symm σ owner]

/-- Renaming addresses is a renaming. -/
def addresses (σ : Equiv.Perm Pubkey) : Equiv.Perm Address where
  toFun := Address.rename σ
  invFun := Address.rename σ.symm
  left_inv := Address.rename_symm σ
  right_inv := Address.rename_symm σ.symm

section
variable (σ : Equiv.Perm Pubkey)

def PresaleState.rename (st : PresaleState) : PresaleState :=
  { st with admin := σ st.admin, tokenMint := σ st.tokenMint, treasury := st.treasury.rename σ }

def UserVesting.rename (v : UserVesting) : UserVesting := { v with user := σ v.user }

def UserStake.rename (s : UserStake) : UserStake := { s with user := σ s.user }

def Mint.rename (m : Mint) : Mint := { m with mintAuthority := m.mintAuthority.map (Address.rename σ) }

def TokenAccount.rename (t : TokenAccount) : TokenAccount := { t with mint := σ t.mint, owner := t.owner.rename σ }

def Event.rename : Event → Event
  | .tokenMetadataInitialized admin mint name symbol uri => .tokenMetadataInitialized (σ admin) (σ mint) name symbol uri
  | .tokenCreated admin mint decimals initialSupply revoked => .tokenCreated (σ admin) (σ mint) decimals initialSupply revoked
  | .presaleInitialized admin tokenMint softCap hardCap startTime endTime =>
    .presaleInitialized (σ admin) (σ tokenMint) softCap hardCap startTime endTime
  | .vaultFunded admin amount => .vaultFunded (σ admin) amount
  | .tokensPurchased buyer amountSol tokensReceived stage => .tokensPurchased (σ buyer) amountSol tokensReceived stage
  | .referralBonus referrer buyer bonusAmount => .referralBonus (referrer.rename σ) (σ buyer) bonusAmount
  | .tokensClaimed user amount => .tokensClaimed (σ user) amount
  | .refundClaimed user amountSol => .refundClaimed (σ user) amountSol
  | .presalePauseToggled isPaused => .presalePauseToggled isPaused
  | .presaleFinalized totalRaised tokensSold softCapMet => .presaleFinalized totalRaised tokensSold softCapMet
  | .remainingClaimed admin amount => .remainingClaimed (σ admin) amount
  | .stakingInitialized admin rate => .stakingInitialized (σ admin) rate
  | .rewardVaultFunded admin amount => .rewardVaultFunded (σ admin) amount
  | .staked user amount => .staked (σ user) amount
  | .unstaked user amount rewards => .unstaked (σ user) amount rewards
  | .rewardsClaimed user amount => .rewardsClaimed (σ user) amount
  | .adminActionsLockSet admin unlockTimestamp => .adminActionsLockSet (σ admin) unlockTimestamp

/-- The world with every key renamed. -/
def World.rename (w : World) : World where
  clock := w.clock
  states := carry σ (Option.map (PresaleState.rename σ)) w.states
  vestings := carry σ (Option.map (UserVesting.rename σ)) w.vestings
  pools := carry σ id w.pools
  userStakes := carry σ (Option.map (UserStake.rename σ)) w.userStakes
  mints := carry σ (Option.map (Mint.rename σ)) w.mints
  tokenAccounts := carry (addresses σ) (Option.map (TokenAccount.rename σ)) w.tokenAccounts
  lamports := carry (addresses σ) id w.lamports
  log := w.log.map (Event.rename σ)

end

/-! ## Renaming back -/

section
variable {σ : Equiv.Perm Pubkey}

theorem PresaleState.rename_symm (st : PresaleState) : (st.rename σ).rename σ.symm = st := by
  simp [rename, Address.rename_symm]

theorem UserVesting.rename_symm (v : UserVesting) : (v.rename σ).rename σ.symm = v := by simp [rename]

theorem UserStake.rename_symm (s : UserStake) : (s.rename σ).rename σ.symm = s := by simp [rename]

theorem option_rename_symm {α : Type} {f g : α → α} (h : ∀ x, g (f x) = x) (o : Option α) : (o.map f).map g = o := by
  rw [Option.map_map]
  exact (congrArg (Option.map · o) (funext h)).trans Option.map_id'

theorem Mint.rename_symm (m : Mint) : (m.rename σ).rename σ.symm = m := by
  unfold rename
  rw [option_rename_symm (Address.rename_symm σ)]

theorem TokenAccount.rename_symm (t : TokenAccount) : (t.rename σ).rename σ.symm = t := by
  simp [rename, Address.rename_symm]

theorem Event.rename_symm (e : Event) : (e.rename σ).rename σ.symm = e := by
  cases e <;> simp [rename, Address.rename_symm]

theorem World.rename_symm (w : World) : (w.rename σ).rename σ.symm = w := by
  have haddresses : addresses σ.symm = (addresses σ).symm := rfl
  have hlog : (w.log.map (Event.rename σ)).map (Event.rename σ.symm) = w.log := by
    rw [List.map_map]
    exact (List.map_congr_left fun e _ => e.rename_symm).trans (List.map_id _)
  obtain ⟨clock, states, vestings, pools, userStakes, mints, tokenAccounts, lamports, log⟩ := w
  simp only [World.rename, haddresses, carry_symm _ _ _ (option_rename_symm PresaleState.rename_symm),
    carry_symm _ _ _ (option_rename_symm UserVesting.rename_symm), carry_symm _ _ _ (option_rename_symm UserStake.rename_symm),
    carry_symm _ _ _ (option_rename_symm Mint.rename_symm), carry_symm _ _ _ (option_rename_symm TokenAccount.rename_symm),
    carry_id_symm, hlog]

end

/-! ## Renamed calls -/

section
variable (σ : Equiv.Perm Pubkey)

def CreateToken.rename (ctx : CreateToken) : CreateToken :=
  ⟨σ ctx.mint, ctx.mintAuthority.rename σ, ctx.adminTokenAccount.rename σ, σ ctx.admin, ctx.metadata.rename σ,
    σ ctx.metadataProgram⟩

def InitializePresale.rename (ctx : InitializePresale) : InitializePresale :=
  ⟨σ ctx.mint, σ ctx.admin, ctx.treasury.rename σ⟩

def FundVault.rename (ctx : FundVault) : FundVault :=
  ⟨σ ctx.state, σ ctx.admin, ctx.adminTokenAccount.rename σ, σ ctx.mint⟩

def AdminOnly.rename (ctx : AdminOnly) : AdminOnly := ⟨σ ctx.state, σ ctx.admin⟩

def WithdrawFunds.rename (ctx : WithdrawFunds) : WithdrawFunds := ⟨σ ctx.state, ctx.treasury.rename σ, σ ctx.admin⟩

def AdminWithdraw.rename (ctx : AdminWithdraw) : AdminWithdraw := ⟨σ ctx.state, σ ctx.admin, σ ctx.mint⟩

def BuyTokens.rename (ctx : BuyTokens) : BuyTokens :=
  ⟨σ ctx.state, σ ctx.buyer, σ ctx.mint, ctx.referrerTokenAccount.rename σ⟩

def ClaimVested.rename (ctx : ClaimVested) : ClaimVested := ⟨σ ctx.state, σ ctx.user, σ ctx.mint⟩

def ClaimRefund.rename (ctx : ClaimRefund) : ClaimRefund := ⟨σ ctx.state, σ ctx.user⟩

def InitializeStaking.rename (ctx : InitializeStaking) : InitializeStaking := ⟨σ ctx.state, σ ctx.admin, σ ctx.mint⟩

def FundRewardVault.rename (ctx : FundRewardVault) : FundRewardVault :=
  ⟨σ ctx.state, σ ctx.admin, σ ctx.mint, ctx.adminTokenAccount.rename σ⟩

def Stake.rename (ctx : Stake) : Stake := ⟨σ ctx.state, σ ctx.user, σ ctx.mint, ctx.userToken.rename σ⟩

def Unstake.rename (ctx : Unstake) : Unstake := ⟨σ ctx.state, σ ctx.user, σ ctx.mint, ctx.userToken.rename σ⟩

def ClaimRewards.rename (ctx : ClaimRewards) : ClaimRewards := ⟨σ ctx.state, σ ctx.user, σ ctx.mint, ctx.userToken.rename σ⟩

def Call.rename : Call → Call
  | .createToken ctx decimals initialSupply name symbol uri =>
    .createToken (ctx.rename σ) decimals initialSupply name symbol uri
  | .initializePresale ctx args => .initializePresale (ctx.rename σ) args
  | .fundPresaleVault ctx amount => .fundPresaleVault (ctx.rename σ) amount
  | .buyTokens ctx solAmount referrer => .buyTokens (ctx.rename σ) solAmount (referrer.map (Address.rename σ))
  | .claimVested ctx => .claimVested (ctx.rename σ)
  | .claimRefund ctx => .claimRefund (ctx.rename σ)
  | .togglePause ctx paused => .togglePause (ctx.rename σ) paused
  | .finalizePresale ctx => .finalizePresale (ctx.rename σ)
  | .withdrawFunds ctx => .withdrawFunds (ctx.rename σ)
  | .withdrawUnsold ctx => .withdrawUnsold (ctx.rename σ)
  | .initializeStaking ctx rewardRatePerSecond => .initializeStaking (ctx.rename σ) rewardRatePerSecond
  | .fundRewardVault ctx amount => .fundRewardVault (ctx.rename σ) amount
  | .stake ctx amount => .stake (ctx.rename σ) amount
  | .unstake ctx amount => .unstake (ctx.rename σ) amount
  | .claimRewards ctx => .claimRewards (ctx.rename σ)
  | .setAdminActionsLock ctx unlockTimestamp => .setAdminActionsLock (ctx.rename σ) unlockTimestamp

end

section
variable {σ : Equiv.Perm Pubkey} {w : World} {A k u mint : Pubkey} {a owner : Address}

/-! ## Renamed accounts

Addresses and accounts that are renamed in their parts are renamed as a whole: this is the form the
steps below are brought to. -/

@[simp] theorem key_rename : Address.key (σ k) = (Address.key k).rename σ := rfl
@[simp] theorem tokenVault_rename : Address.tokenVault (σ A) = (Address.tokenVault A).rename σ := rfl
@[simp] theorem solVault_rename : Address.solVault (σ A) = (Address.solVault A).rename σ := rfl
@[simp] theorem vaultAuthority_rename : Address.vaultAuthority (σ A) = (Address.vaultAuthority A).rename σ := rfl
@[simp] theorem stakeVault_rename : Address.stakeVault (σ A) = (Address.stakeVault A).rename σ := rfl
@[simp] theorem rewardVault_rename : Address.rewardVault (σ A) = (Address.rewardVault A).rename σ := rfl
@[simp] theorem metadata_rename : Address.metadata (σ mint) = (Address.metadata mint).rename σ := rfl
@[simp] theorem ata_rename : Address.ata (owner.rename σ) (σ mint) = (Address.ata owner mint).rename σ := rfl

@[simp] theorem Address.rename_inj {b : Address} : a.rename σ = b.rename σ ↔ a = b := (addresses σ).apply_eq_iff_eq

@[simp] theorem rename_clock : (w.rename σ).clock = w.clock := rfl

@[simp] theorem rename_states : (w.rename σ).states (σ A) = (w.states A).map (PresaleState.rename σ) :=
  carry_apply σ (Option.map (PresaleState.rename σ)) w.states A

@[simp] theorem rename_vestings : (w.rename σ).vestings (σ u) = (w.vestings u).map (UserVesting.rename σ) :=
  carry_apply σ (Option.map (UserVesting.rename σ)) w.vestings u

@[simp] theorem rename_pools : (w.rename σ).pools (σ A) = w.pools A :=
  carry_apply σ id w.pools A

@[simp] theorem rename_userStakes : (w.rename σ).userStakes (σ u) = (w.userStakes u).map (UserStake.rename σ) :=
  carry_apply σ (Option.map (UserStake.rename σ)) w.userStakes u

@[simp] theorem rename_mints : (w.rename σ).mints (σ k) = (w.mints k).map (Mint.rename σ) :=
  carry_apply σ (Option.map (Mint.rename σ)) w.mints k

@[simp] theorem rename_tokenAccounts :
    (w.rename σ).tokenAccounts (a.rename σ) = (w.tokenAccounts a).map (TokenAccount.rename σ) :=
  carry_apply (addresses σ) (Option.map (TokenAccount.rename σ)) w.tokenAccounts a

@[simp] theorem rename_lamports : (w.rename σ).lamports (a.rename σ) = w.lamports a :=
  carry_apply (addresses σ) id w.lamports a

@[simp] theorem setState_rename {st : PresaleState} :
    (w.rename σ).setState (σ A) (st.rename σ) = (w.setState A st).rename σ := by
  simp only [World.rename, setState, carry_update]
  rfl

@[simp] theorem setVesting_rename {v : UserVesting} :
    (w.rename σ).setVesting (σ u) (v.rename σ) = (w.setVesting u v).rename σ := by
  simp only [World.rename, setVesting, carry_update]
  rfl

@[simp] theorem setPool_rename {p : StakePool} : (w.rename σ).setPool (σ A) p = (w.setPool A p).rename σ := by
  simp only [World.rename, setPool, carry_update]
  rfl

@[simp] theorem setUserStake_rename {s : UserStake} :
    (w.rename σ).setUserStake (σ u) (s.rename σ) = (w.setUserStake u s).rename σ := by
  simp only [World.rename, setUserStake, carry_update]
  rfl

@[simp] theorem setMint_rename {m : Mint} : (w.rename σ).setMint (σ k) (m.rename σ) = (w.setMint k m).rename σ := by
  simp only [World.rename, setMint, carry_update]
  rfl

@[simp] theorem setTokenAccount_rename {t : TokenAccount} :
    (w.rename σ).setTokenAccount (a.rename σ) (t.rename σ) = (w.setTokenAccount a t).rename σ := by
  simp only [World.rename, setTokenAccount, carry_update]
  rfl

@[simp] theorem setLamports_rename {n : ℕ} : (w.rename σ).setLamports (a.rename σ) n = (w.setLamports a n).rename σ := by
  simp only [World.rename, setLamports, carry_update]
  rfl

@[simp] theorem emit_rename {e : Event} : (w.rename σ).emit (e.rename σ) = (w.emit e).rename σ := by
  simp only [World.rename, emit, List.map_append, List.map_cons, List.map_nil]

/-! ### Records

Their fields, other than keys, are what they were. -/

section
variable {st : PresaleState} {v : UserVesting} {s : UserStake} {t : TokenAccount} {m : Mint}

@[simp] theorem Mint.rename_mintAuthority : (m.rename σ).mintAuthority = m.mintAuthority.map (Address.rename σ) := (rfl)
@[simp] theorem Mint.rename_decimals : (m.rename σ).decimals = m.decimals := (rfl)

@[simp] theorem TokenAccount.rename_mint : (t.rename σ).mint = σ t.mint := (rfl)
@[simp] theorem TokenAccount.rename_owner : (t.rename σ).owner = t.owner.rename σ := (rfl)
@[simp] theorem TokenAccount.rename_amount : (t.rename σ).amount = t.amount := (rfl)

@[simp] theorem PresaleState.rename_admin : (st.rename σ).admin = σ st.admin := (rfl)
@[simp] theorem PresaleState.rename_tokenMint : (st.rename σ).tokenMint = σ st.tokenMint := (rfl)
@[simp] theorem PresaleState.rename_treasury : (st.rename σ).treasury = st.treasury.rename σ := (rfl)
@[simp] theorem PresaleState.rename_softCapLamports : (st.rename σ).softCapLamports = st.softCapLamports := (rfl)
@[simp] theorem PresaleState.rename_hardCapLamports : (st.rename σ).hardCapLamports = st.hardCapLamports := (rfl)
@[simp] theorem PresaleState.rename_maxContributionLamports : (st.rename σ).maxContributionLamports = st.maxContributionLamports := (rfl)
@[simp] theorem PresaleState.rename_tokensForSale : (st.rename σ).tokensForSale = st.tokensForSale := (rfl)
@[simp] theorem PresaleState.rename_tokensSold : (st.rename σ).tokensSold = st.tokensSold := (rfl)
@[simp] theorem PresaleState.rename_totalRaisedLamports : (st.rename σ).totalRaisedLamports = st.totalRaisedLamports := (rfl)
@[simp] theorem PresaleState.rename_totalReferralBonuses : (st.rename σ).totalReferralBonuses = st.totalReferralBonuses := (rfl)
@[simp] theorem PresaleState.rename_startTime : (st.rename σ).startTime = st.startTime := (rfl)
@[simp] theorem PresaleState.rename_endTime : (st.rename σ).endTime = st.endTime := (rfl)
@[simp] theorem PresaleState.rename_vestingDuration : (st.rename σ).vestingDuration = st.vestingDuration := (rfl)
@[simp] theorem PresaleState.rename_vestingCliff : (st.rename σ).vestingCliff = st.vestingCliff := (rfl)
@[simp] theorem PresaleState.rename_minClaimAmount : (st.rename σ).minClaimAmount = st.minClaimAmount := (rfl)
@[simp] theorem PresaleState.rename_referralBonusBps : (st.rename σ).referralBonusBps = st.referralBonusBps := (rfl)
@[simp] theorem PresaleState.rename_isActive : (st.rename σ).isActive = st.isActive := (rfl)
@[simp] theorem PresaleState.rename_isPaused : (st.rename σ).isPaused = st.isPaused := (rfl)
@[simp] theorem PresaleState.rename_stages : (st.rename σ).stages = st.stages := (rfl)
@[simp] theorem PresaleState.rename_currentStageIndex : (st.rename σ).currentStageIndex = st.currentStageIndex := (rfl)
@[simp] theorem PresaleState.rename_adminActionsLockedUntil : (st.rename σ).adminActionsLockedUntil = st.adminActionsLockedUntil := (rfl)

@[simp] theorem UserVesting.rename_user : (v.rename σ).user = σ v.user := (rfl)
@[simp] theorem UserVesting.rename_totalLocked : (v.rename σ).totalLocked = v.totalLocked := (rfl)
@[simp] theorem UserVesting.rename_alreadyClaimed : (v.rename σ).alreadyClaimed = v.alreadyClaimed := (rfl)
@[simp] theorem UserVesting.rename_contributedLamports : (v.rename σ).contributedLamports = v.contributedLamports := (rfl)
@[simp] theorem UserVesting.rename_startTime : (v.rename σ).startTime = v.startTime := (rfl)

@[simp] theorem UserStake.rename_user : (s.rename σ).user = σ s.user := (rfl)
@[simp] theorem UserStake.rename_amount : (s.rename σ).amount = s.amount := (rfl)

end

/-! A record not made yet is all zeros, whoever it is for. -/

@[simp] theorem rename_vesting_totalLocked : ((w.rename σ).vesting (σ u)).totalLocked = (w.vesting u).totalLocked := by
  simp only [vesting, rename_vestings]
  cases w.vestings u <;> rfl

@[simp] theorem rename_vesting_alreadyClaimed :
    ((w.rename σ).vesting (σ u)).alreadyClaimed = (w.vesting u).alreadyClaimed := by
  simp only [vesting, rename_vestings]
  cases w.vestings u <;> rfl

@[simp] theorem rename_vesting_contributedLamports :
    ((w.rename σ).vesting (σ u)).contributedLamports = (w.vesting u).contributedLamports := by
  simp only [vesting, rename_vestings]
  cases w.vestings u <;> rfl

@[simp] theorem rename_vesting_startTime : ((w.rename σ).vesting (σ u)).startTime = (w.vesting u).startTime := by
  simp only [vesting, rename_vestings]
  cases w.vestings u <;> rfl

@[simp] theorem rename_userStake_amount : ((w.rename σ).userStake (σ u)).amount = (w.userStake u).amount := by
  simp only [userStake, rename_userStakes]
  cases w.userStakes u <;> rfl

@[simp] theorem tokenAccount_rename {n : ℕ} :
    TokenAccount.mk (σ mint) (owner.rename σ) n = (TokenAccount.mk mint owner n).rename σ := rfl

@[simp] theorem userVesting_rename {locked claimed contributed : ℕ} {start : ℤ} :
    UserVesting.mk (σ u) locked claimed contributed start = (UserVesting.mk u locked claimed contributed start).rename σ :=
  rfl

@[simp] theorem userStake_rename {amount debt : ℕ} :
    UserStake.mk (σ u) amount debt = (UserStake.mk u amount debt).rename σ := rfl

@[simp] theorem presaleState_rename {soft hard contribution forSale sold raised bonuses minClaim bps idx : ℕ}
    {start stop duration cliff lock : ℤ} {active paused : Bool} {stages : List PresaleStage} :
    PresaleState.mk (σ A) (σ mint) (a.rename σ) soft hard contribution forSale sold raised bonuses start stop duration cliff
        minClaim bps active paused stages idx lock =
      (PresaleState.mk A mint a soft hard contribution forSale sold raised bonuses start stop duration cliff minClaim bps
        active paused stages idx lock).rename σ := rfl

/-! ### Events -/

section
variable {amount x y : ℕ} {from₀ until₀ : ℤ} {active : Bool} {name symbol uri : String}

@[simp] theorem tokenMetadataInitialized_rename : Event.tokenMetadataInitialized (σ A) (σ mint) name symbol uri =
    (Event.tokenMetadataInitialized A mint name symbol uri).rename σ := rfl
@[simp] theorem tokenCreated_rename : Event.tokenCreated (σ A) (σ mint) x y active =
    (Event.tokenCreated A mint x y active).rename σ := rfl
@[simp] theorem presaleInitialized_rename : Event.presaleInitialized (σ A) (σ mint) x y from₀ until₀ =
    (Event.presaleInitialized A mint x y from₀ until₀).rename σ := rfl
@[simp] theorem vaultFunded_rename : Event.vaultFunded (σ A) amount = (Event.vaultFunded A amount).rename σ := rfl
@[simp] theorem tokensPurchased_rename : Event.tokensPurchased (σ u) amount x y =
    (Event.tokensPurchased u amount x y).rename σ := rfl
@[simp] theorem referralBonus_rename : Event.referralBonus (a.rename σ) (σ u) amount =
    (Event.referralBonus a u amount).rename σ := rfl
@[simp] theorem tokensClaimed_rename : Event.tokensClaimed (σ u) amount = (Event.tokensClaimed u amount).rename σ := rfl
@[simp] theorem refundClaimed_rename : Event.refundClaimed (σ u) amount = (Event.refundClaimed u amount).rename σ := rfl
@[simp] theorem remainingClaimed_rename : Event.remainingClaimed (σ A) amount =
    (Event.remainingClaimed A amount).rename σ := rfl
@[simp] theorem stakingInitialized_rename : Event.stakingInitialized (σ A) amount =
    (Event.stakingInitialized A amount).rename σ := rfl
@[simp] theorem rewardVaultFunded_rename : Event.rewardVaultFunded (σ A) amount =
    (Event.rewardVaultFunded A amount).rename σ := rfl
@[simp] theorem staked_rename : Event.staked (σ u) amount = (Event.staked u amount).rename σ := rfl
@[simp] theorem unstaked_rename : Event.unstaked (σ u) amount x = (Event.unstaked u amount x).rename σ := rfl
@[simp] theorem rewardsClaimed_rename : Event.rewardsClaimed (σ u) amount = (Event.rewardsClaimed u amount).rename σ := rfl
@[simp] theorem adminActionsLockSet_rename : Event.adminActionsLockSet (σ A) until₀ =
    (Event.adminActionsLockSet A until₀).rename σ := rfl

/-- Two events name no key. -/
@[simp] theorem emit_presalePauseToggled : (w.rename σ).emit (.presalePauseToggled active) =
    (w.emit (.presalePauseToggled active)).rename σ :=
  emit_rename (e := .presalePauseToggled active)

@[simp] theorem emit_presaleFinalized : (w.rename σ).emit (.presaleFinalized x y active) =
    (w.emit (.presaleFinalized x y active)).rename σ :=
  emit_rename (e := .presaleFinalized x y active)

end

theorem okOr_map {α β : Type} (f : α → β) (o : Option α) (e : Error) : okOr (o.map f) e = f <$> okOr o e := by
  cases o <;> rfl

theorem account_map {α β : Type} (f : α → β) (o : Option α) : account (o.map f) = f <$> account o := okOr_map f o _

/-! ## The called programs -/

@[simp] theorem transferChecked_rename {src dst authority : Address} {amount decimals : ℕ} :
    transferChecked (w.rename σ) (src.rename σ) (σ mint) (dst.rename σ) (authority.rename σ) amount decimals =
      World.rename σ <$> transferChecked w src mint dst authority amount decimals := by
  by_cases hsd : src = dst
  · simp [transferChecked, account_map, hsd]
  · simp [transferChecked, account_map, hsd]

@[simp] theorem createTokenAccount_rename : createTokenAccount (w.rename σ) (a.rename σ) (σ mint) (owner.rename σ) =
    World.rename σ <$> createTokenAccount w a mint owner := by
  simp [createTokenAccount, account_map]

theorem mintTo_rename {dst : Address} {amount : ℕ} (authority : Address) :
    mintTo (w.rename σ) (σ mint) (dst.rename σ) (authority.rename σ) amount =
      World.rename σ <$> mintTo w mint dst authority amount := by
  simp [mintTo, account_map, okOr_map]

theorem setMintAuthority_rename (authority : Address) (newAuthority : Option Address) :
    setMintAuthority (w.rename σ) (σ mint) (authority.rename σ) (newAuthority.map (Address.rename σ)) =
      World.rename σ <$> setMintAuthority w mint authority newAuthority := by
  have hset (m : Mint) : (w.rename σ).setMint (σ mint) ⟨newAuthority.map (Address.rename σ), m.decimals⟩ =
      (w.setMint mint ⟨newAuthority, m.decimals⟩).rename σ := setMint_rename (m := ⟨newAuthority, m.decimals⟩)
  simp [setMintAuthority, account_map, okOr_map, hset]

@[simp] theorem initAtaIfNeeded_rename :
    initAtaIfNeeded (w.rename σ) (σ u) (σ mint) = World.rename σ <$> initAtaIfNeeded w u mint := by
  unfold initAtaIfNeeded
  rw [key_rename, ata_rename, rename_tokenAccounts]
  cases w.tokenAccounts (.ata (.key u) mint) with
  | none => exact createTokenAccount_rename
  | some t => simp

@[simp] theorem systemTransfer_rename {src dst : Address} {amount : ℕ} :
    systemTransfer (w.rename σ) (src.rename σ) (dst.rename σ) amount = World.rename σ <$> systemTransfer w src dst amount := by
  simp [systemTransfer]

/-! ## The instructions -/

theorem initializePresale_rename {ctx : InitializePresale} {args : InitializePresaleArgs} :
    initializePresale (ctx.rename σ) args (w.rename σ) = World.rename σ <$> initializePresale ctx args w := by
  simp [initializePresale, InitializePresale.tryAccounts, InitializePresale.rename, InitializePresaleArgs.toState, account_map]

theorem fundPresaleVault_rename {ctx : FundVault} {amount : ℕ} :
    fundPresaleVault (ctx.rename σ) amount (w.rename σ) = World.rename σ <$> fundPresaleVault ctx amount w := by
  simp [fundPresaleVault, FundVault.tryAccounts, FundVault.rename, account_map]

theorem togglePause_rename {ctx : AdminOnly} {paused : Bool} :
    togglePause (ctx.rename σ) paused (w.rename σ) = World.rename σ <$> togglePause ctx paused w := by
  simp [togglePause, AdminOnly.tryAccounts, AdminOnly.rename, account_map]

theorem finalizePresale_rename {ctx : AdminOnly} :
    finalizePresale (ctx.rename σ) (w.rename σ) = World.rename σ <$> finalizePresale ctx w := by
  simp [finalizePresale, AdminOnly.tryAccounts, AdminOnly.rename, account_map]

theorem withdrawFunds_rename {ctx : WithdrawFunds} :
    withdrawFunds (ctx.rename σ) (w.rename σ) = World.rename σ <$> withdrawFunds ctx w := by
  simp [withdrawFunds, WithdrawFunds.tryAccounts, WithdrawFunds.rename, account_map]

theorem withdrawUnsold_rename {ctx : AdminWithdraw} :
    withdrawUnsold (ctx.rename σ) (w.rename σ) = World.rename σ <$> withdrawUnsold ctx w := by
  simp [withdrawUnsold, AdminWithdraw.tryAccounts, AdminWithdraw.rename, account_map]

theorem setAdminActionsLock_rename {ctx : AdminOnly} {unlockTimestamp : ℤ} :
    setAdminActionsLock (ctx.rename σ) unlockTimestamp (w.rename σ) = World.rename σ <$> setAdminActionsLock ctx unlockTimestamp w := by
  simp [setAdminActionsLock, AdminOnly.tryAccounts, AdminOnly.rename, account_map]

theorem claimVested_rename {ctx : ClaimVested} :
    claimVested (ctx.rename σ) (w.rename σ) = World.rename σ <$> claimVested ctx w := by
  simp [claimVested, ClaimVested.tryAccounts, ClaimVested.rename, account_map]
  rfl

theorem claimRefund_rename {ctx : ClaimRefund} :
    claimRefund (ctx.rename σ) (w.rename σ) = World.rename σ <$> claimRefund ctx w := by
  simp [claimRefund, ClaimRefund.tryAccounts, ClaimRefund.rename, account_map]

@[simp] theorem createAdminAta_rename {admin program : Pubkey} {authority metadata : Address} :
    createAdminAta ⟨σ mint, authority.rename σ, a.rename σ, σ admin, metadata.rename σ, σ program⟩ (w.rename σ) =
      World.rename σ <$> createAdminAta ⟨mint, authority, a, admin, metadata, program⟩ w := by
  by_cases hfree : w.tokenAccounts a = none ∧ w.lamports a = 0
  · simp [createAdminAta, hfree]
  · simp [createAdminAta, hfree]

@[simp] theorem mintInitialSupply_rename {admin program : Pubkey} {authority metadata : Address} {initialSupply : ℕ} :
    mintInitialSupply ⟨σ mint, authority.rename σ, a.rename σ, σ admin, metadata.rename σ, σ program⟩ initialSupply
        (w.rename σ) =
      World.rename σ <$> mintInitialSupply ⟨mint, authority, a, admin, metadata, program⟩ initialSupply w := by
  by_cases hpos : 0 < initialSupply
  · simp only [mintInitialSupply, hpos, if_true]
    exact mintTo_rename .mintAuthority
  · simp [mintInitialSupply, hpos]

/-- The one key the program knows is that of the Metaplex program. -/
theorem createToken_rename {ctx : CreateToken} {decimals initialSupply : ℕ} {name symbol uri : String}
    (hσ : σ metadataProgramId = metadataProgramId) :
    createToken (ctx.rename σ) decimals initialSupply name symbol uri (w.rename σ) =
      World.rename σ <$> createToken ctx decimals initialSupply name symbol uri w := by
  have hauthority : ctx.mintAuthority.rename σ = .mintAuthority ↔ ctx.mintAuthority = .mintAuthority :=
    Address.rename_inj (b := .mintAuthority)
  have hprogram : σ ctx.metadataProgram = metadataProgramId ↔ ctx.metadataProgram = metadataProgramId := by
    conv_lhs => rw [← hσ]
    exact σ.apply_eq_iff_eq
  -- the program's own authority is nobody's key
  have hmade : (w.rename σ).setMint (σ ctx.mint) ⟨some .mintAuthority, decimals⟩ =
      (w.setMint ctx.mint ⟨some .mintAuthority, decimals⟩).rename σ := setMint_rename (m := ⟨some .mintAuthority, decimals⟩)
  have hrevoke (v : World) : setMintAuthority (v.rename σ) (σ ctx.mint) .mintAuthority none =
      World.rename σ <$> setMintAuthority v ctx.mint .mintAuthority none :=
    setMintAuthority_rename .mintAuthority none
  simp [createToken, CreateToken.rename, hauthority, hprogram, hmade, hrevoke]

theorem payReferral_rename {state buyer : Pubkey} {st : PresaleState} {m : Mint} {tokens : ℕ} {referrer : Option Address} :
    payReferral ⟨σ state, σ buyer, σ mint, a.rename σ⟩ (st.rename σ) (m.rename σ) tokens (referrer.map (Address.rename σ)) (w.rename σ) =
      (fun x => (x.1.rename σ, x.2.rename σ)) <$> payReferral ⟨state, buyer, mint, a⟩ st m tokens referrer w := by
  unfold payReferral
  cases referrer with
  | none => rfl
  | some refKey =>
    simp [apply_ite]

theorem buyTokens_rename {ctx : BuyTokens} {solAmount : ℕ} {referrer : Option Address} :
    buyTokens (ctx.rename σ) solAmount (referrer.map (Address.rename σ)) (w.rename σ) =
      World.rename σ <$> buyTokens ctx solAmount referrer w := by
  simp [buyTokens, BuyTokens.tryAccounts, BuyTokens.rename, account_map, payReferral_rename]

/-! ### Staking -/

@[simp] theorem ensureStakingAllowed_rename {st : PresaleState} {now : ℤ} :
    ensureStakingAllowed (st.rename σ) now = ensureStakingAllowed st now := rfl

@[simp] theorem pendingRewards_rename {s : UserStake} {p : StakePool} :
    pendingRewards (s.rename σ) p = pendingRewards s p := rfl

@[simp] theorem payPending_rename {state user : Pubkey} {pending decimals : ℕ} :
    payPending ⟨σ state, σ user, σ mint, a.rename σ⟩ pending decimals (w.rename σ) =
      World.rename σ <$> payPending ⟨state, user, mint, a⟩ pending decimals w := by
  by_cases hpos : 0 < pending
  · simp [payPending, hpos]
  · simp [payPending, hpos]

theorem initializeStaking_rename {ctx : InitializeStaking} {rewardRatePerSecond : ℕ} :
    initializeStaking (ctx.rename σ) rewardRatePerSecond (w.rename σ) =
      World.rename σ <$> initializeStaking ctx rewardRatePerSecond w := by
  simp [initializeStaking, InitializeStaking.tryAccounts, InitializeStaking.rename, account_map]

theorem fundRewardVault_rename {ctx : FundRewardVault} {amount : ℕ} :
    fundRewardVault (ctx.rename σ) amount (w.rename σ) = World.rename σ <$> fundRewardVault ctx amount w := by
  simp [fundRewardVault, FundRewardVault.tryAccounts, FundRewardVault.rename, account_map]

theorem stake_rename {ctx : Stake} {amount : ℕ} :
    stake (ctx.rename σ) amount (w.rename σ) = World.rename σ <$> stake ctx amount w := by
  simp [stake, Stake.tryAccounts, Stake.rename, account_map]

theorem unstake_rename {ctx : Unstake} {amount : ℕ} :
    unstake (ctx.rename σ) amount (w.rename σ) = World.rename σ <$> unstake ctx amount w := by
  simp [unstake, Unstake.tryAccounts, Unstake.rename, account_map]

theorem claimRewards_rename {ctx : ClaimRewards} :
    claimRewards (ctx.rename σ) (w.rename σ) = World.rename σ <$> claimRewards ctx w := by
  simp [claimRewards, ClaimRewards.tryAccounts, ClaimRewards.rename, account_map]

/-- Every call does to the renamed accounts the renamed thing. -/
theorem exec_rename {c : Call} (hσ : σ metadataProgramId = metadataProgramId) :
    exec (c.rename σ) (w.rename σ) = World.rename σ <$> exec c w := by
  cases c with
  | createToken => exact createToken_rename hσ
  | initializePresale => exact initializePresale_rename
  | fundPresaleVault => exact fundPresaleVault_rename
  | buyTokens => exact buyTokens_rename
  | claimVested => exact claimVested_rename
  | claimRefund => exact claimRefund_rename
  | togglePause => exact togglePause_rename
  | finalizePresale => exact finalizePresale_rename
  | withdrawFunds => exact withdrawFunds_rename
  | withdrawUnsold => exact withdrawUnsold_rename
  | initializeStaking => exact initializeStaking_rename
  | fundRewardVault => exact fundRewardVault_rename
  | stake => exact stake_rename
  | unstake => exact unstake_rename
  | claimRewards => exact claimRewards_rename
  | setAdminActionsLock => exact setAdminActionsLock_rename

end

end Presale

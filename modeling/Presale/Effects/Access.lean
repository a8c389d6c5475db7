/-
The accounts of each instruction as its context lists them: those it is given to read, and those it
is given as mutable. No instruction looks at any other account, and none changes an account it was
not given as mutable.
-/
import Presale.Program.Machine
import Presale.Lib.Footprint

namespace Presale

open Checked World Footprint

/-! ## Accounts -/

/-- What the program sees of the accounts, and the clock. -/
inductive Cell where
  | clock
  | state (admin : Pubkey)
  | vesting (user : Pubkey)
  | pool (admin : Pubkey)
  | userStake (user : Pubkey)
  | mint (k : Pubkey)
  | tokens (a : Address)
  | lamports (a : Address)
  deriving DecidableEq

def Cell.Content : Cell → Type
  | .clock => ℤ
  | .state _ => Option PresaleState
  | .vesting _ => Option UserVesting
  | .pool _ => Option StakePool
  | .userStake _ => Option UserStake
  | .mint _ => Option Mint
  | .tokens _ => Option TokenAccount
  | .lamports _ => ℕ

def World.cell (w : World) : (c : Cell) → c.Content
  | .clock => w.clock
  | .state admin => w.states admin
  | .vesting user => w.vestings user
  | .pool admin => w.pools admin
  | .userStake user => w.userStakes user
  | .mint k => w.mints k
  | .tokens a => w.tokenAccounts a
  | .lamports a => w.lamports a

/-! ## The accounts of a context

Signers are mutable throughout: they pay. -/

def CreateToken.access (ctx : CreateToken) : Access Cell where
  reads := []
  writes := [.mint ctx.mint, .tokens (.key ctx.mint), .lamports (.key ctx.mint), .tokens ctx.adminTokenAccount,
    .lamports ctx.adminTokenAccount, .lamports (.key ctx.admin)]

def InitializePresale.access (ctx : InitializePresale) : Access Cell where
  reads := [.clock, .mint ctx.mint]
  writes := [.state ctx.admin, .tokens (.tokenVault ctx.admin), .lamports (.solVault ctx.admin), .lamports (.key ctx.admin)]

def FundVault.access (ctx : FundVault) : Access Cell where
  reads := [.clock, .mint ctx.mint]
  writes := [.state ctx.state, .tokens ctx.adminTokenAccount, .tokens (.tokenVault ctx.state), .lamports (.key ctx.admin)]

def AdminOnly.access (ctx : AdminOnly) : Access Cell where
  reads := [.clock]
  writes := [.state ctx.state, .lamports (.key ctx.admin)]

def WithdrawFunds.access (ctx : WithdrawFunds) : Access Cell where
  reads := [.clock, .state ctx.state]
  writes := [.lamports (.solVault ctx.state), .lamports ctx.treasury, .lamports (.key ctx.admin)]

def AdminWithdraw.access (ctx : AdminWithdraw) : Access Cell where
  reads := [.clock, .state ctx.state, .mint ctx.mint]
  writes := [.tokens (.tokenVault ctx.state), .tokens (.ata (.key ctx.admin) ctx.mint), .lamports (.key ctx.admin)]

def BuyTokens.access (ctx : BuyTokens) : Access Cell where
  reads := [.clock, .mint ctx.mint]
  writes := [.state ctx.state, .lamports (.key ctx.buyer), .lamports (.solVault ctx.state),
    .tokens (.tokenVault ctx.state), .vesting ctx.buyer, .tokens ctx.referrerTokenAccount]

def ClaimVested.access (ctx : ClaimVested) : Access Cell where
  reads := [.clock, .state ctx.state, .mint ctx.mint]
  writes := [.vesting ctx.user, .lamports (.key ctx.user), .tokens (.tokenVault ctx.state),
    .tokens (.ata (.key ctx.user) ctx.mint)]

def ClaimRefund.access (ctx : ClaimRefund) : Access Cell where
  reads := [.clock, .state ctx.state]
  writes := [.vesting ctx.user, .lamports (.key ctx.user), .lamports (.solVault ctx.state)]

def InitializeStaking.access (ctx : InitializeStaking) : Access Cell where
  reads := [.clock, .state ctx.state, .mint ctx.mint]
  writes := [.pool ctx.state, .lamports (.key ctx.admin), .tokens (.stakeVault ctx.state),
    .tokens (.rewardVault ctx.state)]

def FundRewardVault.access (ctx : FundRewardVault) : Access Cell where
  reads := [.state ctx.state, .mint ctx.mint]
  writes := [.pool ctx.state, .lamports (.key ctx.admin), .tokens ctx.adminTokenAccount, .tokens (.rewardVault ctx.state)]

def Stake.access (ctx : Stake) : Access Cell where
  reads := [.clock, .state ctx.state, .mint ctx.mint]
  writes := [.pool ctx.state, .userStake ctx.user, .lamports (.key ctx.user), .tokens (.stakeVault ctx.state),
    .tokens ctx.userToken]

def Unstake.access (ctx : Unstake) : Access Cell where
  reads := [.clock, .state ctx.state, .mint ctx.mint]
  writes := [.pool ctx.state, .userStake ctx.user, .lamports (.key ctx.user), .tokens (.stakeVault ctx.state),
    .tokens (.rewardVault ctx.state), .tokens ctx.userToken]

def ClaimRewards.access (ctx : ClaimRewards) : Access Cell where
  reads := [.clock, .state ctx.state, .mint ctx.mint]
  writes := [.pool ctx.state, .userStake ctx.user, .lamports (.key ctx.user), .tokens (.rewardVault ctx.state),
    .tokens ctx.userToken]

/-- The accounts a call is made with. -/
def Call.access : Call → Access Cell
  | .createToken ctx _ _ _ _ _ => ctx.access
  | .initializePresale ctx _ => ctx.access
  | .fundPresaleVault ctx _ => ctx.access
  | .buyTokens ctx _ _ => ctx.access
  | .claimVested ctx => ctx.access
  | .claimRefund ctx => ctx.access
  | .togglePause ctx _ => ctx.access
  | .finalizePresale ctx => ctx.access
  | .withdrawFunds ctx => ctx.access
  | .withdrawUnsold ctx => ctx.access
  | .initializeStaking ctx _ => ctx.access
  | .fundRewardVault ctx _ => ctx.access
  | .stake ctx _ => ctx.access
  | .unstake ctx _ => ctx.access
  | .claimRewards ctx => ctx.access
  | .setAdminActionsLock ctx _ => ctx.access

/-! ## Reading and writing in step -/

/-- Two runs of a handler, from `w₀` and from `v₀`. -/
abbrev Aligned (F : Access Cell) (w₀ v₀ w v : World) : Prop := Tandem World.cell World.log F w₀ v₀ w v

section
variable {F : Access Cell} {w₀ v₀ w v : World} {A k u : Pubkey} {a : Address}

theorem Aligned.clock (h : Aligned F w₀ v₀ w v) (hc : F.Covers .clock) : w.clock = v.clock := h.agree _ hc

theorem Aligned.states (h : Aligned F w₀ v₀ w v) (hc : F.Covers (.state A)) : w.states A = v.states A := h.agree _ hc

theorem Aligned.vestings (h : Aligned F w₀ v₀ w v) (hc : F.Covers (.vesting u)) : w.vestings u = v.vestings u :=
  h.agree _ hc

theorem Aligned.pools (h : Aligned F w₀ v₀ w v) (hc : F.Covers (.pool A)) : w.pools A = v.pools A := h.agree _ hc

theorem Aligned.userStakes (h : Aligned F w₀ v₀ w v) (hc : F.Covers (.userStake u)) :
    w.userStakes u = v.userStakes u := h.agree _ hc

theorem Aligned.mints (h : Aligned F w₀ v₀ w v) (hc : F.Covers (.mint k)) : w.mints k = v.mints k := h.agree _ hc

theorem Aligned.tokenAccounts (h : Aligned F w₀ v₀ w v) (hc : F.Covers (.tokens a)) :
    w.tokenAccounts a = v.tokenAccounts a := h.agree _ hc

theorem Aligned.lamports (h : Aligned F w₀ v₀ w v) (hc : F.Covers (.lamports a)) : w.lamports a = v.lamports a :=
  h.agree _ hc

theorem cell_setState {st : PresaleState} {c : Cell} (hc : c ≠ .state A) : (w.setState A st).cell c = w.cell c := by
  cases c with
  | state => exact Function.update_of_ne (fun e => hc (congrArg _ e)) _ _
  | _ => rfl

theorem Aligned.setState (h : Aligned F w₀ v₀ w v) (hc : .state A ∈ F.writes) (st : PresaleState) :
    Aligned F w₀ v₀ (w.setState A st) (v.setState A st) := by
  refine h.write hc (fun _ => cell_setState) (fun _ => cell_setState) ?_ rfl rfl
  show Function.update w.states A (some st) A = Function.update v.states A (some st) A
  rw [Function.update_self, Function.update_self]

theorem cell_setVesting {x : UserVesting} {c : Cell} (hc : c ≠ .vesting u) : (w.setVesting u x).cell c = w.cell c := by
  cases c with
  | vesting => exact Function.update_of_ne (fun e => hc (congrArg _ e)) _ _
  | _ => rfl

theorem Aligned.setVesting (h : Aligned F w₀ v₀ w v) (hc : .vesting u ∈ F.writes) (x : UserVesting) :
    Aligned F w₀ v₀ (w.setVesting u x) (v.setVesting u x) := by
  refine h.write hc (fun _ => cell_setVesting) (fun _ => cell_setVesting) ?_ rfl rfl
  show Function.update w.vestings u (some x) u = Function.update v.vestings u (some x) u
  rw [Function.update_self, Function.update_self]

theorem cell_setPool {p : StakePool} {c : Cell} (hc : c ≠ .pool A) : (w.setPool A p).cell c = w.cell c := by
  cases c with
  | pool => exact Function.update_of_ne (fun e => hc (congrArg _ e)) _ _
  | _ => rfl

theorem Aligned.setPool (h : Aligned F w₀ v₀ w v) (hc : .pool A ∈ F.writes) (p : StakePool) :
    Aligned F w₀ v₀ (w.setPool A p) (v.setPool A p) := by
  refine h.write hc (fun _ => cell_setPool) (fun _ => cell_setPool) ?_ rfl rfl
  show Function.update w.pools A (some p) A = Function.update v.pools A (some p) A
  rw [Function.update_self, Function.update_self]

theorem cell_setUserStake {x : UserStake} {c : Cell} (hc : c ≠ .userStake u) : (w.setUserStake u x).cell c = w.cell c := by
  cases c with
  | userStake => exact Function.update_of_ne (fun e => hc (congrArg _ e)) _ _
  | _ => rfl

theorem Aligned.setUserStake (h : Aligned F w₀ v₀ w v) (hc : .userStake u ∈ F.writes) (x : UserStake) :
    Aligned F w₀ v₀ (w.setUserStake u x) (v.setUserStake u x) := by
  refine h.write hc (fun _ => cell_setUserStake) (fun _ => cell_setUserStake) ?_ rfl rfl
  show Function.update w.userStakes u (some x) u = Function.update v.userStakes u (some x) u
  rw [Function.update_self, Function.update_self]

theorem cell_setMint {m : Mint} {c : Cell} (hc : c ≠ .mint k) : (w.setMint k m).cell c = w.cell c := by
  cases c with
  | mint => exact Function.update_of_ne (fun e => hc (congrArg _ e)) _ _
  | _ => rfl

theorem Aligned.setMint (h : Aligned F w₀ v₀ w v) (hc : .mint k ∈ F.writes) (m : Mint) :
    Aligned F w₀ v₀ (w.setMint k m) (v.setMint k m) := by
  refine h.write hc (fun _ => cell_setMint) (fun _ => cell_setMint) ?_ rfl rfl
  show Function.update w.mints k (some m) k = Function.update v.mints k (some m) k
  rw [Function.update_self, Function.update_self]

theorem cell_setTokenAccount {t : TokenAccount} {c : Cell} (hc : c ≠ .tokens a) : (w.setTokenAccount a t).cell c = w.cell c := by
  cases c with
  | tokens => exact Function.update_of_ne (fun e => hc (congrArg _ e)) _ _
  | _ => rfl

theorem Aligned.setTokenAccount (h : Aligned F w₀ v₀ w v) (hc : .tokens a ∈ F.writes) (t : TokenAccount) :
    Aligned F w₀ v₀ (w.setTokenAccount a t) (v.setTokenAccount a t) := by
  refine h.write hc (fun _ => cell_setTokenAccount) (fun _ => cell_setTokenAccount) ?_ rfl rfl
  show Function.update w.tokenAccounts a (some t) a = Function.update v.tokenAccounts a (some t) a
  rw [Function.update_self, Function.update_self]

theorem cell_setLamports {n : ℕ} {c : Cell} (hc : c ≠ .lamports a) : (w.setLamports a n).cell c = w.cell c := by
  cases c with
  | lamports => exact Function.update_of_ne (fun e => hc (congrArg _ e)) _ _
  | _ => rfl

theorem Aligned.setLamports (h : Aligned F w₀ v₀ w v) (hc : .lamports a ∈ F.writes) (n : ℕ) :
    Aligned F w₀ v₀ (w.setLamports a n) (v.setLamports a n) := by
  refine h.write hc (fun _ => cell_setLamports) (fun _ => cell_setLamports) ?_ rfl rfl
  show Function.update w.lamports a n a = Function.update v.lamports a n a
  rw [Function.update_self, Function.update_self]

theorem Aligned.emit (h : Aligned F w₀ v₀ w v) (e : Event) : Aligned F w₀ v₀ (w.emit e) (v.emit e) :=
  h.record [e] (fun c => by cases c <;> rfl) (fun c => by cases c <;> rfl) rfl rfl

/-! ## The called programs -/

theorem Aligned.transferChecked (h : Aligned F w₀ v₀ w v) {src dst authority : Address} {mint : Pubkey}
    {amount decimals : ℕ} (hs : .tokens src ∈ F.writes) (hd : .tokens dst ∈ F.writes) (hm : F.Covers (.mint mint)) :
    Related (Aligned F w₀ v₀) (transferChecked w src mint dst authority amount decimals)
      (transferChecked v src mint dst authority amount decimals) := by
  unfold Presale.transferChecked
  rw [h.tokenAccounts (.inr hs), h.tokenAccounts (.inr hd), h.mints hm]
  iterate 8 refine .same fun _ => ?_
  split
  · exact .pure h
  · exact .pure ((h.setTokenAccount hs _).setTokenAccount hd _)

theorem Aligned.mintTo (h : Aligned F w₀ v₀ w v) {dst authority : Address} {mint : Pubkey} {amount : ℕ}
    (hd : .tokens dst ∈ F.writes) (hm : F.Covers (.mint mint)) :
    Related (Aligned F w₀ v₀) (mintTo w mint dst authority amount) (mintTo v mint dst authority amount) := by
  unfold Presale.mintTo
  rw [h.tokenAccounts (.inr hd), h.mints hm]
  iterate 5 refine .same fun _ => ?_
  exact .pure (h.setTokenAccount hd _)

theorem Aligned.setMintAuthority (h : Aligned F w₀ v₀ w v) {mint : Pubkey} {authority : Address}
    {newAuthority : Option Address} (hm : .mint mint ∈ F.writes) :
    Related (Aligned F w₀ v₀) (setMintAuthority w mint authority newAuthority)
      (setMintAuthority v mint authority newAuthority) := by
  unfold Presale.setMintAuthority
  rw [h.mints (.inr hm)]
  iterate 3 refine .same fun _ => ?_
  exact .pure (h.setMint hm _)

theorem Aligned.createTokenAccount (h : Aligned F w₀ v₀ w v) {owner : Address} {mint : Pubkey}
    (ha : .tokens a ∈ F.writes) (hm : F.Covers (.mint mint)) :
    Related (Aligned F w₀ v₀) (createTokenAccount w a mint owner) (createTokenAccount v a mint owner) := by
  unfold Presale.createTokenAccount
  simp only [h.tokenAccounts (.inr ha), h.mints hm]
  iterate 2 refine .same fun _ => ?_
  exact .pure (h.setTokenAccount ha _)

theorem Aligned.initAtaIfNeeded (h : Aligned F w₀ v₀ w v) {owner mint : Pubkey}
    (ha : .tokens (.ata (.key owner) mint) ∈ F.writes) (hm : F.Covers (.mint mint)) :
    Related (Aligned F w₀ v₀) (initAtaIfNeeded w owner mint) (initAtaIfNeeded v owner mint) := by
  unfold Presale.initAtaIfNeeded
  rw [h.tokenAccounts (.inr ha)]
  split
  · exact h.createTokenAccount ha hm
  · iterate 2 refine .same fun _ => ?_
    exact .pure h

theorem Aligned.systemTransfer (h : Aligned F w₀ v₀ w v) {src dst : Address} {amount : ℕ}
    (hs : .lamports src ∈ F.writes) (hd : .lamports dst ∈ F.writes) :
    Related (Aligned F w₀ v₀) (systemTransfer w src dst amount) (systemTransfer v src dst amount) := by
  unfold Presale.systemTransfer
  have hsource := h.setLamports hs (v.lamports src - amount)
  rw [h.lamports (.inr hs)]
  refine .same fun _ => ?_
  dsimp only
  rw [hsource.lamports (.inr hd)]
  exact .pure (hsource.setLamports hd _)

end

/-! ## The instructions -/

section
variable {w₀ v₀ w v : World}

theorem Aligned.createAdminAta {ctx : CreateToken} (h : Aligned ctx.access w₀ v₀ w v) :
    Related (Aligned ctx.access w₀ v₀) (createAdminAta ctx w) (createAdminAta ctx v) := by
  unfold Presale.createAdminAta
  simp only [h.tokenAccounts (a := ctx.adminTokenAccount) (by simp [Access.Covers, CreateToken.access]),
    h.lamports (a := ctx.adminTokenAccount) (by simp [Access.Covers, CreateToken.access])]
  split
  · refine .same fun _ => h.createTokenAccount ?_ ?_
    all_goals simp [Access.Covers, CreateToken.access]
  · exact .pure h

theorem Aligned.mintInitialSupply {ctx : CreateToken} {initialSupply : ℕ} (h : Aligned ctx.access w₀ v₀ w v) :
    Related (Aligned ctx.access w₀ v₀) (mintInitialSupply ctx initialSupply w) (mintInitialSupply ctx initialSupply v) := by
  unfold Presale.mintInitialSupply
  split
  · exact h.mintTo (by simp [CreateToken.access]) (by simp [Access.Covers, CreateToken.access])
  · exact .pure h

theorem createToken_confined (ctx : CreateToken) (decimals initialSupply : ℕ) (name symbol uri : String) :
    Confined World.cell World.log ctx.access (createToken ctx decimals initialSupply name symbol uri) := by
  intro w v hwv
  have h : Aligned ctx.access w v w v := .start hwv
  unfold createToken
  simp only [h.mints (k := ctx.mint) (by simp [Access.Covers, CreateToken.access]),
    h.tokenAccounts (a := .key ctx.mint) (by simp [Access.Covers, CreateToken.access]),
    h.lamports (a := .key ctx.mint) (by simp [Access.Covers, CreateToken.access])]
  iterate 7 refine .same fun _ => ?_
  refine .bind ((h.setMint (by simp [CreateToken.access]) _).emit _).createAdminAta fun w v h => ?_
  refine .bind h.mintInitialSupply fun w v h => ?_
  exact .bind (h.setMintAuthority (by simp [CreateToken.access])) fun w v h => .pure (h.emit _)

theorem initializePresale_confined (ctx : InitializePresale) (args : InitializePresaleArgs) :
    Confined World.cell World.log ctx.access (initializePresale ctx args) := by
  intro w v hwv
  have h : Aligned ctx.access w v w v := .start hwv
  unfold initializePresale InitializePresale.tryAccounts
  simp only [bind_assoc, pure_bind]
  rw [h.states, h.mints]
  · iterate 2 refine .same fun _ => ?_
    refine .bind (h.createTokenAccount (by simp [InitializePresale.access])
      (by simp [Access.Covers, InitializePresale.access])) ?_
    intro w v h
    simp only [setLamports_clock]
    rw [h.clock, h.lamports]
    · iterate 10 refine .same fun _ => ?_
      exact .pure (((h.setLamports (by simp [InitializePresale.access]) _).setState
        (by simp [InitializePresale.access]) _).emit _)
    all_goals simp [Access.Covers, InitializePresale.access]
  all_goals simp [Access.Covers, InitializePresale.access]

theorem fundPresaleVault_confined (ctx : FundVault) (amount : ℕ) :
    Confined World.cell World.log ctx.access (fundPresaleVault ctx amount) := by
  intro w v hwv
  have h : Aligned ctx.access w v w v := .start hwv
  unfold fundPresaleVault FundVault.tryAccounts
  simp only [bind_assoc, pure_bind]
  rw [h.states, h.tokenAccounts (a := ctx.adminTokenAccount), h.mints, h.tokenAccounts, h.clock]
  · iterate 8 refine .same fun _ => ?_
    refine .bind (h.transferChecked ?_ ?_ ?_) fun w v h => .pure (h.emit _)
    all_goals simp [Access.Covers, FundVault.access]
  all_goals simp [Access.Covers, FundVault.access]

theorem togglePause_confined (ctx : AdminOnly) (paused : Bool) :
    Confined World.cell World.log ctx.access (togglePause ctx paused) := by
  intro w v hwv
  have h : Aligned ctx.access w v w v := .start hwv
  unfold togglePause AdminOnly.tryAccounts
  rw [h.states, h.clock]
  · iterate 3 refine .same fun _ => ?_
    exact .pure ((h.setState (by simp [AdminOnly.access]) _).emit _)
  all_goals simp [Access.Covers, AdminOnly.access]

theorem finalizePresale_confined (ctx : AdminOnly) :
    Confined World.cell World.log ctx.access (finalizePresale ctx) := by
  intro w v hwv
  have h : Aligned ctx.access w v w v := .start hwv
  unfold finalizePresale AdminOnly.tryAccounts
  rw [h.states, h.clock]
  · iterate 4 refine .same fun _ => ?_
    exact .pure ((h.setState (by simp [AdminOnly.access]) _).emit _)
  all_goals simp [Access.Covers, AdminOnly.access]

theorem withdrawFunds_confined (ctx : WithdrawFunds) : Confined World.cell World.log ctx.access (withdrawFunds ctx) := by
  intro w v hwv
  have h : Aligned ctx.access w v w v := .start hwv
  unfold withdrawFunds WithdrawFunds.tryAccounts
  simp only [bind_assoc, pure_bind]
  rw [h.states, h.clock, h.lamports]
  · iterate 8 refine .same fun _ => ?_
    exact h.systemTransfer (by simp [WithdrawFunds.access]) (by simp [WithdrawFunds.access])
  all_goals simp [Access.Covers, WithdrawFunds.access]

theorem withdrawUnsold_confined (ctx : AdminWithdraw) : Confined World.cell World.log ctx.access (withdrawUnsold ctx) := by
  intro w v hwv
  have h : Aligned ctx.access w v w v := .start hwv
  unfold withdrawUnsold AdminWithdraw.tryAccounts
  simp only [bind_assoc, pure_bind]
  rw [h.states, h.mints, h.tokenAccounts]
  · iterate 3 refine .same fun _ => ?_
    refine .bind (h.initAtaIfNeeded (by simp [AdminWithdraw.access]) (by simp [Access.Covers, AdminWithdraw.access])) ?_
    intro w v h
    rw [h.clock (by simp [Access.Covers, AdminWithdraw.access])]
    iterate 5 refine .same fun _ => ?_
    refine .bind (h.transferChecked ?_ ?_ ?_) fun w v h => .pure (h.emit _)
    all_goals simp [Access.Covers, AdminWithdraw.access]
  all_goals simp [Access.Covers, AdminWithdraw.access]

theorem setAdminActionsLock_confined (ctx : AdminOnly) (unlockTimestamp : ℤ) :
    Confined World.cell World.log ctx.access (setAdminActionsLock ctx unlockTimestamp) := by
  intro w v hwv
  have h : Aligned ctx.access w v w v := .start hwv
  unfold setAdminActionsLock AdminOnly.tryAccounts
  rw [h.states, h.clock]
  · iterate 3 refine .same fun _ => ?_
    exact .pure ((h.setState (by simp [AdminOnly.access]) _).emit _)
  all_goals simp [Access.Covers, AdminOnly.access]

theorem Aligned.payReferral {ctx : BuyTokens} {st : PresaleState} {m : Mint} {tokens : ℕ} {referrer : Option Address}
    (h : Aligned ctx.access w₀ v₀ w v) :
    Related (fun x y => x.1 = y.1 ∧ Aligned ctx.access w₀ v₀ x.2 y.2) (payReferral ctx st m tokens referrer w)
      (payReferral ctx st m tokens referrer v) := by
  unfold Presale.payReferral
  split
  · exact .pure ⟨rfl, h⟩
  · simp only [h.tokenAccounts (a := ctx.referrerTokenAccount) (by simp [Access.Covers, BuyTokens.access])]
    iterate 5 refine .same fun _ => ?_
    split
    · exact .pure ⟨rfl, h⟩
    · refine .same fun _ => ?_
      refine .bind (h.transferChecked ?_ ?_ ?_) fun w v h => .pure ⟨rfl, h.emit _⟩
      all_goals simp [Access.Covers, BuyTokens.access]

theorem buyTokens_confined (ctx : BuyTokens) (solAmount : ℕ) (referrer : Option Address) :
    Confined World.cell World.log ctx.access (buyTokens ctx solAmount referrer) := by
  intro w v hwv
  have h : Aligned ctx.access w v w v := .start hwv
  have hvesting : w.vesting ctx.buyer = v.vesting ctx.buyer := by
    unfold World.vesting
    rw [h.vestings (by simp [Access.Covers, BuyTokens.access])]
  unfold buyTokens BuyTokens.tryAccounts
  simp only [bind_assoc, pure_bind]
  rw [h.states, h.mints, h.tokenAccounts, h.clock, hvesting]
  · iterate 17 refine .same fun _ => ?_
    refine .bind (h.systemTransfer (by simp [BuyTokens.access]) (by simp [BuyTokens.access])) fun w v h => ?_
    refine .bind h.payReferral ?_
    rintro ⟨st, w⟩ ⟨_, v⟩ ⟨rfl, h⟩
    exact .pure (((h.setState (by simp [BuyTokens.access]) _).setVesting (by simp [BuyTokens.access]) _).emit _)
  all_goals simp [Access.Covers, BuyTokens.access]

theorem claimVested_confined (ctx : ClaimVested) : Confined World.cell World.log ctx.access (claimVested ctx) := by
  intro w v hwv
  have h : Aligned ctx.access w v w v := .start hwv
  unfold claimVested ClaimVested.tryAccounts
  simp only [bind_assoc, pure_bind]
  rw [h.states, h.vestings, h.mints, h.tokenAccounts]
  · iterate 4 refine .same fun _ => ?_
    refine .bind (h.initAtaIfNeeded (by simp [ClaimVested.access]) (by simp [Access.Covers, ClaimVested.access])) ?_
    intro w v h
    rw [h.clock (by simp [Access.Covers, ClaimVested.access])]
    iterate 10 refine .same fun _ => ?_
    refine .bind ((h.setVesting (by simp [ClaimVested.access]) _).transferChecked ?_ ?_ ?_) fun w v h => .pure (h.emit _)
    all_goals simp [Access.Covers, ClaimVested.access]
  all_goals simp [Access.Covers, ClaimVested.access]

theorem claimRefund_confined (ctx : ClaimRefund) : Confined World.cell World.log ctx.access (claimRefund ctx) := by
  intro w v hwv
  have h : Aligned ctx.access w v w v := .start hwv
  unfold claimRefund ClaimRefund.tryAccounts
  simp only [bind_assoc, pure_bind]
  rw [h.states, h.vestings, h.clock]
  · iterate 5 refine .same fun _ => ?_
    refine .bind ((h.setVesting (by simp [ClaimRefund.access]) _).systemTransfer ?_ ?_) fun w v h => .pure (h.emit _)
    all_goals simp [ClaimRefund.access]
  all_goals simp [Access.Covers, ClaimRefund.access]

theorem initializeStaking_confined (ctx : InitializeStaking) (rewardRatePerSecond : ℕ) :
    Confined World.cell World.log ctx.access (initializeStaking ctx rewardRatePerSecond) := by
  intro w v hwv
  have h : Aligned ctx.access w v w v := .start hwv
  unfold initializeStaking InitializeStaking.tryAccounts
  simp only [bind_assoc, pure_bind]
  rw [h.states, h.mints, h.pools]
  · iterate 3 refine .same fun _ => ?_
    refine .bind (h.createTokenAccount (by simp [InitializeStaking.access])
      (by simp [Access.Covers, InitializeStaking.access])) fun w v h => ?_
    refine .bind (h.createTokenAccount (by simp [InitializeStaking.access])
      (by simp [Access.Covers, InitializeStaking.access])) fun w v h => ?_
    iterate 2 refine .same fun _ => ?_
    rw [h.clock (by simp [Access.Covers, InitializeStaking.access])]
    exact .pure ((h.setPool (by simp [InitializeStaking.access]) _).emit _)
  all_goals simp [Access.Covers, InitializeStaking.access]

theorem fundRewardVault_confined (ctx : FundRewardVault) (amount : ℕ) :
    Confined World.cell World.log ctx.access (fundRewardVault ctx amount) := by
  intro w v hwv
  have h : Aligned ctx.access w v w v := .start hwv
  unfold fundRewardVault FundRewardVault.tryAccounts
  simp only [bind_assoc, pure_bind]
  rw [h.states, h.pools, h.mints, h.tokenAccounts (a := ctx.adminTokenAccount), h.tokenAccounts]
  · iterate 10 refine .same fun _ => ?_
    refine .bind (h.transferChecked (by simp [FundRewardVault.access]) (by simp [FundRewardVault.access])
      (by simp [Access.Covers, FundRewardVault.access])) fun w v h => ?_
    refine .same fun _ => ?_
    exact .pure ((h.setPool (by simp [FundRewardVault.access]) _).emit _)
  all_goals simp [Access.Covers, FundRewardVault.access]

theorem stake_confined (ctx : Stake) (amount : ℕ) : Confined World.cell World.log ctx.access (stake ctx amount) := by
  intro w v hwv
  have h : Aligned ctx.access w v w v := .start hwv
  have hrecord : w.userStake ctx.user = v.userStake ctx.user := by
    unfold World.userStake
    rw [h.userStakes (by simp [Access.Covers, Stake.access])]
  unfold stake Stake.tryAccounts
  simp only [bind_assoc, pure_bind]
  rw [h.states, h.pools, h.mints, h.tokenAccounts (a := .stakeVault ctx.state), h.tokenAccounts, hrecord, h.clock]
  · iterate 11 refine .same fun _ => ?_
    refine .bind (h.transferChecked (by simp [Stake.access]) (by simp [Stake.access])
      (by simp [Access.Covers, Stake.access])) fun w v h => ?_
    iterate 3 refine .same fun _ => ?_
    exact .pure (((h.setPool (by simp [Stake.access]) _).setUserStake (by simp [Stake.access]) _).emit _)
  all_goals simp [Access.Covers, Stake.access]

theorem Aligned.payPending {ctx : Unstake} {pending decimals : ℕ} (h : Aligned ctx.access w₀ v₀ w v) :
    Related (Aligned ctx.access w₀ v₀) (payPending ctx pending decimals w) (payPending ctx pending decimals v) := by
  unfold Presale.payPending
  split
  · refine h.transferChecked ?_ ?_ ?_
    all_goals simp [Access.Covers, Unstake.access]
  · exact .pure h

theorem unstake_confined (ctx : Unstake) (amount : ℕ) : Confined World.cell World.log ctx.access (unstake ctx amount) := by
  intro w v hwv
  have h : Aligned ctx.access w v w v := .start hwv
  unfold unstake Unstake.tryAccounts
  simp only [bind_assoc, pure_bind]
  rw [h.states, h.pools, h.userStakes, h.mints, h.tokenAccounts (a := .stakeVault ctx.state),
    h.tokenAccounts (a := .rewardVault ctx.state), h.tokenAccounts, h.clock]
  · iterate 17 refine .same fun _ => ?_
    refine .bind h.payPending fun w v h => ?_
    refine .bind (h.transferChecked (by simp [Unstake.access]) (by simp [Unstake.access])
      (by simp [Access.Covers, Unstake.access])) fun w v h => ?_
    iterate 3 refine .same fun _ => ?_
    exact .pure (((h.setPool (by simp [Unstake.access]) _).setUserStake (by simp [Unstake.access]) _).emit _)
  all_goals simp [Access.Covers, Unstake.access]

theorem claimRewards_confined (ctx : ClaimRewards) : Confined World.cell World.log ctx.access (claimRewards ctx) := by
  intro w v hwv
  have h : Aligned ctx.access w v w v := .start hwv
  unfold claimRewards ClaimRewards.tryAccounts
  simp only [bind_assoc, pure_bind]
  rw [h.states, h.pools, h.userStakes, h.mints, h.tokenAccounts (a := .rewardVault ctx.state), h.tokenAccounts, h.clock]
  · iterate 14 refine .same fun _ => ?_
    refine .bind (((h.setPool (by simp [ClaimRewards.access]) _).setUserStake (by simp [ClaimRewards.access]) _).transferChecked
      ?_ ?_ ?_) fun w v h => .pure (h.emit _)
    all_goals simp [Access.Covers, ClaimRewards.access]
  all_goals simp [Access.Covers, ClaimRewards.access]

/-- Every call is confined to the accounts of its context. -/
theorem exec_confined : (c : Call) → Confined World.cell World.log c.access (exec c)
  | .createToken ctx decimals initialSupply name symbol uri =>
    createToken_confined ctx decimals initialSupply name symbol uri
  | .initializePresale ctx args => initializePresale_confined ctx args
  | .fundPresaleVault ctx amount => fundPresaleVault_confined ctx amount
  | .buyTokens ctx solAmount referrer => buyTokens_confined ctx solAmount referrer
  | .claimVested ctx => claimVested_confined ctx
  | .claimRefund ctx => claimRefund_confined ctx
  | .togglePause ctx paused => togglePause_confined ctx paused
  | .finalizePresale ctx => finalizePresale_confined ctx
  | .withdrawFunds ctx => withdrawFunds_confined ctx
  | .withdrawUnsold ctx => withdrawUnsold_confined ctx
  | .initializeStaking ctx rewardRatePerSecond => initializeStaking_confined ctx rewardRatePerSecond
  | .fundRewardVault ctx amount => fundRewardVault_confined ctx amount
  | .stake ctx amount => stake_confined ctx amount
  | .unstake ctx amount => unstake_confined ctx amount
  | .claimRewards ctx => claimRewards_confined ctx
  | .setAdminActionsLock ctx unlockTimestamp => setAdminActionsLock_confined ctx unlockTimestamp

end

end Presale

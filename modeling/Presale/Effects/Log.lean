/-
What a successful call writes to the event log.
-/
import Presale.Effects.Admin
import Presale.Effects.Investor
import Presale.Effects.Staking

namespace Presale

open Checked World

/-! ## The administrator's calls -/

section
variable {w w' : World}

theorem createAdminAta_log {ctx : CreateToken} (h : createAdminAta ctx w = .ok w') : w'.log = w.log := by
  obtain ⟨-, hw⟩ := createAdminAta_ok h
  rw [hw]

theorem mintInitialSupply_log {ctx : CreateToken} {initialSupply : ℕ} (h : mintInitialSupply ctx initialSupply w = .ok w') :
    w'.log = w.log := by
  obtain ⟨-, -, hw⟩ := mintInitialSupply_ok h
  rw [hw]

theorem createToken_log {ctx : CreateToken} {decimals initialSupply : ℕ} {name symbol uri : String}
    (h : createToken ctx decimals initialSupply name symbol uri w = .ok w') :
    w'.log = w.log ++ [.tokenMetadataInitialized ctx.admin ctx.mint name symbol uri,
      .tokenCreated ctx.admin ctx.mint decimals initialSupply true] := by
  unfold createToken at h
  simp only [bind_ok_iff, require_eq_ok, pure_ok_iff] at h
  obtain ⟨_, -, _, -, _, -, _, -, _, -, _, -, _, -, w₁, hata, w₂, hsupply, w₃, hrevoke, rfl⟩ := h
  obtain ⟨_, -, -, rfl⟩ := setMintAuthority_ok hrevoke
  rw [emit_log, setMint_log, mintInitialSupply_log hsupply, createAdminAta_log hata]
  simp

theorem initializePresale_log {ctx : InitializePresale} {args : InitializePresaleArgs}
    (h : initializePresale ctx args w = .ok w') :
    w'.log = w.log ++ [.presaleInitialized ctx.admin ctx.mint args.softCap args.hardCap args.startTime args.endTime] := by
  unfold initializePresale InitializePresale.tryAccounts at h
  simp only [bind_ok_iff, require_eq_ok, pure_ok_iff] at h
  obtain ⟨_, ⟨_, -, _, -, w₁, hcreate, rfl⟩, _, -, _, -, _, -, _, -, _, -, _, -, _, -, _, -, _, -, _, -, rfl⟩ := h
  obtain ⟨-, rfl⟩ := createTokenAccount_ok hcreate
  rfl

theorem fundPresaleVault_log {ctx : FundVault} {amount : ℕ} (h : fundPresaleVault ctx amount w = .ok w') :
    w'.log = w.log ++ [.vaultFunded ctx.admin amount] := by
  unfold fundPresaleVault at h
  simp only [bind_ok_iff, require_eq_ok, pure_ok_iff] at h
  obtain ⟨_, -, _, -, _, -, w₁, htr, rfl⟩ := h
  obtain ⟨-, -, hw₁⟩ := transferChecked_ok htr
  rw [hw₁]; rfl

theorem togglePause_log {ctx : AdminOnly} {paused : Bool} (h : togglePause ctx paused w = .ok w') :
    w'.log = w.log ++ [.presalePauseToggled paused] := by
  unfold togglePause at h
  simp only [bind_ok_iff, require_eq_ok, pure_ok_iff] at h
  obtain ⟨_, -, _, -, _, -, rfl⟩ := h
  rfl

theorem finalizePresale_log {ctx : AdminOnly} (h : finalizePresale ctx w = .ok w') : ∃ st,
    w.states ctx.state = some st ∧ w'.log = w.log ++
      [.presaleFinalized st.totalRaisedLamports st.tokensSold (st.totalRaisedLamports ≥ st.softCapLamports)] := by
  unfold finalizePresale AdminOnly.tryAccounts account at h
  simp only [bind_ok_iff, require_eq_ok, okOr_eq_ok, pure_ok_iff] at h
  obtain ⟨st, hst, _, -, _, -, _, -, rfl⟩ := h
  exact ⟨st, hst, rfl⟩

/-- The withdrawal of the proceeds is not logged. -/
theorem withdrawFunds_log {ctx : WithdrawFunds} (h : withdrawFunds ctx w = .ok w') : w'.log = w.log := by
  unfold withdrawFunds at h
  simp only [bind_ok_iff, require_eq_ok] at h
  obtain ⟨_, -, _, -, _, -, _, -, _, -, _, -, htr⟩ := h
  obtain ⟨-, rfl⟩ := systemTransfer_ok htr
  rfl

theorem withdrawUnsold_log {ctx : AdminWithdraw} (h : withdrawUnsold ctx w = .ok w') :
    ∃ amount, w'.log = w.log ++ [.remainingClaimed ctx.admin amount] := by
  unfold withdrawUnsold AdminWithdraw.tryAccounts at h
  simp only [bind_ok_iff, require_eq_ok, pure_ok_iff, Prod.exists, Prod.mk.injEq] at h
  obtain ⟨_, _, _, _, ⟨_, -, _, -, vault, -, w₁, hata, rfl, rfl, rfl, rfl⟩, _, -, _, -, _, -, totalLocked, -, _, -, w₂,
    htr, rfl⟩ := h
  obtain ⟨-, hw₁⟩ := initAtaIfNeeded_ok hata
  obtain ⟨-, -, hw₂⟩ := transferChecked_ok htr
  refine ⟨vault.amount - totalLocked, ?_⟩
  rw [hw₂, hw₁]; rfl

theorem setAdminActionsLock_log {ctx : AdminOnly} {unlockTimestamp : ℤ}
    (h : setAdminActionsLock ctx unlockTimestamp w = .ok w') :
    w'.log = w.log ++ [.adminActionsLockSet ctx.admin unlockTimestamp] := by
  unfold setAdminActionsLock at h
  simp only [bind_ok_iff, require_eq_ok, pure_ok_iff] at h
  obtain ⟨_, -, _, -, _, -, rfl⟩ := h
  rfl

/-! ## The investors' calls -/

/-- What a purchase logs of the referral bonus it pays. -/
def bonusEvents (referrer : Option Address) (buyer : Pubkey) (bonus : ℕ) : List Event :=
  if bonus = 0 then [] else referrer.toList.map fun refKey => .referralBonus refKey buyer bonus

theorem payReferral_log {ctx : BuyTokens} {state state' : PresaleState} {mint : Mint} {tokens : ℕ}
    {referrer : Option Address} (h : payReferral ctx state mint tokens referrer w = .ok (state', w')) :
    w'.log = w.log ++ bonusEvents referrer ctx.buyer (state.bonus tokens referrer) := by
  unfold payReferral at h
  unfold bonusEvents PresaleState.bonus
  cases referrer with
  | none =>
    cases h
    simp
  | some refKey =>
    simp only [bind_ok_iff, require_eq_ok, okOr_eq_ok, mul_eq_some, div_eq_some] at h
    obtain ⟨_, -, _, -, _, -, _, ⟨-, rfl⟩, _, ⟨-, rfl⟩, h⟩ := h
    split at h
    · rename_i hzero
      cases h
      simp [hzero]
    · rename_i hpos
      simp only [bind_ok_iff, pure_ok_iff] at h
      obtain ⟨_, -, w₁, htr, h⟩ := h
      cases h
      obtain ⟨-, -, hw₁⟩ := transferChecked_ok htr
      rw [emit_log, hw₁]
      simp [hpos]

theorem buyTokens_log {ctx : BuyTokens} {solAmount : ℕ} {referrer : Option Address} {st : PresaleState} {m : Mint}
    {wk : Walk} {solUsed bonus : ℕ} (h : buyTokens ctx solAmount referrer w = .ok w')
    (hb : Bought ctx solAmount referrer w w' st m wk solUsed bonus) : ∃ stage,
    w'.log = w.log ++ bonusEvents referrer ctx.buyer bonus ++ [.tokensPurchased ctx.buyer solUsed wk.tokens stage] := by
  unfold buyTokens at h
  obtain ⟨⟨state, mint, vesting⟩, hacc, h⟩ := bind_ok_iff.1 h
  obtain ⟨hstate, hmint, rfl⟩ := BuyTokens.tryAccounts_ok hacc
  rw [hb.state] at hstate; cases hstate
  rw [hb.mint] at hmint; cases hmint
  simp only [bind_ok_iff, require_eq_ok, okOr_eq_ok, pow_eq_some, sub_eq_some, pure_ok_iff, Prod.exists] at h
  obtain ⟨_, -, _, -, _, -, _, ⟨-, rfl⟩, walk, hwalk, _, -, _, ⟨-, rfl⟩, _, -, _, -, _, -, _, -, _, -, _, -, _, -, w₁,
    htr, state', w₂, href, rfl⟩ := h
  have hsame : walk = wk := Except.ok.inj (hwalk.symm.trans hb.walk)
  subst hsame
  obtain ⟨-, rfl⟩ := systemTransfer_ok htr
  have hlog := payReferral_log href
  refine ⟨state'.currentStageIndex, ?_⟩
  rw [emit_log, setVesting_log, setState_log, hlog, hb.spent.2.1, hb.bonusEq]
  rfl

theorem claimVested_log {ctx : ClaimVested} {st : PresaleState} {v : UserVesting} {paid : ℕ}
    (h : claimVested ctx w = .ok w') (hc : Claimed ctx w w' st v paid) :
    w'.log = w.log ++ [.tokensClaimed ctx.user paid] := by
  unfold claimVested at h
  obtain ⟨⟨state, vesting, mint, w₁⟩, hacc, h⟩ := bind_ok_iff.1 h
  obtain ⟨hstate, hvesting, -, hw₁⟩ := ClaimVested.tryAccounts_ok hacc
  have hclock : w₁.clock = w.clock := by rw [hw₁]
  rw [hc.state] at hstate; cases hstate
  rw [hc.vesting] at hvesting; cases hvesting
  unfold addI64 subI64 at h
  simp only [bind_ok_iff, require_eq_ok, okOr_eq_ok, signed_eq_some, sub_eq_some, pure_ok_iff, hclock] at h
  obtain ⟨_, -, _, -, _, ⟨-, rfl⟩, _, -, _, ⟨-, rfl⟩, vested, hvested, _, ⟨-, rfl⟩, _, -, _, -, _, -, w₂, htr, rfl⟩ := h
  obtain rfl : vested = v.vestedAt st w.clock := vestedTokens_ok hvested
  obtain ⟨-, -, hw₂⟩ := transferChecked_ok htr
  rw [emit_log, hw₂, hw₁, hc.paidEq]
  rfl

theorem claimRefund_log {ctx : ClaimRefund} {st : PresaleState} {v : UserVesting} (h : claimRefund ctx w = .ok w')
    (hr : Refunded ctx w w' st v) : w'.log = w.log ++ [.refundClaimed ctx.user v.contributedLamports] := by
  unfold claimRefund ClaimRefund.tryAccounts account at h
  simp only [bind_ok_iff, require_eq_ok, okOr_eq_ok, pure_ok_iff, Prod.exists, Prod.mk.injEq] at h
  obtain ⟨_, vesting, ⟨_, -, _, hvesting, -, rfl⟩, _, -, _, -, _, -, w₁, htr, rfl⟩ := h
  rw [hr.vesting] at hvesting; cases hvesting
  obtain ⟨-, rfl⟩ := systemTransfer_ok htr
  rfl

/-! ## The stakers' calls -/

theorem initializeStaking_log {ctx : InitializeStaking} {rate : ℕ} (h : initializeStaking ctx rate w = .ok w') :
    w'.log = w.log ++ [.stakingInitialized ctx.admin rate] := by
  unfold initializeStaking InitializeStaking.tryAccounts at h
  simp only [bind_ok_iff, require_eq_ok, pure_ok_iff, Prod.exists, Prod.mk.injEq] at h
  obtain ⟨_, _, ⟨_, -, _, -, _, -, w₁, hstake, w₂, hreward, rfl, rfl⟩, _, -, _, -, rfl⟩ := h
  obtain ⟨-, rfl⟩ := createTokenAccount_ok hstake
  obtain ⟨-, rfl⟩ := createTokenAccount_ok hreward
  rfl

theorem fundRewardVault_log {ctx : FundRewardVault} {amount : ℕ} (h : fundRewardVault ctx amount w = .ok w') :
    w'.log = w.log ++ [.rewardVaultFunded ctx.admin amount] := by
  unfold fundRewardVault at h
  simp only [bind_ok_iff, require_eq_ok, pure_ok_iff] at h
  obtain ⟨_, -, _, -, _, -, w₁, htr, _, -, rfl⟩ := h
  obtain ⟨-, -, hw₁⟩ := transferChecked_ok htr
  rw [hw₁]; rfl

theorem stake_log {ctx : Stake} {amount : ℕ} (h : stake ctx amount w = .ok w') :
    w'.log = w.log ++ [.staked ctx.user amount] := by
  unfold stake at h
  simp only [bind_ok_iff, require_eq_ok, pure_ok_iff] at h
  obtain ⟨_, -, _, -, _, -, _, -, w₁, htr, _, -, _, -, _, -, rfl⟩ := h
  obtain ⟨-, -, hw₁⟩ := transferChecked_ok htr
  rw [hw₁]; rfl

theorem unstake_log {ctx : Unstake} {amount : ℕ} (h : unstake ctx amount w = .ok w') :
    ∃ paid, w'.log = w.log ++ [.unstaked ctx.user amount paid] := by
  unfold unstake at h
  simp only [bind_ok_iff, require_eq_ok, pure_ok_iff] at h
  obtain ⟨_, -, _, -, _, -, _, -, _, -, _, -, _, -, _, -, _, -, _, -, paid, -, w₁, hpay, w₂, htr, _, -, _, -, _, -, rfl⟩ := h
  obtain ⟨-, hw₁⟩ := payPending_ok hpay
  obtain ⟨-, -, hw₂⟩ := transferChecked_ok htr
  refine ⟨paid, ?_⟩
  rw [hw₂, hw₁]; rfl

theorem claimRewards_log {ctx : ClaimRewards} (h : claimRewards ctx w = .ok w') :
    ∃ paid, w'.log = w.log ++ [.rewardsClaimed ctx.user paid] := by
  unfold claimRewards at h
  simp only [bind_ok_iff, require_eq_ok, pure_ok_iff] at h
  obtain ⟨_, -, _, -, _, -, paid, -, _, -, _, -, w₁, htr, rfl⟩ := h
  obtain ⟨-, -, hw₁⟩ := transferChecked_ok htr
  refine ⟨paid, ?_⟩
  rw [hw₁]; rfl

end

end Presale

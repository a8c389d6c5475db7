/-
Every successful call as a sequence of operations of the token program, under the signatures the call
comes with: the caller's, and the authority of the presale's vaults where the program signs for it.
-/
import Presale.Effects.Admin
import Presale.Effects.Investor
import Presale.Effects.Staking
import Presale.Lib.Tokens
import Presale.Program.Machine

namespace Presale

open Checked World Tokens

/-! ## Signatures -/

/-- The wallet that signs a call. -/
def Call.signer : Call → Pubkey
  | .createToken ctx .. => ctx.admin
  | .initializePresale ctx _ => ctx.admin
  | .fundPresaleVault ctx _ => ctx.admin
  | .buyTokens ctx _ _ => ctx.buyer
  | .claimVested ctx => ctx.user
  | .claimRefund ctx => ctx.user
  | .togglePause ctx _ => ctx.admin
  | .finalizePresale ctx => ctx.admin
  | .withdrawFunds ctx => ctx.admin
  | .withdrawUnsold ctx => ctx.admin
  | .initializeStaking ctx _ => ctx.admin
  | .fundRewardVault ctx _ => ctx.admin
  | .stake ctx _ => ctx.user
  | .unstake ctx _ => ctx.user
  | .claimRewards ctx => ctx.user
  | .setAdminActionsLock ctx _ => ctx.admin

/-- The presale whose vault authority the program signs with in a call. -/
def Call.vaultSigner : Call → Option Pubkey
  | .buyTokens ctx _ _ => some ctx.state
  | .claimVested ctx => some ctx.state
  | .withdrawUnsold ctx => some ctx.state
  | .unstake ctx _ => some ctx.state
  | .claimRewards ctx => some ctx.state
  | _ => none

/-- The owners of token accounts that sign in a call. -/
def Call.signs (c : Call) (owner : Address) : Prop :=
  owner = .key c.signer ∨ ∃ A, c.vaultSigner = some A ∧ owner = .vaultAuthority A

/-- What a call mints of each mint. -/
def Call.minted : Call → Pubkey → ℕ
  | .createToken ctx _ initialSupply _ _ _ => Function.update 0 ctx.mint initialSupply
  | _ => 0

/-! ## The token program's operations -/

def TokenAccount.holding (a : TokenAccount) : Holding Pubkey Address := ⟨a.mint, a.owner, a.amount⟩

/-- The token accounts as a ledger. -/
def World.holdings (w : World) (a : Address) : Option (Holding Pubkey Address) := (w.tokenAccounts a).map (·.holding)

section
variable {w w' w₀ : World} {signed : Address → Prop} {minted : Pubkey → ℕ} {f : Address → Option (Holding Pubkey Address)}

theorem holdings_congr (h : w'.tokenAccounts = w.tokenAccounts) : w'.holdings = w.holdings := by
  funext a
  unfold World.holdings
  rw [h]

theorem holdings_set (w : World) (a : Address) (t : TokenAccount) :
    (w.setTokenAccount a t).holdings = Function.update w.holdings a (some t.holding) := by
  funext x
  unfold World.holdings
  by_cases hx : x = a
  · subst hx; simp
  · simp [Function.update_of_ne hx]

theorem holdings_of {a : Address} {t : TokenAccount} (h : w.tokenAccounts a = some t) : w.holdings a = some t.holding := by
  simp [World.holdings, h]

/-- The ledger is that of the token accounts. -/
theorem ops_congr (h : w'.tokenAccounts = w.tokenAccounts) (hops : Ops signed f minted w.holdings) :
    Ops signed f minted w'.holdings := by
  rw [holdings_congr h]
  exact hops

theorem transferChecked_ops {src dst authority : Address} {mint : Pubkey} {amount decimals : ℕ}
    (h : transferChecked w src mint dst authority amount decimals = .ok w') (hs : signed authority)
    (hops : Ops signed f minted w.holdings) : Ops signed f minted w'.holdings := by
  unfold transferChecked account at h
  simp only [bind_ok_iff, okOr_eq_ok, require_eq_ok] at h
  obtain ⟨a, ha, b, hb, _, hle, _, hab, _, -, m, -, _, -, _, rfl, h⟩ := h
  split at h
  · cases h
    exact hops
  · rename_i hne
    cases h
    rw [holdings_set, holdings_set]
    exact .transfer hops (holdings_of ha) (holdings_of hb) hne hab hle hs

theorem createTokenAccount_ops {a owner : Address} {mint : Pubkey} (h : createTokenAccount w a mint owner = .ok w')
    (hops : Ops signed f minted w.holdings) : Ops signed f minted w'.holdings := by
  obtain ⟨hnone, rfl⟩ := createTokenAccount_ok h
  rw [holdings_set]
  exact .create hops (by simp [World.holdings, hnone])

theorem initAtaIfNeeded_ops {owner mint : Pubkey} (h : initAtaIfNeeded w owner mint = .ok w')
    (hops : Ops signed f minted w.holdings) : Ops signed f minted w'.holdings := by
  unfold initAtaIfNeeded at h
  split at h
  · exact createTokenAccount_ops h hops
  · simp only [bind_ok_iff, require_eq_ok, pure_ok_iff] at h
    obtain ⟨_, -, _, -, rfl⟩ := h
    exact hops

/-! ## The calls -/

theorem createToken_ops {ctx : CreateToken} {decimals initialSupply : ℕ} {name symbol uri : String}
    (h : createToken ctx decimals initialSupply name symbol uri w = .ok w') :
    Ops signed w.holdings (Function.update 0 ctx.mint initialSupply) w'.holdings := by
  unfold createToken at h
  simp only [bind_ok_iff, require_eq_ok, pure_ok_iff] at h
  obtain ⟨_, -, _, -, _, -, _, -, _, -, _, -, _, -, w₁, hata, w₂, hsupply, w₃, hrevoke, rfl⟩ := h
  obtain ⟨_, -, -, rfl⟩ := setMintAuthority_ok hrevoke
  have hops : Ops signed w.holdings 0 w₁.holdings := by
    unfold createAdminAta at hata
    split at hata
    · simp only [bind_ok_iff, require_eq_ok] at hata
      obtain ⟨_, -, hata⟩ := hata
      exact createTokenAccount_ops hata .nil
    · cases hata
      exact .nil
  unfold mintInitialSupply at hsupply
  split at hsupply
  · obtain ⟨a, _, ha, hmint, -, -, rfl⟩ := mintTo_ok hsupply
    have hminted : Ops signed w.holdings (Function.update 0 a.mint (0 + initialSupply))
        (w₁.setTokenAccount ctx.adminTokenAccount { a with amount := a.amount + initialSupply }).holdings := by
      rw [holdings_set]
      exact .mintTo hops (holdings_of ha)
    rw [Nat.zero_add] at hminted
    rw [← hmint]
    exact ops_congr rfl hminted
  · rename_i hzero
    cases hsupply
    obtain rfl : initialSupply = 0 := by omega
    have hnone : Function.update (0 : Pubkey → ℕ) ctx.mint 0 = 0 := Function.update_eq_self_iff.2 rfl
    rw [hnone]
    exact ops_congr rfl hops

theorem buyTokens_ops {ctx : BuyTokens} {solAmount : ℕ} {referrer : Option Address}
    (h : buyTokens ctx solAmount referrer w = .ok w') (hs : signed (.vaultAuthority ctx.state)) :
    Ops signed w.holdings 0 w'.holdings := by
  unfold buyTokens at h
  simp only [bind_ok_iff, require_eq_ok, pure_ok_iff, Prod.exists] at h
  obtain ⟨_, _, _, -, _, -, _, -, _, -, _, -, _, -, _, -, _, -, _, -, _, -, _, -, _, -, _, -, _, -, _, -, w₁, htr, _, w₂,
    href, rfl⟩ := h
  obtain ⟨-, rfl⟩ := systemTransfer_ok htr
  unfold payReferral at href
  cases referrer with
  | none =>
    cases href
    exact ops_congr rfl .nil
  | some refKey =>
    simp only [bind_ok_iff, require_eq_ok] at href
    obtain ⟨_, -, _, -, _, -, _, -, _, -, href⟩ := href
    split at href
    · cases href
      exact ops_congr rfl .nil
    · simp only [bind_ok_iff, pure_ok_iff] at href
      obtain ⟨_, -, w₃, hbonus, href⟩ := href
      cases href
      exact ops_congr (w := w₃) rfl (transferChecked_ops hbonus hs (ops_congr (w := w) rfl .nil))

theorem claimVested_ops {ctx : ClaimVested} (h : claimVested ctx w = .ok w') (hs : signed (.vaultAuthority ctx.state)) :
    Ops signed w.holdings 0 w'.holdings := by
  unfold claimVested ClaimVested.tryAccounts at h
  simp only [bind_ok_iff, require_eq_ok, pure_ok_iff, Prod.exists, Prod.mk.injEq] at h
  obtain ⟨_, _, _, _, ⟨_, -, _, -, _, -, _, -, w₁, hata, rfl, rfl, rfl, rfl⟩, _, -, _, -, _, -, _, -, _, -, _, -, _, -, _, -, _,
    -, _, -, w₂, htr, rfl⟩ := h
  have hready : Ops signed w.holdings 0 w₁.holdings := initAtaIfNeeded_ops hata .nil
  exact ops_congr (w := w₂) rfl (transferChecked_ops htr hs (ops_congr (w := w₁) rfl hready))

theorem withdrawUnsold_ops {ctx : AdminWithdraw} (h : withdrawUnsold ctx w = .ok w')
    (hs : signed (.vaultAuthority ctx.state)) : Ops signed w.holdings 0 w'.holdings := by
  unfold withdrawUnsold AdminWithdraw.tryAccounts at h
  simp only [bind_ok_iff, require_eq_ok, pure_ok_iff, Prod.exists, Prod.mk.injEq] at h
  obtain ⟨_, _, _, _, ⟨_, -, _, -, _, -, w₁, hata, rfl, rfl, rfl, rfl⟩, _, -, _, -, _, -, _, -, _, -, w₂, htr, rfl⟩ := h
  exact ops_congr (w := w₂) rfl (transferChecked_ops htr hs (initAtaIfNeeded_ops hata .nil))

theorem initializeStaking_ops {ctx : InitializeStaking} {rate : ℕ} (h : initializeStaking ctx rate w = .ok w') :
    Ops signed w.holdings 0 w'.holdings := by
  unfold initializeStaking InitializeStaking.tryAccounts at h
  simp only [bind_ok_iff, require_eq_ok, pure_ok_iff, Prod.exists, Prod.mk.injEq] at h
  obtain ⟨_, _, ⟨_, -, _, -, _, -, w₁, hstake, w₂, hreward, rfl, rfl⟩, _, -, _, -, rfl⟩ := h
  exact ops_congr (w := w₂) rfl (createTokenAccount_ops hreward (createTokenAccount_ops hstake .nil))

theorem fundPresaleVault_ops {ctx : FundVault} {amount : ℕ} (h : fundPresaleVault ctx amount w = .ok w')
    (hs : signed (.key ctx.admin)) : Ops signed w.holdings 0 w'.holdings := by
  unfold fundPresaleVault at h
  simp only [bind_ok_iff, require_eq_ok, pure_ok_iff] at h
  obtain ⟨_, -, _, -, _, -, w₁, htr, rfl⟩ := h
  exact ops_congr (w := w₁) rfl (transferChecked_ops htr hs .nil)

theorem fundRewardVault_ops {ctx : FundRewardVault} {amount : ℕ} (h : fundRewardVault ctx amount w = .ok w')
    (hs : signed (.key ctx.admin)) : Ops signed w.holdings 0 w'.holdings := by
  unfold fundRewardVault at h
  simp only [bind_ok_iff, require_eq_ok, pure_ok_iff] at h
  obtain ⟨_, -, _, -, _, -, w₁, htr, _, -, rfl⟩ := h
  exact ops_congr (w := w₁) rfl (transferChecked_ops htr hs .nil)

theorem stake_ops {ctx : Stake} {amount : ℕ} (h : stake ctx amount w = .ok w') (hs : signed (.key ctx.user)) :
    Ops signed w.holdings 0 w'.holdings := by
  unfold stake at h
  simp only [bind_ok_iff, require_eq_ok, pure_ok_iff] at h
  obtain ⟨_, -, _, -, _, -, _, -, w₁, htr, _, -, _, -, _, -, rfl⟩ := h
  exact ops_congr (w := w₁) rfl (transferChecked_ops htr hs .nil)

theorem unstake_ops {ctx : Unstake} {amount : ℕ} (h : unstake ctx amount w = .ok w')
    (hs : signed (.vaultAuthority ctx.state)) : Ops signed w.holdings 0 w'.holdings := by
  unfold unstake at h
  simp only [bind_ok_iff, require_eq_ok, pure_ok_iff] at h
  obtain ⟨_, -, _, -, _, -, _, -, _, -, _, -, _, -, _, -, _, -, _, -, _, -, w₁, hpay, w₂, htr, _, -, _, -, _, -, rfl⟩ := h
  have hpaid : Ops signed w.holdings 0 w₁.holdings := by
    unfold payPending at hpay
    split at hpay
    · exact transferChecked_ops hpay hs .nil
    · cases hpay
      exact .nil
  exact ops_congr (w := w₂) rfl (transferChecked_ops htr hs hpaid)

theorem claimRewards_ops {ctx : ClaimRewards} (h : claimRewards ctx w = .ok w') (hs : signed (.vaultAuthority ctx.state)) :
    Ops signed w.holdings 0 w'.holdings := by
  unfold claimRewards at h
  simp only [bind_ok_iff, require_eq_ok, pure_ok_iff] at h
  obtain ⟨_, -, _, -, _, -, _, -, _, -, _, -, w₁, htr, rfl⟩ := h
  exact ops_congr (w := w₁) rfl (transferChecked_ops htr hs (ops_congr (w := w) rfl .nil))

end

/-- A successful call does to the token accounts what its signatures allow, and mints what it says. -/
theorem exec_ops {w w' : World} {c : Call} (h : exec c w = .ok w') : Ops c.signs w.holdings c.minted w'.holdings := by
  have hquiet (he : w'.tokenAccounts = w.tokenAccounts) : Ops c.signs w.holdings 0 w'.holdings := by
    rw [holdings_congr he]
    exact .nil
  cases c with
  | createToken => exact createToken_ops h
  | initializePresale ctx args =>
    have hl := initializePresale_ok h
    refine ops_congr (w := w.setTokenAccount (.tokenVault ctx.admin) ⟨ctx.mint, .vaultAuthority ctx.admin, 0⟩)
      hl.tokenAccounts ?_
    rw [holdings_set]
    exact .create .nil (by simp [World.holdings, hl.noVault])
  | fundPresaleVault => exact fundPresaleVault_ops h (.inl rfl)
  | buyTokens => exact buyTokens_ops h (.inr ⟨_, rfl, rfl⟩)
  | claimVested => exact claimVested_ops h (.inr ⟨_, rfl, rfl⟩)
  | claimRefund =>
    obtain ⟨_, _, hr⟩ := claimRefund_ok h
    exact hquiet hr.tokenAccounts
  | togglePause =>
    obtain ⟨_, hf, -⟩ := togglePause_ok h
    exact hquiet hf.tokenAccounts
  | finalizePresale =>
    obtain ⟨_, hf, -⟩ := finalizePresale_ok h
    exact hquiet hf.tokenAccounts
  | withdrawFunds =>
    obtain ⟨_, hw⟩ := withdrawFunds_ok h
    exact hquiet hw.tokenAccounts
  | withdrawUnsold => exact withdrawUnsold_ops h (.inr ⟨_, rfl, rfl⟩)
  | initializeStaking => exact initializeStaking_ops h
  | fundRewardVault => exact fundRewardVault_ops h (.inl rfl)
  | stake => exact stake_ops h (.inl rfl)
  | unstake => exact unstake_ops h (.inr ⟨_, rfl, rfl⟩)
  | claimRewards => exact claimRewards_ops h (.inr ⟨_, rfl, rfl⟩)
  | setAdminActionsLock =>
    obtain ⟨_, hf, -⟩ := setAdminActionsLock_ok h
    exact hquiet hf.tokenAccounts

end Presale

/-
The token supply, what all token accounts hold together: no call but `create_token` adds to it.
-/
import Presale.Program.Script
import Presale.Steps.Frame

namespace Presale

open World

/-- All token accounts together hold less than `N`. -/
def SupplyBelow (N : ℕ) (f : TokenAccounts) : Prop := Custody.Below N f.balance

section
variable {N : ℕ} {f f' : TokenAccounts} {src dst a : Address} {n : ℕ}

theorem TokenMove.supplyBelow (h : TokenMove f f' src dst n) (hb : SupplyBelow N f) : SupplyBelow N f' := by
  by_cases hsd : src = dst
  · rw [h.self hsd]; exact hb
  · apply Custody.Below.move hb hsd
    · have := h.covered
      show f'.balance src + n = f.balance src
      rw [h.source hsd]; omega
    · exact h.target hsd
    · intro x hs hd
      exact h.balance_other hs hd

theorem AccountReady.supplyBelow (h : AccountReady f f' a) (hb : SupplyBelow N f) : SupplyBelow N f' :=
  Custody.Below.mono hb fun x => (h.balance x).le

theorem RewardPaid.supplyBelow {A : Pubkey} (h : RewardPaid A a n f f') (hb : SupplyBelow N f) : SupplyBelow N f' := by
  rcases h.move with ⟨-, rfl⟩ | hm
  · exact hb
  · exact hm.supplyBelow hb

/-- A new, empty account adds nothing. -/
theorem supplyBelow_update {mint : Pubkey} {owner : Address} (hf : f a = none) (hb : SupplyBelow N f) :
    SupplyBelow N (Function.update f a (some ⟨mint, owner, 0⟩)) :=
  Custody.Below.mono hb fun _ => (balance_update hf).le

end

/-! ## Calls -/

/-- The call mints tokens. -/
def Call.mints : Call → Bool
  | .createToken .. => true
  | _ => false

theorem exec_supplyBelow {N : ℕ} {c : Call} {w w' : World} (h : exec c w = .ok w') (hc : c.mints = false)
    (hb : SupplyBelow N w.tokenAccounts) : SupplyBelow N w'.tokenAccounts := by
  cases c with
  | createToken => cases hc
  | initializePresale =>
    have hl := initializePresale_ok h
    rw [hl.tokenAccounts]
    exact supplyBelow_update hl.noVault hb
  | fundPresaleVault =>
    obtain ⟨_, hf⟩ := fundPresaleVault_ok h
    exact hf.move.supplyBelow hb
  | buyTokens =>
    obtain ⟨_, _, _, _, _, hbuy⟩ := buyTokens_ok h
    rcases hbuy.tokenAccounts with ⟨-, hsame⟩ | ⟨-, _, _, -, hm⟩
    · rw [hsame]; exact hb
    · exact hm.supplyBelow hb
  | claimVested =>
    obtain ⟨_, _, _, hcl⟩ := claimVested_ok h
    obtain ⟨_, hready, hmove⟩ := hcl.tokenAccounts
    exact hmove.supplyBelow (hready.supplyBelow hb)
  | claimRefund =>
    obtain ⟨_, _, hr⟩ := claimRefund_ok h
    rw [hr.tokenAccounts]; exact hb
  | togglePause =>
    obtain ⟨_, hs, -⟩ := togglePause_ok h
    rw [hs.tokenAccounts]; exact hb
  | finalizePresale =>
    obtain ⟨_, hs, -⟩ := finalizePresale_ok h
    rw [hs.tokenAccounts]; exact hb
  | withdrawFunds =>
    obtain ⟨_, hw⟩ := withdrawFunds_ok h
    rw [hw.tokenAccounts]; exact hb
  | withdrawUnsold =>
    obtain ⟨_, _, hu⟩ := withdrawUnsold_ok h
    obtain ⟨_, hready, hmove⟩ := hu.tokenAccounts
    exact hmove.supplyBelow (hready.supplyBelow hb)
  | initializeStaking ctx =>
    obtain ⟨_, hp⟩ := initializeStaking_ok h
    rw [hp.tokenAccounts]
    apply supplyBelow_update _ (supplyBelow_update hp.noStakeVault hb)
    rw [Function.update_of_ne (by simp)]
    exact hp.noRewardVault
  | fundRewardVault =>
    obtain ⟨_, _, hf⟩ := fundRewardVault_ok h
    exact hf.move.supplyBelow hb
  | stake =>
    obtain ⟨_, _, hs⟩ := stake_ok h
    exact hs.move.supplyBelow hb
  | unstake =>
    obtain ⟨_, _, _, _, hu⟩ := unstake_ok h
    obtain ⟨_, hpay, hmove⟩ := hu.moves
    exact hmove.supplyBelow (hpay.supplyBelow hb)
  | claimRewards =>
    obtain ⟨_, _, _, _, hc⟩ := claimRewards_ok h
    exact hc.move.supplyBelow hb
  | setAdminActionsLock =>
    obtain ⟨_, hs, -⟩ := setAdminActionsLock_ok h
    rw [hs.tokenAccounts]; exact hb

/-! ## Scripts -/

def Act.mints : Act → Bool
  | .call c => c.mints
  | .wait _ => false

theorem Act.perform_supplyBelow {N : ℕ} {w : World} : ∀ {a : Act}, a.mints = false → SupplyBelow N w.tokenAccounts →
    SupplyBelow N (a.perform w).2.tokenAccounts
  | .call c, hc, hb => by
    simp only [perform]
    rcases h : exec c w with e | w'
    · exact hb
    · exact exec_supplyBelow h hc hb
  | .wait _, _, hb => hb

/-- The supply stays below its bound before and after every step of a script that mints nothing. -/
theorem steps_supplyBelow {N : ℕ} : ∀ {w : World} {acts : List Act}, (∀ a ∈ acts, a.mints = false) →
    SupplyBelow N w.tokenAccounts → SupplyBelow N (play w acts).tokenAccounts ∧
      ∀ x ∈ steps w acts, SupplyBelow N x.before.tokenAccounts ∧ SupplyBelow N x.after.tokenAccounts
  | _, [], _, hb => ⟨hb, fun _ hx => absurd hx List.not_mem_nil⟩
  | w, a :: acts, ha, hb => by
    have hnext := Act.perform_supplyBelow (ha a List.mem_cons_self) hb
    obtain ⟨hend, hrest⟩ := steps_supplyBelow (fun x hx => ha x (List.mem_cons_of_mem _ hx)) hnext
    refine ⟨hend, fun x hx => ?_⟩
    rcases List.mem_cons.1 hx with rfl | hx
    · exact ⟨hb, hnext⟩
    · exact hrest x hx

/-- A world before the program is used, whose wallets are on a list. -/
theorem blank_supplyBelow {N : ℕ} {mints : Pubkey → Option Mint} {wallets : Address → Option TokenAccount}
    {lamports : Address → ℕ} {l : List Address} (hl : l.Nodup) (hout : ∀ a, a ∉ l → wallets a = none)
    (hsum : (l.map (blank mints wallets lamports).balance).sum < N) :
    SupplyBelow N (blank mints wallets lamports).tokenAccounts := by
  refine Custody.Below.of_list hl ?_ hsum
  intro a ha
  have hnone := hout a ha
  unfold TokenAccounts.balance
  cases a with
  | key k => simp [blank, hnone]
  | ata owner mint => simp [blank, hnone]
  | _ => rfl

theorem sampleWorld_supplyBelow : SupplyBelow (2 ^ 64) sampleWorld.tokenAccounts := by
  apply blank_supplyBelow (l := [1, 2, 3, 4, 5].map fun k => .ata (.key k) 100) (by decide)
  · intro a ha
    cases a with
    | ata owner m =>
      cases owner with
      | key k => exact if_neg fun h => ha (List.mem_map.2 ⟨k, h.2, by rw [h.1]⟩)
      | _ => rfl
    | _ => rfl
  · decide +kernel

theorem sampleOpened_supplyBelow (rate : ℕ) : SupplyBelow (2 ^ 64) (sampleOpened rate).tokenAccounts :=
  (steps_supplyBelow (by simp [Act.mints, Call.mints])
    (steps_supplyBelow (by decide) sampleWorld_supplyBelow).1).1

end Presale

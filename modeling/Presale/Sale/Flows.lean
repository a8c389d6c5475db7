/-
What a step of a run moved between a user and a presale: tokens bought and claimed, lamports paid
in and refunded, each measured at the presale's own counter or vault.
-/
import Presale.Steps.Sale

namespace Presale

open World

/-! ## Flows -/

/-- The tokens a presale has sold. -/
def World.sold (w : World) (A : Pubkey) : ℕ := ((w.states A).map (·.tokensSold)).getD 0

/-- The tokens a purchase of `u` took off the presale of `A`. -/
def boughtIn (A u : Pubkey) (x : Transition) : ℕ :=
  match x.label with
  | .ok (.buyTokens ctx _ _) => if ctx.state = A ∧ ctx.buyer = u then x.after.sold A - x.before.sold A else 0
  | _ => 0

/-- The lamports a purchase of `u` put into the sol vault of `A`. -/
def paidInto (A u : Pubkey) (x : Transition) : ℕ :=
  match x.label with
  | .ok (.buyTokens ctx _ _) =>
    if ctx.state = A ∧ ctx.buyer = u then x.after.lamports (.solVault A) - x.before.lamports (.solVault A) else 0
  | _ => 0

/-- The tokens a claim of `u` took out of the token vault of `A`. -/
def claimedFrom (A u : Pubkey) (x : Transition) : ℕ :=
  match x.label with
  | .ok (.claimVested ctx) =>
    if ctx.state = A ∧ ctx.user = u then x.before.balance (.tokenVault A) - x.after.balance (.tokenVault A) else 0
  | _ => 0

/-- The lamports a refund of `u` took out of the sol vault of `A`. -/
def refundedFrom (A u : Pubkey) (x : Transition) : ℕ :=
  match x.label with
  | .ok (.claimRefund ctx) =>
    if ctx.state = A ∧ ctx.user = u then x.before.lamports (.solVault A) - x.after.lamports (.solVault A) else 0
  | _ => 0

/-! ## Flows of a call -/

section
variable {w w' : World} {A u : Pubkey}

theorem Bought.vault {ctx : BuyTokens} {solAmount : ℕ} {referrer : Option Address} {st : PresaleState} {m : Mint}
    {wk : Walk} {solUsed bonus : ℕ} (h : Bought ctx solAmount referrer w w' st m wk solUsed bonus) :
    w'.balance (.tokenVault ctx.state) + bonus = w.balance (.tokenVault ctx.state) := by
  rw [balance_eq, balance_eq]
  rcases h.tokenAccounts with ⟨h0, he⟩ | ⟨-, _, _, -, hm⟩
  · rw [he]; omega
  · rw [hm.source (by simp)]
    have := hm.covered
    omega

theorem Bought.sol {ctx : BuyTokens} {solAmount : ℕ} {referrer : Option Address} {st : PresaleState} {m : Mint}
    {wk : Walk} {solUsed bonus : ℕ} (h : Bought ctx solAmount referrer w w' st m wk solUsed bonus) :
    w'.lamports (.solVault ctx.state) = w.lamports (.solVault ctx.state) + solUsed := by
  rw [h.lamports, movedLamports_target _ _ (by simp)]

theorem Bought.boughtIn {ctx : BuyTokens} {solAmount : ℕ} {referrer : Option Address} {st : PresaleState} {m : Mint}
    {wk : Walk} {solUsed bonus : ℕ} (h : Bought ctx solAmount referrer w w' st m wk solUsed bonus) :
    boughtIn A u ⟨w, .ok (.buyTokens ctx solAmount referrer), w'⟩ =
      if ctx.state = A ∧ ctx.buyer = u then wk.tokens else 0 := by
  simp only [Presale.boughtIn]
  split
  · rename_i hA
    rw [← hA.1]
    simp [World.sold, h.states, h.state, PresaleState.bought]
  · rfl

theorem Bought.paidInto {ctx : BuyTokens} {solAmount : ℕ} {referrer : Option Address} {st : PresaleState} {m : Mint}
    {wk : Walk} {solUsed bonus : ℕ} (h : Bought ctx solAmount referrer w w' st m wk solUsed bonus) :
    paidInto A u ⟨w, .ok (.buyTokens ctx solAmount referrer), w'⟩ =
      if ctx.state = A ∧ ctx.buyer = u then solUsed else 0 := by
  simp only [Presale.paidInto]
  split
  · rename_i hA
    rw [← hA.1, h.sol]
    omega
  · rfl

theorem Claimed.vault {ctx : ClaimVested} {st : PresaleState} {v : UserVesting} {paid : ℕ}
    (h : Claimed ctx w w' st v paid) :
    w'.balance (.tokenVault ctx.state) + paid = w.balance (.tokenVault ctx.state) := by
  obtain ⟨f, hready, hmove⟩ := h.tokenAccounts
  rw [balance_eq, balance_eq, hmove.source (by simp), ← hready.balance]
  have := hmove.covered
  omega

theorem Claimed.claimedFrom {ctx : ClaimVested} {st : PresaleState} {v : UserVesting} {paid : ℕ}
    (h : Claimed ctx w w' st v paid) :
    claimedFrom A u ⟨w, .ok (.claimVested ctx), w'⟩ = if ctx.state = A ∧ ctx.user = u then paid else 0 := by
  simp only [Presale.claimedFrom]
  split
  · rename_i hA
    rw [← hA.1]
    have := h.vault
    omega
  · rfl

theorem Refunded.sol {ctx : ClaimRefund} {st : PresaleState} {v : UserVesting} (h : Refunded ctx w w' st v) :
    w'.lamports (.solVault ctx.state) + v.contributedLamports = w.lamports (.solVault ctx.state) := by
  rw [h.lamports, movedLamports_source _ _ (by simp)]
  have := h.covered
  omega

theorem Refunded.refundedFrom {ctx : ClaimRefund} {st : PresaleState} {v : UserVesting} (h : Refunded ctx w w' st v) :
    refundedFrom A u ⟨w, .ok (.claimRefund ctx), w'⟩ =
      if ctx.state = A ∧ ctx.user = u then v.contributedLamports else 0 := by
  simp only [Presale.refundedFrom]
  split
  · rename_i hA
    rw [← hA.1]
    have := h.sol
    omega
  · rfl

end

/-! ## Steps without flows -/

section
variable {A u : Pubkey} {x : Transition}

/-- A step that writes no vesting record moves nothing between a user and a presale. -/
theorem no_flow (h : x.label.writesVesting = none) :
    boughtIn A u x = 0 ∧ paidInto A u x = 0 ∧ claimedFrom A u x = 0 ∧ refundedFrom A u x = 0 := by
  obtain ⟨w, l, w'⟩ := x
  cases l with
  | failed _ _ => exact ⟨rfl, rfl, rfl, rfl⟩
  | outside => exact ⟨rfl, rfl, rfl, rfl⟩
  | ok c =>
    cases c with
    | buyTokens => cases h
    | claimVested => cases h
    | claimRefund => cases h
    | _ => exact ⟨rfl, rfl, rfl, rfl⟩

end

end Presale

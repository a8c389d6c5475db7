/-
The program as a transition system (`lib.rs`): calls routed to their handlers, failing calls that
change nothing, and what goes on around the program between calls.

Around the program, time passes, other accounts change at will, new mints appear, mint authorities
pass on, and anyone may pay tokens or lamports into an account of the program. Nobody else can take
from the program's accounts or write its records.
-/
import Presale.Program.Admin
import Presale.Program.Investor
import Presale.Program.Staking
import Presale.Lib.Runs

namespace Presale

/-! ## Calls -/

inductive Call where
  | createToken (ctx : CreateToken) (decimals initialSupply : ℕ) (name symbol uri : String)
  | initializePresale (ctx : InitializePresale) (args : InitializePresaleArgs)
  | fundPresaleVault (ctx : FundVault) (amount : ℕ)
  | buyTokens (ctx : BuyTokens) (solAmount : ℕ) (referrer : Option Address)
  | claimVested (ctx : ClaimVested)
  | claimRefund (ctx : ClaimRefund)
  | togglePause (ctx : AdminOnly) (paused : Bool)
  | finalizePresale (ctx : AdminOnly)
  | withdrawFunds (ctx : WithdrawFunds)
  | withdrawUnsold (ctx : AdminWithdraw)
  | initializeStaking (ctx : InitializeStaking) (rewardRatePerSecond : ℕ)
  | fundRewardVault (ctx : FundRewardVault) (amount : ℕ)
  | stake (ctx : Stake) (amount : ℕ)
  | unstake (ctx : Unstake) (amount : ℕ)
  | claimRewards (ctx : ClaimRewards)
  | setAdminActionsLock (ctx : AdminOnly) (unlockTimestamp : ℤ)

def exec : Call → World → Except Error World
  | .createToken ctx decimals initialSupply name symbol uri, w =>
    createToken ctx decimals initialSupply name symbol uri w
  | .initializePresale ctx args, w => initializePresale ctx args w
  | .fundPresaleVault ctx amount, w => fundPresaleVault ctx amount w
  | .buyTokens ctx solAmount referrer, w => buyTokens ctx solAmount referrer w
  | .claimVested ctx, w => claimVested ctx w
  | .claimRefund ctx, w => claimRefund ctx w
  | .togglePause ctx paused, w => togglePause ctx paused w
  | .finalizePresale ctx, w => finalizePresale ctx w
  | .withdrawFunds ctx, w => withdrawFunds ctx w
  | .withdrawUnsold ctx, w => withdrawUnsold ctx w
  | .initializeStaking ctx rewardRatePerSecond, w => initializeStaking ctx rewardRatePerSecond w
  | .fundRewardVault ctx amount, w => fundRewardVault ctx amount w
  | .stake ctx amount, w => stake ctx amount w
  | .unstake ctx amount, w => unstake ctx amount w
  | .claimRewards ctx, w => claimRewards ctx w
  | .setAdminActionsLock ctx unlockTimestamp, w => setAdminActionsLock ctx unlockTimestamp w

/-- An argument of type `u64`, `i64`, and so on holds a value of its type. -/
abbrev IsU64 (n : ℕ) : Prop := n < 2 ^ 64
abbrev IsI64 (x : ℤ) : Prop := -2 ^ 63 ≤ x ∧ x < 2 ^ 63

structure InitializePresaleArgs.InRange (args : InitializePresaleArgs) : Prop where
  softCap : IsU64 args.softCap
  hardCap : IsU64 args.hardCap
  maxContribution : IsU64 args.maxContribution
  tokensForSale : IsU64 args.tokensForSale
  startTime : IsI64 args.startTime
  endTime : IsI64 args.endTime
  vestingDuration : IsI64 args.vestingDuration
  vestingCliff : IsI64 args.vestingCliff
  minClaimAmount : IsU64 args.minClaimAmount
  referralBonusBps : args.referralBonusBps < 2 ^ 16
  stages : ∀ stage ∈ args.stages, IsU64 stage.pricePerToken ∧ IsU64 stage.tokensAvailable ∧
    IsU64 stage.tokensSoldInStage

def Call.InRange : Call → Prop
  | .createToken _ decimals initialSupply _ _ _ => decimals < 2 ^ 8 ∧ IsU64 initialSupply
  | .initializePresale _ args => args.InRange
  | .fundPresaleVault _ amount => IsU64 amount
  | .buyTokens _ solAmount _ => IsU64 solAmount
  | .claimVested _ => True
  | .claimRefund _ => True
  | .togglePause _ _ => True
  | .finalizePresale _ => True
  | .withdrawFunds _ => True
  | .withdrawUnsold _ => True
  | .initializeStaking _ rewardRatePerSecond => IsU64 rewardRatePerSecond
  | .fundRewardVault _ amount => IsU64 amount
  | .stake _ amount => IsU64 amount
  | .unstake _ amount => IsU64 amount
  | .claimRewards _ => True
  | .setAdminActionsLock _ unlockTimestamp => IsI64 unlockTimestamp

/-! ## Around the program -/

/-- The address is one this program signs for. -/
def Address.IsAuthority (a : Address) : Prop := ∃ admin, a = .vaultAuthority admin

/-- The addresses this program creates token accounts at. -/
def Address.IsVault (a : Address) : Prop :=
  ∃ admin, a = .tokenVault admin ∨ a = .stakeVault admin ∨ a = .rewardVault admin

/-- What may become of a mint: its decimals stay, and a mint authority that was given up is gone. -/
structure Mint.Later (m m' : Mint) : Prop where
  decimals : m'.decimals = m.decimals
  revoked : m.mintAuthority = none → m'.mintAuthority = none

theorem Mint.Later.refl (m : Mint) : m.Later m := ⟨rfl, id⟩

theorem Mint.Later.trans {m₁ m₂ m₃ : Mint} (h : m₁.Later m₂) (h' : m₂.Later m₃) : m₁.Later m₃ :=
  ⟨h'.decimals.trans h.decimals, fun hr => h'.revoked (h.revoked hr)⟩

/-- What may happen between two calls. -/
structure Outside (w w' : World) : Prop where
  clock : w.clock ≤ w'.clock
  clockFits : IsI64 w'.clock
  states : w'.states = w.states
  vestings : w'.vestings = w.vestings
  pools : w'.pools = w.pools
  userStakes : w'.userStakes = w.userStakes
  log : w'.log = w.log
  mints : ∀ k m, w.mints k = some m → ∃ m', w'.mints k = some m' ∧ m.Later m'
  /-- A token account under a program authority only gains tokens. -/
  held : ∀ a t, w.tokenAccounts a = some t → t.owner.IsAuthority →
    ∃ amount, t.amount ≤ amount ∧ w'.tokenAccounts a = some { t with amount }
  /-- Nobody else creates an account at a vault's address. -/
  vaults : ∀ a, a.IsVault → w.tokenAccounts a = none → w'.tokenAccounts a = none
  solVaults : ∀ admin, w.lamports (.solVault admin) ≤ w'.lamports (.solVault admin)

/-! ## Steps -/

inductive Label where
  | ok (c : Call)
  | failed (c : Call) (e : Error)
  | outside

/-- A call with well-typed arguments succeeds, or fails and changes nothing; or something happens
around the program. -/
inductive Step : World → Label → World → Prop
  | ok {c : Call} {w w' : World} : c.InRange → exec c w = .ok w' → Step w (.ok c) w'
  | failed {c : Call} {e : Error} {w : World} : c.InRange → exec c w = .error e → Step w (.failed c e) w
  | outside {w w' : World} : Outside w w' → Step w .outside w'

abbrev Transition := Runs.Transition World Label

abbrev Run := Runs.Run Step

/-- Before the program has been used: none of its records or vaults exist. -/
structure Genesis (w : World) : Prop where
  clockFits : IsI64 w.clock
  states : ∀ k, w.states k = none
  vestings : ∀ k, w.vestings k = none
  pools : ∀ k, w.pools k = none
  userStakes : ∀ k, w.userStakes k = none
  vaults : ∀ a, a.IsVault → w.tokenAccounts a = none
  log : w.log = []

/-- A world the program can reach. -/
def Reachable (w : World) : Prop := ∃ w₀ tr, Genesis w₀ ∧ Run w₀ tr w

end Presale

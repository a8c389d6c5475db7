/-
The frame of a step: which vaults a call may take from, which records it may write, and that
everything else of the program stays, the vaults at no less than they held.
-/
import Presale.Effects.Admin
import Presale.Effects.Investor
import Presale.Effects.Staking
import Presale.Program.Machine

namespace Presale

open World

/-! ## Footprints -/

/-- The vaults a call may take tokens or lamports from. -/
def Call.spends : Call → List Address
  | .buyTokens ctx _ _ => [.tokenVault ctx.state]
  | .claimVested ctx => [.tokenVault ctx.state]
  | .claimRefund ctx => [.solVault ctx.state]
  | .withdrawFunds ctx => [.solVault ctx.state]
  | .withdrawUnsold ctx => [.tokenVault ctx.state]
  | .unstake ctx _ => [.stakeVault ctx.state, .rewardVault ctx.state]
  | .claimRewards ctx => [.rewardVault ctx.state]
  | _ => []

/-- The presale whose state a call may write. -/
def Call.writesState : Call → Option Pubkey
  | .initializePresale ctx _ => some ctx.admin
  | .buyTokens ctx _ _ => some ctx.state
  | .togglePause ctx _ => some ctx.state
  | .finalizePresale ctx => some ctx.state
  | .setAdminActionsLock ctx _ => some ctx.state
  | _ => none

/-- The presale a call writes a vesting record for. -/
def Call.writesVesting : Call → Option Pubkey
  | .buyTokens ctx _ _ => some ctx.state
  | .claimVested ctx => some ctx.state
  | .claimRefund ctx => some ctx.state
  | _ => none

/-- The presale whose pool a call may write. -/
def Call.writesPool : Call → Option Pubkey
  | .initializeStaking ctx _ => some ctx.state
  | .fundRewardVault ctx _ => some ctx.state
  | .stake ctx _ => some ctx.state
  | .unstake ctx _ => some ctx.state
  | .claimRewards ctx => some ctx.state
  | _ => none

/-- The pool a call writes a stake record for. -/
def Call.writesStake : Call → Option Pubkey
  | .stake ctx _ => some ctx.state
  | .unstake ctx _ => some ctx.state
  | .claimRewards ctx => some ctx.state
  | _ => none

/-- The pool and the user a call writes a stake record for. -/
def Call.staker : Call → Option (Pubkey × Pubkey)
  | .stake ctx _ => some (ctx.state, ctx.user)
  | .unstake ctx _ => some (ctx.state, ctx.user)
  | .claimRewards ctx => some (ctx.state, ctx.user)
  | _ => none

/-- A footprint of the call a step makes; a failed call or a step outside has none. -/
def Label.footprint {α : Type} (l : Label) (f : Call → α) (empty : α) : α :=
  match l with
  | .ok c => f c
  | .failed _ _ => empty
  | .outside => empty

def Label.spends (l : Label) : List Address := l.footprint Call.spends []
def Label.writesState (l : Label) : Option Pubkey := l.footprint Call.writesState none
def Label.writesVesting (l : Label) : Option Pubkey := l.footprint Call.writesVesting none
def Label.writesPool (l : Label) : Option Pubkey := l.footprint Call.writesPool none
def Label.writesStake (l : Label) : Option Pubkey := l.footprint Call.writesStake none
def Label.staker (l : Label) : Option (Pubkey × Pubkey) := l.footprint Call.staker none

/-! ## Vault accounts -/

/-- Every vault account is under one of the program's authorities. -/
def Owned (f : TokenAccounts) : Prop := ∀ a t, a.IsVault → f a = some t → t.owner.IsAuthority

/-- The vault accounts stay, with their mint and owner, and one that appears is under an authority
of the program. -/
structure Evolves (f f' : TokenAccounts) : Prop where
  kept : ∀ x t, x.IsVault → f x = some t → ∃ n, f' x = some { t with amount := n }
  fresh : ∀ x t, x.IsVault → f x = none → f' x = some t → t.owner.IsAuthority

theorem isVault_tokenVault (A : Pubkey) : (Address.tokenVault A).IsVault := ⟨A, .inl rfl⟩
theorem isVault_stakeVault (A : Pubkey) : (Address.stakeVault A).IsVault := ⟨A, .inr (.inl rfl)⟩
theorem isVault_rewardVault (A : Pubkey) : (Address.rewardVault A).IsVault := ⟨A, .inr (.inr rfl)⟩

theorem Address.IsVault.ne_ata {x owner : Address} {mint : Pubkey} (hx : x.IsVault) : x ≠ .ata owner mint := by
  rintro rfl
  rcases hx with ⟨A, h | h | h⟩ <;> cases h

/-- A wallet's token account is not a vault. -/
theorem Owned.ne_source {f : TokenAccounts} {x src : Address} {k : Pubkey} (ho : Owned f) (hx : x.IsVault)
    (h : ∃ a, f src = some a ∧ a.owner = .key k) : x ≠ src := by
  rintro rfl
  obtain ⟨a, ha, hk⟩ := h
  obtain ⟨A, hA⟩ := ho x a hx ha
  rw [hk] at hA
  cases hA

theorem Evolves.refl (f : TokenAccounts) : Evolves f f :=
  ⟨fun _ t _ h => ⟨t.amount, h⟩, fun x t _ h h' => by rw [h] at h'; cases h'⟩

theorem Evolves.trans {f g h : TokenAccounts} (h₁ : Evolves f g) (h₂ : Evolves g h) : Evolves f h := by
  constructor
  · intro x t hx ht
    obtain ⟨n, hn⟩ := h₁.kept x t hx ht
    obtain ⟨n', hn'⟩ := h₂.kept x { t with amount := n } hx hn
    exact ⟨n', hn'⟩
  · intro x t hx hf ht
    cases hg : g x with
    | none => exact h₂.fresh x t hx hg ht
    | some s =>
      obtain ⟨n, hn⟩ := h₂.kept x s hx hg
      rw [hn] at ht
      cases ht
      exact h₁.fresh x s hx hf hg

theorem Evolves.owned {f f' : TokenAccounts} (h : Evolves f f') (ho : Owned f) : Owned f' := by
  intro a t ha ht
  cases hf : f a with
  | none => exact h.fresh a t ha hf ht
  | some s =>
    obtain ⟨n, hn⟩ := h.kept a s ha hf
    rw [hn] at ht
    cases ht
    exact ho a s ha hf

theorem TokenMove.evolves {f f' : TokenAccounts} {src dst : Address} {amount : ℕ}
    (h : TokenMove f f' src dst amount) : Evolves f f' :=
  ⟨fun x t _ ht => h.kept x t ht, fun x t _ hx ht => by rw [h.absent x hx] at ht; cases ht⟩

theorem AccountReady.evolves {f f' : TokenAccounts} {owner : Address} {mint : Pubkey}
    (h : AccountReady f f' (.ata owner mint)) : Evolves f f' := by
  refine ⟨fun x t _ ht => ⟨t.amount, h.kept x t ht⟩, fun x t hx hf ht => ?_⟩
  rw [h.other x hx.ne_ata, hf] at ht
  cases ht

/-- A new, empty vault under an authority of the program. -/
theorem evolves_update {f : TokenAccounts} {a : Address} {t : TokenAccount} (hf : f a = none)
    (ht : t.owner.IsAuthority) : Evolves f (Function.update f a (some t)) := by
  constructor
  · intro x s _ hs
    have hne : x ≠ a := by rintro rfl; rw [hf] at hs; cases hs
    exact ⟨s.amount, by rw [Function.update_of_ne hne, hs]⟩
  · intro x s _ hx hs
    by_cases hxa : x = a
    · subst hxa
      rw [Function.update_self] at hs
      cases hs
      exact ht
    · rw [Function.update_of_ne hxa, hx] at hs
      cases hs

/-- A new, empty account takes nothing from any. -/
theorem balance_update {f : TokenAccounts} {a x : Address} {mint : Pubkey} {owner : Address} (hf : f a = none) :
    TokenAccounts.balance (Function.update f a (some ⟨mint, owner, 0⟩)) x = f.balance x := by
  by_cases hxa : x = a
  · subst hxa; simp [TokenAccounts.balance, hf]
  · simp [TokenAccounts.balance, Function.update_of_ne hxa]

/-! ## The frame -/

/-- What a step leaves alone. -/
structure Frame (w : World) (l : Label) (w' : World) : Prop where
  clock : w.clock ≤ w'.clock
  evolves : Evolves w.tokenAccounts w'.tokenAccounts
  balance : ∀ x, x.IsVault → x ∉ l.spends → w.balance x ≤ w'.balance x
  lamports : ∀ A, .solVault A ∉ l.spends → w.lamports (.solVault A) ≤ w'.lamports (.solVault A)
  states : ∀ A, l.writesState ≠ some A → w'.states A = w.states A
  vestings : l.writesVesting = none → w'.vestings = w.vestings
  pools : ∀ A, l.writesPool ≠ some A → w'.pools A = w.pools A
  userStakes : l.writesStake = none → w'.userStakes = w.userStakes

section
variable {w w' : World}

/-- A step that changes nothing. -/
theorem Frame.refl (w : World) (l : Label) : Frame w l w :=
  ⟨le_rfl, .refl _, fun _ _ _ => le_rfl, fun _ _ => le_rfl, fun _ _ => rfl, fun _ => rfl, fun _ _ => rfl, fun _ => rfl⟩

theorem TokenCreated.frame (h : TokenCreated w w') {l : Label} : Frame w l w' := by
  refine ⟨h.clock.ge, ⟨?_, ?_⟩, ?_, ?_, ?_, ?_, ?_, ?_⟩
  · intro x t _ ht
    obtain ⟨n, -, hn⟩ := h.kept x t ht
    exact ⟨n, hn⟩
  · intro x t hx hf ht
    obtain ⟨owner, mint, rfl⟩ := h.vaults x hf (by rw [ht]; simp)
    exact absurd (rfl : Address.ata owner mint = .ata owner mint) hx.ne_ata
  · intro x _ _
    cases hf : w.tokenAccounts x with
    | none => simp [World.balance, hf]
    | some t =>
      obtain ⟨n, hle, hn⟩ := h.kept x t hf
      simpa [World.balance, hf, hn] using hle
  · intro A _; rw [h.lamports]
  · intro A _; rw [h.states]
  · intro _; exact h.vestings
  · intro A _; rw [h.pools]
  · intro _; exact h.userStakes

theorem Launched.frame {ctx : InitializePresale} {args : InitializePresaleArgs} (h : Launched ctx args w w') :
    Frame w (.ok (.initializePresale ctx args)) w' := by
  refine ⟨h.clock.ge, ?_, ?_, ?_, ?_, ?_, ?_, ?_⟩
  · rw [h.tokenAccounts]
    exact evolves_update h.noVault ⟨_, rfl⟩
  · intro x _ _
    rw [balance_eq, balance_eq, h.tokenAccounts, balance_update h.noVault]
  · intro A _
    rw [h.lamports]
    by_cases hA : A = ctx.admin
    · subst hA; rw [Function.update_self]; exact le_max_left _ _
    · rw [Function.update_of_ne (by simpa using hA)]
  · intro A hA
    rw [h.states, Function.update_of_ne]
    rintro rfl; exact hA rfl
  · intro _; exact h.vestings
  · intro A _; rw [h.pools]
  · intro _; exact h.userStakes

theorem FlagsSet.frame {A : Pubkey} {st : PresaleState} {active paused : Bool} {lock : ℤ} {l : Label}
    (h : FlagsSet A w w' st active paused lock) (hl : l.writesState = some A) : Frame w l w' := by
  refine ⟨h.clock.ge, by rw [h.tokenAccounts]; exact .refl _, ?_, ?_, ?_, ?_, ?_, ?_⟩
  · intro x _ _; rw [balance_eq, balance_eq, h.tokenAccounts]
  · intro B _; rw [h.lamports]
  · intro B hB
    rw [h.states, Function.update_of_ne]
    rintro rfl; exact hB hl
  · intro _; exact h.vestings
  · intro B _; rw [h.pools]
  · intro _; exact h.userStakes

theorem Funded.frame {ctx : FundVault} {amount : ℕ} {st : PresaleState} (ho : Owned w.tokenAccounts)
    (h : Funded ctx amount w w' st) : Frame w (.ok (.fundPresaleVault ctx amount)) w' := by
  refine ⟨h.clock.ge, h.move.evolves, ?_, ?_, ?_, ?_, ?_, ?_⟩
  · intro x hx _; exact h.move.le_balance (ho.ne_source hx h.source)
  · intro B _; rw [h.lamports]
  · intro B _; rw [h.states]
  · intro _; exact h.vestings
  · intro B _; rw [h.pools]
  · intro _; exact h.userStakes

theorem Bought.frame {ctx : BuyTokens} {solAmount : ℕ} {referrer : Option Address} {st : PresaleState} {m : Mint}
    {wk : Walk} {solUsed bonus : ℕ} (h : Bought ctx solAmount referrer w w' st m wk solUsed bonus) :
    Frame w (.ok (.buyTokens ctx solAmount referrer)) w' := by
  refine ⟨h.clock.ge, ?_, ?_, ?_, ?_, nofun, ?_, ?_⟩
  · rcases h.tokenAccounts with ⟨-, he⟩ | ⟨-, _, _, -, hm⟩
    · rw [he]; exact .refl _
    · exact hm.evolves
  · intro x _ hns
    rw [balance_eq, balance_eq]
    rcases h.tokenAccounts with ⟨-, he⟩ | ⟨-, _, _, -, hm⟩
    · rw [he]
    · exact hm.le_balance (by rintro rfl; exact hns (List.mem_singleton_self _))
  · intro B _
    rw [h.lamports]
    exact le_movedLamports _ _ (by simp)
  · intro B hB
    rw [h.states, Function.update_of_ne]
    rintro rfl; exact hB rfl
  · intro B _; rw [h.pools]
  · intro _; exact h.userStakes

theorem Claimed.frame {ctx : ClaimVested} {st : PresaleState} {v : UserVesting} {paid : ℕ}
    (h : Claimed ctx w w' st v paid) : Frame w (.ok (.claimVested ctx)) w' := by
  obtain ⟨f, hready, hmove⟩ := h.tokenAccounts
  refine ⟨h.clock.ge, hready.evolves.trans hmove.evolves, ?_, ?_, ?_, nofun, ?_, ?_⟩
  · intro x _ hns
    rw [balance_eq, ← hready.balance]
    exact hmove.le_balance (by rintro rfl; exact hns (List.mem_singleton_self _))
  · intro B _; rw [h.lamports]
  · intro B _; rw [h.states]
  · intro B _; rw [h.pools]
  · intro _; exact h.userStakes

theorem Refunded.frame {ctx : ClaimRefund} {st : PresaleState} {v : UserVesting} (h : Refunded ctx w w' st v) :
    Frame w (.ok (.claimRefund ctx)) w' := by
  refine ⟨h.clock.ge, by rw [h.tokenAccounts]; exact .refl _, ?_, ?_, ?_, nofun, ?_, ?_⟩
  · intro x _ _; rw [balance_eq, balance_eq, h.tokenAccounts]
  · intro B hns
    rw [h.lamports]
    exact le_movedLamports _ _ (by intro he; exact hns (he ▸ List.mem_singleton_self _))
  · intro B _; rw [h.states]
  · intro B _; rw [h.pools]
  · intro _; exact h.userStakes

theorem FundsWithdrawn.frame {ctx : WithdrawFunds} {st : PresaleState} (h : FundsWithdrawn ctx w w' st) :
    Frame w (.ok (.withdrawFunds ctx)) w' := by
  refine ⟨h.clock.ge, by rw [h.tokenAccounts]; exact .refl _, ?_, ?_, ?_, ?_, ?_, ?_⟩
  · intro x _ _; rw [balance_eq, balance_eq, h.tokenAccounts]
  · intro B hns
    rw [h.lamports]
    exact le_movedLamports _ _ (by intro he; exact hns (he ▸ List.mem_singleton_self _))
  · intro B _; rw [h.states]
  · intro _; exact h.vestings
  · intro B _; rw [h.pools]
  · intro _; exact h.userStakes

theorem UnsoldWithdrawn.frame {ctx : AdminWithdraw} {st : PresaleState} {amount : ℕ}
    (h : UnsoldWithdrawn ctx w w' st amount) : Frame w (.ok (.withdrawUnsold ctx)) w' := by
  obtain ⟨f, hready, hmove⟩ := h.tokenAccounts
  refine ⟨h.clock.ge, hready.evolves.trans hmove.evolves, ?_, ?_, ?_, ?_, ?_, ?_⟩
  · intro x _ hns
    rw [balance_eq, ← hready.balance]
    exact hmove.le_balance (by rintro rfl; exact hns (List.mem_singleton_self _))
  · intro B _; rw [h.lamports]
  · intro B _; rw [h.states]
  · intro _; exact h.vestings
  · intro B _; rw [h.pools]
  · intro _; exact h.userStakes

/-- A staking call's frame, from what it does to token accounts, pools and stake records. -/
theorem SaleKept.frame {l : Label} (h : SaleKept w w') (he : Evolves w.tokenAccounts w'.tokenAccounts)
    (hb : ∀ x, x.IsVault → x ∉ l.spends → w.balance x ≤ w'.balance x)
    (hp : ∀ A, l.writesPool ≠ some A → w'.pools A = w.pools A)
    (hu : l.writesStake = none → w'.userStakes = w.userStakes) : Frame w l w' :=
  ⟨h.clock.ge, he, hb, fun _ _ => by rw [h.lamports], fun _ _ => by rw [h.states], fun _ => h.vestings, hp, hu⟩

theorem PoolOpened.frame {ctx : InitializeStaking} {rate : ℕ} {st : PresaleState} (h : PoolOpened ctx rate w w' st) :
    Frame w (.ok (.initializeStaking ctx rate)) w' := by
  have hne : Address.rewardVault ctx.state ≠ .stakeVault ctx.state := by simp
  have hreward := (Function.update_of_ne hne (some (⟨ctx.mint, .vaultAuthority ctx.state, 0⟩ : TokenAccount))
    w.tokenAccounts).trans h.noRewardVault
  refine h.kept.frame ?_ ?_ ?_ fun _ => h.userStakes
  · rw [h.tokenAccounts]
    exact (evolves_update h.noStakeVault ⟨_, rfl⟩).trans (evolves_update hreward ⟨_, rfl⟩)
  · intro x _ _
    rw [balance_eq, balance_eq, h.tokenAccounts, balance_update hreward, balance_update h.noStakeVault]
  · intro B hB
    rw [h.pools, Function.update_of_ne]
    rintro rfl; exact hB rfl

theorem RewardsFunded.frame {ctx : FundRewardVault} {amount : ℕ} {st : PresaleState} {p : StakePool}
    (ho : Owned w.tokenAccounts) (h : RewardsFunded ctx amount w w' st p) :
    Frame w (.ok (.fundRewardVault ctx amount)) w' := by
  refine h.kept.frame h.move.evolves ?_ ?_ fun _ => h.userStakes
  · intro x hx _; exact h.move.le_balance (ho.ne_source hx h.source)
  · intro B hB
    rw [h.pools, Function.update_of_ne]
    rintro rfl; exact hB rfl

theorem Staked.frame {ctx : Stake} {amount : ℕ} {st : PresaleState} {p : StakePool} (ho : Owned w.tokenAccounts)
    (h : Staked ctx amount w w' st p) : Frame w (.ok (.stake ctx amount)) w' := by
  refine h.kept.frame h.move.evolves ?_ ?_ nofun
  · intro x hx _; exact h.move.le_balance (ho.ne_source hx h.source)
  · intro B hB
    rw [h.pools, Function.update_of_ne]
    rintro rfl; exact hB rfl

theorem RewardPaid.evolves {A : Pubkey} {a : Address} {paid : ℕ} {f f' : TokenAccounts} (h : RewardPaid A a paid f f') :
    Evolves f f' := by
  rcases h.move with ⟨-, rfl⟩ | hm
  · exact .refl _
  · exact hm.evolves

theorem RewardPaid.le_balance {A : Pubkey} {a x : Address} {paid : ℕ} {f f' : TokenAccounts}
    (h : RewardPaid A a paid f f') (hx : x ≠ .rewardVault A) : f.balance x ≤ f'.balance x := by
  rcases h.move with ⟨-, rfl⟩ | hm
  · exact le_rfl
  · exact hm.le_balance hx

theorem Unstaked.frame {ctx : Unstake} {amount : ℕ} {st : PresaleState} {p : StakePool} {s : UserStake} {paid : ℕ}
    (h : Unstaked ctx amount w w' st p s paid) : Frame w (.ok (.unstake ctx amount)) w' := by
  obtain ⟨f, hpay, hmove⟩ := h.moves
  refine h.kept.frame (hpay.evolves.trans hmove.evolves) ?_ ?_ nofun
  · intro x _ hns
    have hs : x ≠ .stakeVault ctx.state := by rintro rfl; exact hns (by simp [Label.spends, Label.footprint, Call.spends])
    have hr : x ≠ .rewardVault ctx.state := by rintro rfl; exact hns (by simp [Label.spends, Label.footprint, Call.spends])
    exact (hpay.le_balance hr).trans (hmove.le_balance hs)
  · intro B hB
    rw [h.pools, Function.update_of_ne]
    rintro rfl; exact hB rfl

theorem RewardsClaimed.frame {ctx : ClaimRewards} {st : PresaleState} {p : StakePool} {s : UserStake} {paid : ℕ}
    (h : RewardsClaimed ctx w w' st p s paid) : Frame w (.ok (.claimRewards ctx)) w' := by
  refine h.kept.frame h.move.evolves ?_ ?_ nofun
  · intro x _ hns
    exact h.move.le_balance (by rintro rfl; exact hns (List.mem_singleton_self _))
  · intro B hB
    rw [h.pools, Function.update_of_ne]
    rintro rfl; exact hB rfl

theorem Outside.frame (ho : Owned w.tokenAccounts) (h : Outside w w') : Frame w .outside w' := by
  refine ⟨h.clock, ⟨?_, ?_⟩, ?_, fun A _ => h.solVaults A, ?_, ?_, ?_, ?_⟩
  · intro x t hx ht
    obtain ⟨n, -, hn⟩ := h.held x t ht (ho x t hx ht)
    exact ⟨n, hn⟩
  · intro x t hx hf ht
    rw [h.vaults x hx hf] at ht; cases ht
  · intro x hx _
    cases hf : w.tokenAccounts x with
    | none => simp [World.balance, hf]
    | some t =>
      obtain ⟨n, hle, hn⟩ := h.held x t hf (ho x t hx hf)
      simpa [World.balance, hf, hn] using hle
  · intro A _; rw [h.states]
  · intro _; exact h.vestings
  · intro A _; rw [h.pools]
  · intro _; exact h.userStakes

end

/-- Every step keeps to its frame. -/
theorem Step.frame {w w' : World} {l : Label} (ho : Owned w.tokenAccounts) (h : Step w l w') : Frame w l w' := by
  cases h with
  | failed _ _ => exact .refl _ _
  | outside h => exact h.frame ho
  | @ok c _ _ _ h =>
    cases c with
    | createToken => exact (createToken_ok h).frame
    | initializePresale => exact (initializePresale_ok h).frame
    | fundPresaleVault =>
      obtain ⟨_, hf⟩ := fundPresaleVault_ok h
      exact hf.frame ho
    | buyTokens =>
      obtain ⟨_, _, _, _, _, hb⟩ := buyTokens_ok h
      exact hb.frame
    | claimVested =>
      obtain ⟨_, _, _, hc⟩ := claimVested_ok h
      exact hc.frame
    | claimRefund =>
      obtain ⟨_, _, hr⟩ := claimRefund_ok h
      exact hr.frame
    | togglePause =>
      obtain ⟨_, hf, -⟩ := togglePause_ok h
      exact hf.frame rfl
    | finalizePresale =>
      obtain ⟨_, hf, -⟩ := finalizePresale_ok h
      exact hf.frame rfl
    | withdrawFunds =>
      obtain ⟨_, hw⟩ := withdrawFunds_ok h
      exact hw.frame
    | withdrawUnsold =>
      obtain ⟨_, _, hw⟩ := withdrawUnsold_ok h
      exact hw.frame
    | initializeStaking =>
      obtain ⟨_, hp⟩ := initializeStaking_ok h
      exact hp.frame
    | fundRewardVault =>
      obtain ⟨_, _, hf⟩ := fundRewardVault_ok h
      exact hf.frame ho
    | stake =>
      obtain ⟨_, _, hs⟩ := stake_ok h
      exact hs.frame ho
    | unstake =>
      obtain ⟨_, _, _, _, hu⟩ := unstake_ok h
      exact hu.frame
    | claimRewards =>
      obtain ⟨_, _, _, _, hc⟩ := claimRewards_ok h
      exact hc.frame
    | setAdminActionsLock =>
      obtain ⟨_, hf, -⟩ := setAdminActionsLock_ok h
      exact hf.frame rfl

/-! ## The clock -/

/-- No call moves the clock. -/
theorem exec_clock {w w' : World} {c : Call} (h : exec c w = .ok w') : w'.clock = w.clock := by
  cases c with
  | createToken => exact (createToken_ok h).clock
  | initializePresale => exact (initializePresale_ok h).clock
  | fundPresaleVault =>
    obtain ⟨_, hf⟩ := fundPresaleVault_ok h
    exact hf.clock
  | buyTokens =>
    obtain ⟨_, _, _, _, _, hb⟩ := buyTokens_ok h
    exact hb.clock
  | claimVested =>
    obtain ⟨_, _, _, hc⟩ := claimVested_ok h
    exact hc.clock
  | claimRefund =>
    obtain ⟨_, _, hr⟩ := claimRefund_ok h
    exact hr.clock
  | togglePause =>
    obtain ⟨_, hf, -⟩ := togglePause_ok h
    exact hf.clock
  | finalizePresale =>
    obtain ⟨_, hf, -⟩ := finalizePresale_ok h
    exact hf.clock
  | withdrawFunds =>
    obtain ⟨_, hw⟩ := withdrawFunds_ok h
    exact hw.clock
  | withdrawUnsold =>
    obtain ⟨_, _, hw⟩ := withdrawUnsold_ok h
    exact hw.clock
  | initializeStaking =>
    obtain ⟨_, hp⟩ := initializeStaking_ok h
    exact hp.kept.clock
  | fundRewardVault =>
    obtain ⟨_, _, hf⟩ := fundRewardVault_ok h
    exact hf.kept.clock
  | stake =>
    obtain ⟨_, _, hs⟩ := stake_ok h
    exact hs.kept.clock
  | unstake =>
    obtain ⟨_, _, _, _, hu⟩ := unstake_ok h
    exact hu.kept.clock
  | claimRewards =>
    obtain ⟨_, _, _, _, hc⟩ := claimRewards_ok h
    exact hc.kept.clock
  | setAdminActionsLock =>
    obtain ⟨_, hf, -⟩ := setAdminActionsLock_ok h
    exact hf.clock

theorem Step.clockFits {w w' : World} {l : Label} (h : Step w l w') (hw : IsI64 w.clock) : IsI64 w'.clock := by
  cases h with
  | failed => exact hw
  | outside ho => exact ho.clockFits
  | ok _ hok => rw [exec_clock hok]; exact hw

/-- The clock stays a clock time. -/
theorem Run.clockFits {w₀ w : World} {tr : List Transition} (h : Run w₀ tr w) (h0 : IsI64 w₀.clock) :
    IsI64 w.clock :=
  Runs.Run.preserves (I := fun w => IsI64 w.clock) (fun _ _ _ hw hstep => hstep.clockFits hw) h h0

end Presale

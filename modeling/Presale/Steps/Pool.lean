/-
What a step can do to one staking pool: the pool, whatever other pools do; and the stake records and
its two vaults, when no other pool writes a stake record.
-/
import Presale.Steps.Frame

namespace Presale

open World

/-! ## Stake records -/

theorem userStake_update {w w' : World} {u : Pubkey} {s : UserStake}
    (h : w'.userStakes = Function.update w.userStakes u (some s)) :
    w'.userStake = Function.update w.userStake u s := by
  funext x
  unfold userStake
  rw [h]
  by_cases hx : x = u
  · subst hx; simp
  · simp [Function.update_of_ne hx]

theorem userStake_of {w : World} {u : Pubkey} {s : UserStake} (h : w.userStakes u = some s) : w.userStake u = s := by
  simp [userStake, h]

theorem userStake_same {w w' : World} {u : Pubkey} (h : w'.userStakes u = w.userStakes u) :
    w'.userStake u = w.userStake u := by
  unfold userStake
  rw [h]

theorem userStake_congr {w w' : World} (h : w'.userStakes = w.userStakes) : w'.userStake = w.userStake :=
  funext fun u => userStake_same (congrFun h u)

/-! ## Steps of a pool -/

/-- The step writes no stake record for a pool other than that of `A`. -/
def Label.OnlyPool (A : Pubkey) (l : Label) : Prop := ∀ B, l.writesStake = some B → B = A

instance (A : Pubkey) (l : Label) : Decidable (l.OnlyPool A) :=
  decidable_of_iff (l.writesStake = none ∨ l.writesStake = some A) (by
    unfold Label.OnlyPool
    cases l.writesStake <;> simp)

/-- The pool of `A` is left alone: its vaults lose nothing. -/
structure PoolQuiet (A : Pubkey) (w w' : World) : Prop where
  pool : w'.pools A = w.pools A
  userStakes : w'.userStakes = w.userStakes
  stakeVault : w.balance (.stakeVault A) ≤ w'.balance (.stakeVault A)
  rewardVault : w.balance (.rewardVault A) ≤ w'.balance (.rewardVault A)

/-- The steps of the pool of `A`. -/
inductive PoolStep (A : Pubkey) (w : World) : Label → World → Prop
  | opened {ctx : InitializeStaking} {rate : ℕ} {w' : World} {st : PresaleState} : ctx.state = A →
      PoolOpened ctx rate w w' st → PoolStep A w (.ok (.initializeStaking ctx rate)) w'
  | fund {ctx : FundRewardVault} {amount : ℕ} {w' : World} {st : PresaleState} {p : StakePool} : ctx.state = A →
      RewardsFunded ctx amount w w' st p → PoolStep A w (.ok (.fundRewardVault ctx amount)) w'
  | stake {ctx : Stake} {amount : ℕ} {w' : World} {st : PresaleState} {p : StakePool} : ctx.state = A →
      Staked ctx amount w w' st p → PoolStep A w (.ok (.stake ctx amount)) w'
  | unstake {ctx : Unstake} {amount : ℕ} {w' : World} {st : PresaleState} {p : StakePool} {s : UserStake} {paid : ℕ} :
      ctx.state = A → Unstaked ctx amount w w' st p s paid → PoolStep A w (.ok (.unstake ctx amount)) w'
  | claim {ctx : ClaimRewards} {w' : World} {st : PresaleState} {p : StakePool} {s : UserStake} {paid : ℕ} :
      ctx.state = A → RewardsClaimed ctx w w' st p s paid → PoolStep A w (.ok (.claimRewards ctx)) w'
  | quiet {l : Label} {w' : World} : l.writesStake = none → PoolQuiet A w w' → PoolStep A w l w'

/-- A step outside the footprint of `A` leaves the pool alone. -/
theorem Frame.poolQuiet {A : Pubkey} {w w' : World} {l : Label} (h : Frame w l w') (hp : l.writesPool ≠ some A)
    (hs : l.writesStake = none) (hstake : .stakeVault A ∉ l.spends) (hreward : .rewardVault A ∉ l.spends) :
    PoolStep A w l w' :=
  .quiet hs ⟨h.pools A hp, h.userStakes hs, h.balance _ (isVault_stakeVault A) hstake,
    h.balance _ (isVault_rewardVault A) hreward⟩

/-- Every step is one of the pool's. -/
theorem Step.pool {A : Pubkey} {w w' : World} {l : Label} (ho : Owned w.tokenAccounts) (h : Step w l w')
    (honly : l.OnlyPool A) : PoolStep A w l w' := by
  have hf := h.frame ho
  have hno : (none : Option Pubkey) ≠ some A := by simp
  have hnil : ∀ x : Address, x ∉ ([] : List Address) := fun _ => List.not_mem_nil
  cases h with
  | failed _ _ => exact hf.poolQuiet hno rfl (hnil _) (hnil _)
  | outside _ => exact hf.poolQuiet hno rfl (hnil _) (hnil _)
  | @ok c _ _ _ h =>
    have hvaults : ∀ B, .stakeVault A ∉ [Address.tokenVault B] ∧ .rewardVault A ∉ [Address.tokenVault B] ∧
        .stakeVault A ∉ [Address.solVault B] ∧ .rewardVault A ∉ [Address.solVault B] := by simp
    cases c with
    | createToken => exact hf.poolQuiet hno rfl (hnil _) (hnil _)
    | initializePresale => exact hf.poolQuiet hno rfl (hnil _) (hnil _)
    | fundPresaleVault => exact hf.poolQuiet hno rfl (hnil _) (hnil _)
    | buyTokens => exact hf.poolQuiet hno rfl (hvaults _).1 (hvaults _).2.1
    | claimVested => exact hf.poolQuiet hno rfl (hvaults _).1 (hvaults _).2.1
    | claimRefund => exact hf.poolQuiet hno rfl (hvaults _).2.2.1 (hvaults _).2.2.2
    | togglePause => exact hf.poolQuiet hno rfl (hnil _) (hnil _)
    | finalizePresale => exact hf.poolQuiet hno rfl (hnil _) (hnil _)
    | withdrawFunds => exact hf.poolQuiet hno rfl (hvaults _).2.2.1 (hvaults _).2.2.2
    | withdrawUnsold => exact hf.poolQuiet hno rfl (hvaults _).1 (hvaults _).2.1
    | initializeStaking ctx _ =>
      by_cases hA : ctx.state = A
      · obtain ⟨_, hp⟩ := initializeStaking_ok h
        exact .opened hA hp
      · exact hf.poolQuiet (fun he => hA (Option.some.inj he)) rfl (hnil _) (hnil _)
    | fundRewardVault ctx _ =>
      by_cases hA : ctx.state = A
      · obtain ⟨_, _, hfund⟩ := fundRewardVault_ok h
        exact .fund hA hfund
      · exact hf.poolQuiet (fun he => hA (Option.some.inj he)) rfl (hnil _) (hnil _)
    | stake =>
      obtain ⟨_, _, hs⟩ := stake_ok h
      exact .stake (honly _ rfl) hs
    | unstake =>
      obtain ⟨_, _, _, _, hu⟩ := unstake_ok h
      exact .unstake (honly _ rfl) hu
    | claimRewards =>
      obtain ⟨_, _, _, _, hc⟩ := claimRewards_ok h
      exact .claim (honly _ rfl) hc
    | setAdminActionsLock => exact hf.poolQuiet hno rfl (hnil _) (hnil _)

/-! ## The pool -/

/-- The steps of the pool record of `A`. -/
inductive PoolChange (A : Pubkey) (w : World) : Label → World → Prop
  | opened {ctx : InitializeStaking} {rate : ℕ} {w' : World} {st : PresaleState} : ctx.state = A →
      PoolOpened ctx rate w w' st → PoolChange A w (.ok (.initializeStaking ctx rate)) w'
  | fund {ctx : FundRewardVault} {amount : ℕ} {w' : World} {st : PresaleState} {p : StakePool} : ctx.state = A →
      RewardsFunded ctx amount w w' st p → PoolChange A w (.ok (.fundRewardVault ctx amount)) w'
  | settled {l : Label} {w' : World} {p : StakePool} {totalStaked : ℕ} : l.writesStake = some A → w.pools A = some p →
      w'.pools A = some { p.updated w.clock with totalStaked } → w'.clock = w.clock → PoolChange A w l w'
  | kept {l : Label} {w' : World} : l.writesPool ≠ some A → w'.pools A = w.pools A → PoolChange A w l w'

/-- Every step is one of the pool record's. -/
theorem Step.poolChange {w w' : World} {l : Label} (ho : Owned w.tokenAccounts) (h : Step w l w') (A : Pubkey) :
    PoolChange A w l w' := by
  by_cases hl : l.writesPool = some A
  · cases h with
    | failed => cases hl
    | outside => cases hl
    | @ok c _ _ _ h =>
      cases c with
      | initializeStaking =>
        obtain ⟨_, hp⟩ := initializeStaking_ok h
        exact .opened (Option.some.inj hl) hp
      | fundRewardVault =>
        obtain ⟨_, _, hf⟩ := fundRewardVault_ok h
        exact .fund (Option.some.inj hl) hf
      | stake ctx =>
        obtain ⟨_, _, hs⟩ := stake_ok h
        obtain rfl : ctx.state = A := Option.some.inj hl
        exact .settled rfl hs.pool (by rw [hs.pools, Function.update_self]) hs.kept.clock
      | unstake ctx =>
        obtain ⟨_, _, _, _, hu⟩ := unstake_ok h
        obtain rfl : ctx.state = A := Option.some.inj hl
        exact .settled rfl hu.pool (by rw [hu.pools, Function.update_self]) hu.kept.clock
      | claimRewards ctx =>
        obtain ⟨_, p, _, _, hc⟩ := claimRewards_ok h
        obtain rfl : ctx.state = A := Option.some.inj hl
        have hleft : w'.pools ctx.state = some { p.updated w.clock with totalStaked := p.totalStaked } := by
          rw [hc.pools, Function.update_self]
          rfl
        exact .settled rfl hc.pool hleft hc.kept.clock
      | _ => cases hl
  · exact .kept hl ((h.frame ho).pools A hl)

/-! ## The reward vault -/

section
variable {w w' : World}

/-- An unstake takes from the reward vault what it pays. -/
theorem Unstaked.rewardVault {ctx : Unstake} {amount : ℕ} {st : PresaleState} {p : StakePool} {s : UserStake}
    {paid : ℕ} (ho : Owned w.tokenAccounts) (h : Unstaked ctx amount w w' st p s paid) :
    w'.balance (.rewardVault ctx.state) + paid = w.balance (.rewardVault ctx.state) := by
  obtain ⟨f, hpay, hmove⟩ := h.moves
  have hne : Address.rewardVault ctx.state ≠ ctx.userToken := ho.ne_source (isVault_rewardVault _) h.target
  rw [balance_eq, balance_eq, hmove.balance_other (by simp) hne]
  rcases hpay.move with ⟨rfl, rfl⟩ | hm
  · rfl
  · have := hm.covered
    rw [hm.source hne]
    omega

theorem RewardsClaimed.rewardVault {ctx : ClaimRewards} {st : PresaleState} {p : StakePool} {s : UserStake} {paid : ℕ}
    (ho : Owned w.tokenAccounts) (h : RewardsClaimed ctx w w' st p s paid) :
    w'.balance (.rewardVault ctx.state) + paid = w.balance (.rewardVault ctx.state) := by
  have hne : Address.rewardVault ctx.state ≠ ctx.userToken := ho.ne_source (isVault_rewardVault _) h.target
  have := h.move.covered
  rw [balance_eq, balance_eq, h.move.source hne]
  omega

theorem Staked.rewardVault {ctx : Stake} {amount : ℕ} {st : PresaleState} {p : StakePool} (ho : Owned w.tokenAccounts)
    (h : Staked ctx amount w w' st p) : w'.balance (.rewardVault ctx.state) = w.balance (.rewardVault ctx.state) := by
  have hne : Address.rewardVault ctx.state ≠ ctx.userToken := ho.ne_source (isVault_rewardVault _) h.source
  rw [balance_eq, balance_eq, h.move.balance_other hne (by simp)]

theorem RewardsFunded.rewardVault {ctx : FundRewardVault} {amount : ℕ} {st : PresaleState} {p : StakePool}
    (ho : Owned w.tokenAccounts) (h : RewardsFunded ctx amount w w' st p) :
    w'.balance (.rewardVault ctx.state) = w.balance (.rewardVault ctx.state) + amount := by
  have hne : Address.rewardVault ctx.state ≠ ctx.adminTokenAccount := ho.ne_source (isVault_rewardVault _) h.source
  rw [balance_eq, balance_eq, h.move.target hne.symm]

/-! ## The stake vault -/

/-- A stake adds what is staked to the stake vault. -/
theorem Staked.stakeVault {ctx : Stake} {amount : ℕ} {st : PresaleState} {p : StakePool} (ho : Owned w.tokenAccounts)
    (h : Staked ctx amount w w' st p) :
    w'.balance (.stakeVault ctx.state) = w.balance (.stakeVault ctx.state) + amount := by
  have hne : Address.stakeVault ctx.state ≠ ctx.userToken := ho.ne_source (isVault_stakeVault _) h.source
  rw [balance_eq, balance_eq, h.move.target hne.symm]

/-- An unstake takes what is returned from the stake vault. -/
theorem Unstaked.stakeVault {ctx : Unstake} {amount : ℕ} {st : PresaleState} {p : StakePool} {s : UserStake}
    {paid : ℕ} (ho : Owned w.tokenAccounts) (h : Unstaked ctx amount w w' st p s paid) :
    w'.balance (.stakeVault ctx.state) + amount = w.balance (.stakeVault ctx.state) := by
  obtain ⟨f, hpay, hmove⟩ := h.moves
  have hne : Address.stakeVault ctx.state ≠ ctx.userToken := ho.ne_source (isVault_stakeVault _) h.target
  have hf : f.balance (.stakeVault ctx.state) = TokenAccounts.balance w.tokenAccounts (.stakeVault ctx.state) := by
    rcases hpay.move with ⟨-, rfl⟩ | hm
    · rfl
    · exact hm.balance_other (by simp) hne
  have := hmove.covered
  rw [balance_eq, balance_eq, hmove.source hne, ← hf]
  omega

end

end Presale

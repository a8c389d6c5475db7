/-
The principal of a pool: what all users have staked is in the stake vault, in every state of every
run of the pool, so whatever a user has staked the vault can return.
-/
import Presale.Stake.Books

namespace Presale

open World Finset Custody Checked

/-! ## Backing -/

/-- The stake vault of `A` holds what all users have staked. -/
def PrincipalBacked (A : Pubkey) (w : World) : Prop :=
  Backed (fun u => (w.userStake u).amount) (w.balance (.stakeVault A))

section
variable {A : Pubkey} {w w' : World} {l : Label}

/-- The amounts staked when one record is replaced. -/
theorem amount_update {u : Pubkey} {s : UserStake} (h : w'.userStakes = Function.update w.userStakes u (some s)) :
    (fun x => (w'.userStake x).amount) = Function.update (fun x => (w.userStake x).amount) u s.amount := by
  rw [userStake_update h]
  funext x
  exact field_update UserStake.amount w.userStake u s x

/-- No one's amount changes and the vault holds no less. -/
theorem PrincipalBacked.mono (h : PrincipalBacked A w) (hu : w'.userStakes = w.userStakes)
    (hv : w.balance (.stakeVault A) ≤ w'.balance (.stakeVault A)) : PrincipalBacked A w' := by
  refine Backed.mono h (fun u => ?_) hv
  rw [userStake_congr hu]

/-- A step moves as much in the stake vault as in the record it writes. -/
theorem PrincipalBacked.step (h : PrincipalBacked A w) (ho : Owned w.tokenAccounts) (hf : Frame w l w')
    (hs : PoolStep A w l w') : PrincipalBacked A w' := by
  cases hs with
  | opened _ hp => exact h.mono hp.userStakes (hf.balance _ (isVault_stakeVault A) List.not_mem_nil)
  | fund _ hfund => exact h.mono hfund.userStakes (hf.balance _ (isVault_stakeVault A) List.not_mem_nil)
  | stake hA hs =>
    have hvault := hs.stakeVault ho
    rw [hA] at hvault
    unfold PrincipalBacked
    rw [amount_update hs.userStakes]
    apply Backed.update h
    show w.balance (.stakeVault A) + (_ + _) ≤ _
    omega
  | @unstake c amount _ _ _ s _ hA hu =>
    have hvault := hu.stakeVault ho
    have hrec := userStake_of hu.record
    have := hu.amountLe
    rw [hA] at hvault
    unfold PrincipalBacked
    rw [amount_update hu.userStakes]
    apply Backed.update h
    show w.balance (.stakeVault A) + (s.amount - amount) ≤ _ + (w.userStake c.user).amount
    rw [hrec]
    omega
  | @claim c _ _ _ s _ _ hc =>
    have hrec := userStake_of hc.record
    have hvault := hf.balance _ (isVault_stakeVault A) (by simp [Label.spends, Label.footprint, Call.spends])
    unfold PrincipalBacked
    rw [amount_update hc.userStakes]
    apply Backed.update h
    show w.balance (.stakeVault A) + s.amount ≤ _ + (w.userStake c.user).amount
    rw [hrec]
    omega
  | quiet _ hq => exact h.mono hq.userStakes hq.stakeVault

end

theorem PoolRun.principalBacked {ctx : InitializeStaking} {rate : ℕ} {w₁ w : World} {tr : List Transition}
    (h : PoolRun ctx rate w₁ tr w) : PrincipalBacked ctx.state w := by
  obtain ⟨_, -, hzero, -, -⟩ := h.start
  refine h.induct (P := fun _ => True) (J := fun _ w => PrincipalBacked ctx.state w) (fun _ _ => trivial) ?_ ?_
  · unfold PrincipalBacked Backed
    simp [hzero]
  · intro tr w p l w' hst hstep hpool _ hJ
    exact hJ.step hst.owned (hstep.frame hst.owned) hpool

/-! ## Returning principal -/

theorem RewardPaid.kept {A : Pubkey} {a x : Address} {paid : ℕ} {f f' : TokenAccounts} {t : TokenAccount}
    (h : RewardPaid A a paid f f') (ht : f x = some t) : ∃ n, f' x = some { t with amount := n } := by
  rcases h.move with ⟨-, rfl⟩ | hm
  · exact ⟨t.amount, ht⟩
  · exact hm.kept x t ht

/-- An unstake that has made its checks, brought the pool up to date and paid the pending reward: the
transfer out of the stake vault is next, from `w₁`. -/
structure Unstake.AtVault (ctx : Unstake) (amount : ℕ) (w : World) (a : UnstakeAccounts) (pool : StakePool)
    (pending : ℕ) (w₁ : World) : Prop where
  accounts : ctx.tryAccounts w = .ok a
  pos : amount > 0
  allowed : ensureStakingAllowed a.state w.clock = .ok ()
  stakeMint : a.stakeVault.mint = ctx.mint
  rewardMint : a.rewardVault.mint = ctx.mint
  userOwner : a.userToken.owner = .key ctx.user
  userMint : a.userToken.mint = ctx.mint
  stakeOwner : a.stakeVault.owner = .vaultAuthority ctx.state
  rewardOwner : a.rewardVault.owner = .vaultAuthority ctx.state
  updated : updatePool a.pool w.clock = .ok pool
  earned : pendingRewards a.userStake pool = .ok pending
  paid : payPending ctx pending a.mint.decimals w = .ok w₁

section
variable {ctx : Unstake} {amount pending : ℕ} {w w₁ : World} {a : UnstakeAccounts} {pool : StakePool}

/-- The rest of the unstake. -/
theorem Unstake.AtVault.unstake_eq (h : ctx.AtVault amount w a pool pending w₁) : unstake ctx amount w = (do
    let w ← transferChecked w₁ (.stakeVault ctx.state) ctx.mint ctx.userToken (.vaultAuthority ctx.state) amount
      a.mint.decimals
    let userAmount ← checkedSub a.userStake.amount amount
    let totalStaked ← checkedSub pool.totalStaked amount
    let rewardDebt ← accruedRewards userAmount pool.accruedPerShare
    let w := w.setPool ctx.state { pool with totalStaked }
    let w := w.setUserStake ctx.user { a.userStake with amount := userAmount, rewardDebt }
    return w.emit (.unstaked ctx.user amount pending)) := by
  unfold unstake
  rw [bind_of_ok h.accounts, bind_of_ok (require_ok h.pos), bind_of_ok h.allowed, bind_of_ok (require_ok h.stakeMint),
    bind_of_ok (require_ok h.rewardMint), bind_of_ok (require_ok h.userOwner), bind_of_ok (require_ok h.userMint),
    bind_of_ok (require_ok h.stakeOwner), bind_of_ok (require_ok h.rewardOwner), bind_of_ok h.updated,
    bind_of_ok h.earned, bind_of_ok h.paid]

/-- Every unstake that succeeds comes to the stake vault. -/
theorem unstake_atVault {w' : World} (h : unstake ctx amount w = .ok w') :
    ∃ a pool pending w₁, ctx.AtVault amount w a pool pending w₁ := by
  unfold unstake at h
  obtain ⟨a, hacc, h⟩ := bind_ok_iff.1 h
  simp only [bind_ok_iff, require_eq_ok] at h
  obtain ⟨_, hpos, ⟨⟩, hallowed, _, hstakeMint, _, hrewardMint, _, howner, _, hmint, _, hstakeOwner, _, hrewardOwner, pool,
    hpool, pending, hpending, w₁, hpay, -⟩ := h
  exact ⟨a, pool, pending, w₁, hacc, hpos, hallowed, hstakeMint, hrewardMint, howner, hmint, hstakeOwner, hrewardOwner,
    hpool, hpending, hpay⟩

/-- The transfer out of a stake vault that holds the amount succeeds. -/
theorem Unstake.AtVault.transfer (h : ctx.AtVault amount w a pool pending w₁)
    (hle : amount ≤ w.balance (.stakeVault ctx.state)) :
    ∃ w₂, transferChecked w₁ (.stakeVault ctx.state) ctx.mint ctx.userToken (.vaultAuthority ctx.state) amount
      a.mint.decimals = .ok w₂ := by
  have hfound := Unstake.tryAccounts_ok h.accounts
  obtain ⟨hpay, hw₁⟩ := payPending_ok h.paid
  obtain ⟨n, hn⟩ := hpay.kept hfound.stakeVault
  obtain ⟨k, hk⟩ := hpay.kept hfound.userToken
  have hmint₁ : w₁.mints ctx.mint = some a.mint := by rw [hw₁]; exact hfound.mint
  have hbal : amount ≤ n := by
    have hmore := hpay.le_balance (x := .stakeVault ctx.state) (by simp)
    rw [TokenAccounts.balance_of hn] at hmore
    exact hle.trans hmore
  have htr := transferChecked_succeeds hn hk hbal h.stakeMint h.userMint hmint₁
  rw [← h.stakeOwner]
  exact htr

end

section
variable {ctx : InitializeStaking} {rate : ℕ} {w₁ w : World} {tr : List Transition}

/-- The principal of all users is in the stake vault in every state of a pool: whatever part of it a
user takes out, neither the transfer nor the total can fail the unstake, and nobody takes out more. -/
theorem poolRun_principal_backed (h : PoolRun ctx rate w₁ tr w) :
    ∃ p, w.pools ctx.state = some p ∧ p.totalStaked = ∑ u, (w.userStake u).amount ∧
      p.totalStaked ≤ w.balance (.stakeVault ctx.state) ∧
      (∀ (c : Unstake) (x : ℕ), c.state = ctx.state → x ≤ (w.userStake c.user).amount →
        ∀ a pool pending w', c.AtVault x w a pool pending w' →
          (∃ w'', transferChecked w' (.stakeVault c.state) c.mint c.userToken (.vaultAuthority c.state) x
            a.mint.decimals = .ok w'') ∧
          checkedSub pool.totalStaked x = .ok (pool.totalStaked - x) ∧
          ∀ e, unstake c x w = .error e → e = .panic) ∧
      ∀ (c : Unstake) (x : ℕ), c.state = ctx.state → (w.userStake c.user).amount < x →
        (∃ e, unstake c x w = .error e) ∧ ∀ e w', Step w (.failed (.unstake c x) e) w' → w' = w := by
  obtain ⟨p, hst⟩ := h.staking
  have hbacked := h.principalBacked
  have htotal := hst.books.total
  have hvault : p.totalStaked ≤ w.balance (.stakeVault ctx.state) := htotal ▸ hbacked
  refine ⟨p, hst.pool, htotal, hvault, ?_, ?_⟩
  · intro c x hc hx a pool pending w' hat
    have hown := le_sum (fun u => (w.userStake u).amount) c.user
    have hfound := Unstake.tryAccounts_ok hat.accounts
    have hs := hfound.userStake
    obtain rfl := hst.found hc hfound.pool
    have hpool : pool.totalStaked = a.pool.totalStaked := by rw [updatePool_ok hat.updated]; rfl
    rw [userStake_of hs] at hx hown
    have hsub : checkedSub pool.totalStaked x = .ok (pool.totalStaked - x) :=
      okOr_eq_ok.2 (sub_eq_some.2 ⟨by omega, rfl⟩)
    have htr := hat.transfer (by rw [hc]; omega)
    refine ⟨htr, hsub, ?_⟩
    intro e he
    obtain ⟨w'', hw''⟩ := htr
    rw [hat.unstake_eq, bind_of_ok hw'', bind_of_ok (okOr_eq_ok.2 (sub_eq_some.2 ⟨hx, rfl⟩)), bind_of_ok hsub] at he
    -- only the new debt is left to compute
    simp only [accruedRewards, bind_error_iff, okOr_eq_error, pure_ne_error, and_false, exists_false, or_false] at he
    exact he.2.symm
  · intro c x hc hx
    constructor
    · rcases he : unstake c x w with e | w'
      · exact ⟨e, rfl⟩
      · obtain ⟨_, _, s, _, hu⟩ := unstake_ok he
        have := hu.amountLe
        rw [userStake_of hu.record] at hx
        omega
    · intro e w' hstep
      cases hstep
      rfl

end

/-- Two users stake and one takes part of it back. -/
def samplePrincipal : List Act := [sampleStake 2 10, sampleStake 3 20, .wait 30, sampleUnstake 2 4]

theorem samplePrincipal_run : PoolRun samplePool 2 (sampleOpened 2) (steps (sampleOpened 2) samplePrincipal)
    (play (sampleOpened 2) samplePrincipal) :=
  poolRun_play sampleWorld_genesis (by decide +kernel) (by decide) (by decide +kernel) (by decide +kernel)
    (by decide +kernel) (by decide +kernel)

/-- The six base units that wallet `2` has left come out of the vault; a seventh does not. -/
theorem poolRun_principal_backed_sample :
    ∃ p, (play (sampleOpened 2) samplePrincipal).pools samplePool.state = some p ∧
      p.totalStaked = ∑ u, ((play (sampleOpened 2) samplePrincipal).userStake u).amount ∧
      p.totalStaked ≤ (play (sampleOpened 2) samplePrincipal).balance (.stakeVault samplePool.state) ∧
      (∃ a pool pending w' w'', Unstake.AtVault ⟨1, 2, 100, .ata (.key 2) 100⟩ 6 (play (sampleOpened 2) samplePrincipal)
          a pool pending w' ∧
        transferChecked w' (.stakeVault 1) 100 (.ata (.key 2) 100) (.vaultAuthority 1) 6 a.mint.decimals = .ok w'' ∧
        checkedSub pool.totalStaked 6 = .ok (pool.totalStaked - 6)) ∧
      ∃ e, unstake ⟨1, 2, 100, .ata (.key 2) 100⟩ 7 (play (sampleOpened 2) samplePrincipal) = .error e := by
  obtain ⟨p, hp, htotal, hvault, hwithin, hover⟩ := poolRun_principal_backed samplePrincipal_run
  have hok : unstake ⟨1, 2, 100, .ata (.key 2) 100⟩ 6 (play (sampleOpened 2) samplePrincipal) =
      .ok (play (play (sampleOpened 2) samplePrincipal) [sampleUnstake 2 6]) :=
    exec_of_play (c := .unstake ⟨1, 2, 100, .ata (.key 2) 100⟩ 6) (by decide +kernel)
  obtain ⟨a, pool, pending, w', hat⟩ := unstake_atVault hok
  obtain ⟨⟨w'', htr⟩, hsub, -⟩ := hwithin _ 6 rfl (by decide +kernel) a pool pending w' hat
  exact ⟨p, hp, htotal, hvault, ⟨a, pool, pending, w', w'', hat, htr, hsub⟩, (hover _ 7 rfl (by decide +kernel)).1⟩

end Presale

/-
Every record that is ever stored holds values of its fields' types and keeps the bounds it was
accepted with: whatever presales and pools there are, and in whatever order they are called.
-/
import Presale.Program.Script
import Presale.Sale.Books

namespace Presale

open World Checked

/-! ## Records -/

/-- A presale: its terms are accepted ones, and it has not gone past them. -/
structure PresaleState.WF (st : PresaleState) : Prop where
  caps : st.softCapLamports ≤ st.hardCapLamports ∧ IsU64 st.hardCapLamports
  contribution : 0 < st.maxContributionLamports ∧ st.maxContributionLamports ≤ st.hardCapLamports
  raised : st.totalRaisedLamports ≤ st.hardCapLamports
  forSale : IsU64 st.tokensForSale
  sold : IsU64 st.tokensSold
  bps : st.referralBonusBps ≤ 2500
  bonuses : 10000 * st.totalReferralBonuses ≤ st.referralBonusBps * st.tokensSold
  window : IsI64 st.startTime ∧ IsI64 st.endTime ∧ st.startTime < st.endTime
  schedule : 0 ≤ st.vestingCliff ∧ st.vestingCliff ≤ st.vestingDuration ∧ 0 < st.vestingDuration ∧
    IsI64 st.vestingDuration
  minClaim : IsU64 st.minClaimAmount
  space : st.stages.length ≤ 5
  stages : ∀ stage ∈ st.stages, (0 < stage.pricePerToken ∧ IsU64 stage.pricePerToken) ∧
    (0 < stage.tokensAvailable ∧ IsU64 stage.tokensAvailable) ∧ IsU64 stage.tokensSoldInStage
  index : st.currentStageIndex < st.stages.length
  lock : IsI64 st.adminActionsLockedUntil

structure UserVesting.WF (v : UserVesting) : Prop where
  claimed : v.alreadyClaimed ≤ v.totalLocked
  locked : IsU64 v.totalLocked
  contributed : IsU64 v.contributedLamports
  start : IsI64 v.startTime

structure StakePool.WF (p : StakePool) : Prop where
  rate : p.rewardRatePerSecond ≤ maxRewardRatePerSecond
  updated : IsI64 p.lastUpdateTime
  accrued : p.accruedPerShare < 2 ^ 128
  total : IsU64 p.totalStaked
  remaining : IsU64 p.remainingRewards

structure UserStake.WF (s : UserStake) : Prop where
  amount : IsU64 s.amount
  debt : s.rewardDebt < 2 ^ 128

/-- Every record is well formed. -/
structure World.WF (w : World) : Prop where
  clock : IsI64 w.clock
  states : ∀ A, ∀ st ∈ w.states A, st.WF
  vestings : ∀ u, ∀ v ∈ w.vestings u, v.WF
  pools : ∀ A, ∀ p ∈ w.pools A, p.WF
  userStakes : ∀ u, ∀ s ∈ w.userStakes u, s.WF

/-- One record is written. -/
theorem wf_update {α : Type} {P : α → Prop} {f g : Pubkey → Option α} {k : Pubkey} {x : α} (h : ∀ k, ∀ x ∈ f k, P x)
    (hg : g = Function.update f k (some x)) (hx : P x) : ∀ k, ∀ x ∈ g k, P x := by
  intro j y hy
  by_cases hj : j = k
  · rw [hg, hj, Function.update_self] at hy
    cases hy
    exact hx
  · rw [hg, Function.update_of_ne hj] at hy
    exact h j y hy

/-! ## A presale -/

section
variable {w w' : World} {st : PresaleState}

theorem InitializePresaleArgs.Accepted.wf {args : InitializePresaleArgs} {ctx : InitializePresale} {now : ℤ}
    (h : args.Accepted now) (hr : args.InRange) : (args.toState ctx).WF where
  caps := ⟨h.caps.1, hr.hardCap⟩
  contribution := h.contribution
  raised := Nat.zero_le _
  forSale := h.supplyFits
  sold := Nat.two_pow_pos 64
  bps := h.bps
  bonuses := Nat.zero_le _
  window := ⟨hr.startTime, hr.endTime, h.window⟩
  schedule := ⟨h.cliff.1, h.cliff.2, h.duration, hr.vestingDuration⟩
  minClaim := hr.minClaimAmount
  space := h.stages.2
  stages stage hs := ⟨⟨(h.priced stage hs).1, (hr.stages stage hs).1⟩, ⟨(h.priced stage hs).2, (hr.stages stage hs).2.1⟩,
    (hr.stages stage hs).2.2⟩
  index := List.length_pos_of_ne_nil h.stages.1
  lock := (by decide : IsI64 0)

/-- Grown stages are within their types when the stages were. -/
theorem StagesGrown.fits : ∀ {l l' : List PresaleStage}, StagesGrown l l' →
    (∀ s ∈ l, IsU64 s.tokensAvailable ∧ IsU64 s.tokensSoldInStage) → ∀ s ∈ l', IsU64 s.tokensSoldInStage
  | _, _, .nil, _ => fun _ h => absurd h List.not_mem_nil
  | _, _, .cons (a := a) hg hrest, h => by
    intro s hs
    rcases List.mem_cons.1 hs with rfl | hs
    · obtain ⟨havail, hsold⟩ := h a List.mem_cons_self
      exact hg.within.trans_lt (max_lt hsold havail)
    · exact StagesGrown.fits hrest (fun x hx => h x (List.mem_cons_of_mem _ hx)) s hs

theorem PresaleState.WF.buy {c : BuyTokens} {solAmount solUsed bonus : ℕ} {referrer : Option Address} {m : Mint} {wk : Walk}
    (h : st.WF) (hb : Bought c solAmount referrer w w' st m wk solUsed bonus) : (st.bought wk solUsed bonus).WF := by
  have hgrown : StagesGrown st.stages wk.stages := (Walk.From.run (.refl _) hb.walk).grown
  have hlength : st.stages.length = wk.stages.length := hgrown.length_eq
  have hprices := hgrown.offered (p := fun price available => (0 < price ∧ IsU64 price) ∧ 0 < available ∧ IsU64 available)
    fun s hs => ⟨(h.stages s hs).1, (h.stages s hs).2.1⟩
  have hsold := hgrown.fits fun s hs => ⟨(h.stages s hs).2.1.2, (h.stages s hs).2.2⟩
  have hbonus := bonus_le st wk.tokens referrer
  rw [← hb.bonusEq] at hbonus
  refine ⟨h.caps, h.contribution, hb.hardCap, h.forSale, hb.soldFits, h.bps, ?_, h.window, h.schedule, h.minClaim, ?_,
    fun s hs => ⟨(hprices s hs).1, (hprices s hs).2, hsold s hs⟩, ?_, h.lock⟩
  · have := h.bonuses
    simp only [PresaleState.bought, Nat.mul_add]
    omega
  · rw [PresaleState.bought, ← hlength]
    exact h.space
  · have hspace := h.space
    have hindex := h.index
    show min wk.idx (wk.stages.length - 1) % 256 < wk.stages.length
    omega

theorem PresaleState.WF.withFlags {active paused : Bool} {lock : ℤ} (h : st.WF) (hlock : IsI64 lock) :
    (st.withFlags active paused lock).WF :=
  ⟨h.caps, h.contribution, h.raised, h.forSale, h.sold, h.bps, h.bonuses, h.window, h.schedule, h.minClaim, h.space,
    h.stages, h.index, hlock⟩

/-! ## An investor -/

theorem UserVesting.WF.fresh : ({} : UserVesting).WF := ⟨le_rfl, Nat.two_pow_pos 64, Nat.two_pow_pos 64, by decide +kernel⟩

theorem World.WF.vesting (h : w.WF) (u : Pubkey) : (w.vesting u).WF := by
  unfold World.vesting
  rcases hv : w.vestings u with _ | v
  · exact .fresh
  · exact h.vestings u v hv

theorem UserVesting.WF.buy {c : BuyTokens} {solAmount solUsed bonus : ℕ} {referrer : Option Address} {m : Mint} {wk : Walk}
    (hst : st.WF) (h : (w.vesting c.buyer).WF) (hb : Bought c solAmount referrer w w' st m wk solUsed bonus) :
    ((w.vesting c.buyer).bought c.buyer st.endTime wk.tokens solUsed).WF := by
  refine ⟨h.claimed.trans (Nat.le_add_right _ _), hb.lockedFits, ?_, ?_⟩
  · exact (hb.walletCap.trans hst.contribution.2).trans_lt hst.caps.2
  · unfold UserVesting.bought
    simp only
    split
    · exact hst.window.2.1
    · exact h.start

theorem UserVesting.WF.claim {c : ClaimVested} {v : UserVesting} {paid : ℕ} (h : v.WF) (hc : Claimed c w w' st v paid) :
    UserVesting.WF { v with alreadyClaimed := v.alreadyClaimed + paid } := by
  have hdue : v.vestedAt st w.clock ≤ v.totalLocked := Schedule.due_le _ _ _
  refine ⟨?_, h.locked, h.contributed, h.start⟩
  have := hc.claimed
  have := hc.paidEq
  show v.alreadyClaimed + paid ≤ v.totalLocked
  omega

end

/-! ## A pool -/

section
variable {w w' : World} {p q : StakePool} {now : ℤ}

theorem accrue_fits {scheduled : ℕ} (h : accrue p scheduled = .ok q) (hacc : p.accruedPerShare < 2 ^ 128) :
    q.accruedPerShare < 2 ^ 128 := by
  unfold accrue at h
  split at h
  · simp only [bind_ok_iff, okOr_eq_ok, add_eq_some, pure_ok_iff] at h
    obtain ⟨_, -, _, ⟨hfits, rfl⟩, _, -, rfl⟩ := h
    exact hfits
  · cases h
    exact hacc

/-- An update keeps a pool well formed. -/
theorem StakePool.WF.update (h : p.WF) (hnow : IsI64 now) (hok : updatePool p now = .ok (p.updated now)) :
    (p.updated now).WF := by
  refine ⟨h.rate, ?_, ?_, h.total, (Nat.sub_le _ _).trans_lt h.remaining⟩
  · have := h.updated
    show IsI64 (max p.lastUpdateTime now)
    unfold IsI64 at *
    omega
  · unfold Presale.updatePool at hok
    split at hok
    · rw [← Except.ok.inj hok]
      exact h.accrued
    · simp only [bind_ok_iff, pure_ok_iff] at hok
      obtain ⟨_, -, _, -, r, hr, heq⟩ := hok
      rw [← heq]
      exact accrue_fits (q := r) hr h.accrued

theorem accruedRewards_lt {amount acc r : ℕ} (h : accruedRewards amount acc = .ok r) : r < 2 ^ 128 := by
  simp only [accruedRewards, bind_ok_iff, okOr_eq_ok, mul_eq_some, pure_ok_iff] at h
  obtain ⟨_, ⟨hfits, rfl⟩, rfl⟩ := h
  exact (Nat.div_le_self _ _).trans_lt hfits

/-! ## A staker -/

/-- A settlement stores a debt it has computed. -/
theorem stake_debt {ctx : Stake} {amount : ℕ} (h : stake ctx amount w = .ok w') :
    ∀ s ∈ w'.userStakes ctx.user, s.rewardDebt < 2 ^ 128 := by
  unfold stake at h
  simp only [bind_ok_iff, pure_ok_iff, Prod.exists] at h
  obtain ⟨_, _, _, _, -, _, -, _, -, _, -, w₁, -, _, -, _, -, debt, hdebt, rfl⟩ := h
  intro s hs
  have hrec : (Function.update w₁.userStakes ctx.user (some _)) ctx.user = some s := hs
  rw [Function.update_self] at hrec
  cases hrec
  exact accruedRewards_lt hdebt

theorem unstake_debt {ctx : Unstake} {amount : ℕ} (h : unstake ctx amount w = .ok w') :
    ∀ s ∈ w'.userStakes ctx.user, s.rewardDebt < 2 ^ 128 := by
  unfold unstake at h
  simp only [bind_ok_iff, pure_ok_iff] at h
  obtain ⟨_, -, _, -, _, -, _, -, _, -, _, -, _, -, _, -, _, -, _, -, _, -, w₁, -, w₂, -, _, -, _, -, debt, hdebt, rfl⟩ := h
  intro s hs
  have hrec : (Function.update w₂.userStakes ctx.user (some _)) ctx.user = some s := hs
  rw [Function.update_self] at hrec
  cases hrec
  exact accruedRewards_lt hdebt

theorem claimRewards_debt {ctx : ClaimRewards} (h : claimRewards ctx w = .ok w') :
    ∀ s ∈ w'.userStakes ctx.user, s.rewardDebt < 2 ^ 128 := by
  unfold claimRewards at h
  simp only [bind_ok_iff, pure_ok_iff, Prod.exists] at h
  obtain ⟨_, _, _, _, -, _, -, _, -, _, -, _, -, debt, hdebt, w₁, htr, rfl⟩ := h
  obtain ⟨-, -, hw₁⟩ := transferChecked_ok htr
  intro s hs
  rw [World.emit, hw₁] at hs
  have hrec : (Function.update w.userStakes ctx.user (some _)) ctx.user = some s := hs
  rw [Function.update_self] at hrec
  cases hrec
  exact accruedRewards_lt hdebt

end

/-! ## Every step -/

section
variable {w₀ w w' : World} {tr : List Transition}

/-- A call with well-typed arguments keeps every record well formed. -/
theorem World.WF.exec {c : Call} (h : w.WF) (hc : c.InRange) (hok : Presale.exec c w = .ok w') : w'.WF := by
  cases c with
  | createToken =>
    have ht := createToken_ok hok
    exact ⟨ht.clock ▸ h.clock, ht.states ▸ h.states, ht.vestings ▸ h.vestings, ht.pools ▸ h.pools,
      ht.userStakes ▸ h.userStakes⟩
  | initializePresale =>
    have hl := initializePresale_ok hok
    exact ⟨hl.clock ▸ h.clock, wf_update h.states hl.states (hl.accepted.wf hc), hl.vestings ▸ h.vestings,
      hl.pools ▸ h.pools, hl.userStakes ▸ h.userStakes⟩
  | fundPresaleVault =>
    obtain ⟨_, hf⟩ := fundPresaleVault_ok hok
    exact ⟨hf.clock ▸ h.clock, hf.states ▸ h.states, hf.vestings ▸ h.vestings, hf.pools ▸ h.pools,
      hf.userStakes ▸ h.userStakes⟩
  | buyTokens ctx =>
    obtain ⟨st, _, _, _, _, hb⟩ := buyTokens_ok hok
    have hst := h.states ctx.state st hb.state
    exact ⟨hb.clock ▸ h.clock, wf_update h.states hb.states (hst.buy hb),
      wf_update h.vestings hb.vestings (.buy hst (h.vesting ctx.buyer) hb), hb.pools ▸ h.pools, hb.userStakes ▸ h.userStakes⟩
  | claimVested ctx =>
    obtain ⟨_, v, _, hcl⟩ := claimVested_ok hok
    exact ⟨hcl.clock ▸ h.clock, hcl.states ▸ h.states,
      wf_update h.vestings hcl.vestings ((h.vestings ctx.user v hcl.vesting).claim hcl), hcl.pools ▸ h.pools,
      hcl.userStakes ▸ h.userStakes⟩
  | claimRefund ctx =>
    obtain ⟨_, v, hr⟩ := claimRefund_ok hok
    have hv := h.vestings ctx.user v hr.vesting
    exact ⟨hr.clock ▸ h.clock, hr.states ▸ h.states,
      wf_update h.vestings hr.vestings ⟨hv.claimed, hv.locked, Nat.two_pow_pos 64, hv.start⟩, hr.pools ▸ h.pools,
      hr.userStakes ▸ h.userStakes⟩
  | togglePause ctx =>
    obtain ⟨st, hs, -⟩ := togglePause_ok hok
    have hst := h.states ctx.state st hs.state
    exact ⟨hs.clock ▸ h.clock, wf_update h.states hs.states (hst.withFlags hst.lock), hs.vestings ▸ h.vestings,
      hs.pools ▸ h.pools, hs.userStakes ▸ h.userStakes⟩
  | finalizePresale ctx =>
    obtain ⟨st, hs, -⟩ := finalizePresale_ok hok
    have hst := h.states ctx.state st hs.state
    exact ⟨hs.clock ▸ h.clock, wf_update h.states hs.states (hst.withFlags hst.lock), hs.vestings ▸ h.vestings,
      hs.pools ▸ h.pools, hs.userStakes ▸ h.userStakes⟩
  | withdrawFunds =>
    obtain ⟨_, hw⟩ := withdrawFunds_ok hok
    exact ⟨hw.clock ▸ h.clock, hw.states ▸ h.states, hw.vestings ▸ h.vestings, hw.pools ▸ h.pools,
      hw.userStakes ▸ h.userStakes⟩
  | withdrawUnsold =>
    obtain ⟨_, _, hu⟩ := withdrawUnsold_ok hok
    exact ⟨hu.clock ▸ h.clock, hu.states ▸ h.states, hu.vestings ▸ h.vestings, hu.pools ▸ h.pools,
      hu.userStakes ▸ h.userStakes⟩
  | initializeStaking =>
    obtain ⟨_, hp⟩ := initializeStaking_ok hok
    exact ⟨hp.kept.clock ▸ h.clock, hp.kept.states ▸ h.states, hp.kept.vestings ▸ h.vestings,
      wf_update h.pools hp.pools ⟨hp.rate, h.clock, Nat.two_pow_pos 128, Nat.two_pow_pos 64, Nat.two_pow_pos 64⟩,
      hp.userStakes ▸ h.userStakes⟩
  | fundRewardVault ctx =>
    obtain ⟨_, p, hf⟩ := fundRewardVault_ok hok
    have hp := h.pools ctx.state p hf.pool
    exact ⟨hf.kept.clock ▸ h.clock, hf.kept.states ▸ h.states, hf.kept.vestings ▸ h.vestings,
      wf_update h.pools hf.pools ⟨hp.rate, hp.updated, hp.accrued, hp.total, hf.fits⟩, hf.userStakes ▸ h.userStakes⟩
  | stake ctx =>
    obtain ⟨_, p, hs⟩ := stake_ok hok
    have hp := (h.pools ctx.state p hs.pool).update h.clock hs.updated
    have hdebt := stake_debt hok _ (by rw [hs.userStakes, Function.update_self]; rfl)
    exact ⟨hs.kept.clock ▸ h.clock, hs.kept.states ▸ h.states, hs.kept.vestings ▸ h.vestings,
      wf_update h.pools hs.pools ⟨hp.rate, hp.updated, hp.accrued, hs.totalFits, hp.remaining⟩,
      wf_update h.userStakes hs.userStakes ⟨hs.amountFits, hdebt⟩⟩
  | unstake ctx =>
    obtain ⟨_, p, s, _, hu⟩ := unstake_ok hok
    have hp := (h.pools ctx.state p hu.pool).update h.clock hu.updated
    have hdebt := unstake_debt hok _ (by rw [hu.userStakes, Function.update_self]; rfl)
    exact ⟨hu.kept.clock ▸ h.clock, hu.kept.states ▸ h.states, hu.kept.vestings ▸ h.vestings,
      wf_update h.pools hu.pools ⟨hp.rate, hp.updated, hp.accrued, (Nat.sub_le _ _).trans_lt hp.total, hp.remaining⟩,
      wf_update h.userStakes hu.userStakes
        ⟨(Nat.sub_le _ _).trans_lt (h.userStakes ctx.user s hu.record).amount, hdebt⟩⟩
  | claimRewards ctx =>
    obtain ⟨_, p, s, _, hc⟩ := claimRewards_ok hok
    have hp := (h.pools ctx.state p hc.pool).update h.clock hc.updated
    have hdebt := claimRewards_debt hok _ (by rw [hc.userStakes, Function.update_self]; rfl)
    exact ⟨hc.kept.clock ▸ h.clock, hc.kept.states ▸ h.states, hc.kept.vestings ▸ h.vestings, wf_update h.pools hc.pools hp,
      wf_update h.userStakes hc.userStakes ⟨(h.userStakes ctx.user s hc.record).amount, hdebt⟩⟩
  | setAdminActionsLock ctx =>
    obtain ⟨st, hs, -⟩ := setAdminActionsLock_ok hok
    have hst := h.states ctx.state st hs.state
    exact ⟨hs.clock ▸ h.clock, wf_update h.states hs.states (hst.withFlags hc), hs.vestings ▸ h.vestings,
      hs.pools ▸ h.pools, hs.userStakes ▸ h.userStakes⟩

theorem World.WF.step {l : Label} (h : w.WF) (hs : Step w l w') : w'.WF := by
  cases hs with
  | ok hc hok => exact h.exec hc hok
  | failed => exact h
  | outside ho =>
    exact ⟨ho.clockFits, ho.states ▸ h.states, ho.vestings ▸ h.vestings, ho.pools ▸ h.pools, ho.userStakes ▸ h.userStakes⟩

theorem Genesis.wf (h0 : Genesis w₀) : w₀.WF := by
  refine ⟨h0.clockFits, fun A st hst => ?_, fun u v hv => ?_, fun A p hp => ?_, fun u s hs => ?_⟩
  · rw [h0.states A] at hst; cases hst
  · rw [h0.vestings u] at hv; cases hv
  · rw [h0.pools A] at hp; cases hp
  · rw [h0.userStakes u] at hs; cases hs

theorem Run.wf (h : Run w₀ tr w) (h0 : w₀.WF) : w.WF :=
  Runs.Run.preserves (I := World.WF) (fun _ _ _ hI hs => World.WF.step hI hs) h h0

/-- Whatever is called in whatever order, every record holds values of its fields' types, fits the
space it was given, and stays within the terms it was accepted with. -/
theorem reachable_wf (h0 : Genesis w₀) (h : Run w₀ tr w) : w.WF := h.wf h0.wf

end

/-- A pool is opened, funded and used after the sale. -/
theorem reachable_wf_sample :
    (play (sampleOpened 2) [sampleReward 100, sampleStake 2 10, .wait 31, sampleClaim 2, .wait 40, sampleUnstake 2 5]).WF := by
  have hopened : Run sampleWorld (steps sampleWorld sampleFinalized) (play sampleWorld sampleFinalized) :=
    play_run (by decide +kernel)
  have hpool : Run (play sampleWorld sampleFinalized)
      (steps (play sampleWorld sampleFinalized) [.call (.initializeStaking samplePool 2)]) (sampleOpened 2) :=
    play_run (by decide +kernel)
  have hused : Run (sampleOpened 2) _ (play (sampleOpened 2)
      [sampleReward 100, sampleStake 2 10, .wait 31, sampleClaim 2, .wait 40, sampleUnstake 2 5]) :=
    play_run (by decide +kernel)
  exact reachable_wf sampleWorld_genesis ((hopened.append hpool).append hused)

end Presale

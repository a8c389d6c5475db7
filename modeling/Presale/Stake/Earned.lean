/-
What a user of a pool has earned: a claim or an unstake pays it, a stake drops it, and no other step
lowers it.
-/
import Presale.Stake.Books

namespace Presale

open World

/-! ## Earned rewards -/

/-- The reward accrued on the record in the pool, over its debt. -/
def UserStake.earned (s : UserStake) (p : StakePool) : ℤ :=
  (s.amount * p.accruedPerShare / precision : ℕ) - (s.rewardDebt : ℤ)

/-- What `u` has earned in the pool of `A`, brought up to date. -/
def World.earned (w : World) (A u : Pubkey) : ℤ :=
  match w.pools A with
  | some p => (w.userStake u).earned (p.updated w.clock)
  | none => 0

/-- The tokens a settlement of `u` took out of the reward vault of `A`. -/
def rewardedFrom (A u : Pubkey) (x : Transition) : ℕ :=
  if x.label.staker = some (A, u) then x.before.balance (.rewardVault A) - x.after.balance (.rewardVault A) else 0

def Label.isStake : Label → Bool
  | .ok (.stake _ _) => true
  | _ => false

/-- A stake of `u` in `A` finds nothing earned; a claim or an unstake no more than a `u64` holds. -/
def KeepsEarned (A u : Pubkey) (x : Transition) : Prop :=
  if x.label.isStake then x.before.earned A u = 0 else x.before.earned A u < 2 ^ 64

instance (A u : Pubkey) (x : Transition) : Decidable (KeepsEarned A u x) :=
  inferInstanceAs (Decidable (if x.label.isStake then x.before.earned A u = 0 else x.before.earned A u < 2 ^ 64))

/-! ## The accumulator in time -/

section
variable {p q : StakePool} {s : UserStake} {now later : ℤ}

/-- More time and more rewards to release release more. -/
theorem released_le_released (hrate : q.rewardRatePerSecond = p.rewardRatePerSecond)
    (hlast : q.lastUpdateTime = p.lastUpdateTime) (htotal : q.totalStaked = p.totalStaked)
    (hrest : p.remainingRewards ≤ q.remainingRewards) (ht : now ≤ later) : p.released now ≤ q.released later := by
  unfold StakePool.released
  rw [hrate, hlast, htotal]
  split
  · rename_i hrun
    rw [if_pos ⟨by omega, hrun.2⟩]
    have htime : (now - p.lastUpdateTime).toNat ≤ (later - p.lastUpdateTime).toNat := by omega
    exact min_le_min (Nat.mul_le_mul_right _ htime) hrest
  · exact Nat.zero_le _

theorem updated_le_updated (hrate : q.rewardRatePerSecond = p.rewardRatePerSecond)
    (hlast : q.lastUpdateTime = p.lastUpdateTime) (htotal : q.totalStaked = p.totalStaked)
    (hrest : p.remainingRewards ≤ q.remainingRewards) (hacc : q.accruedPerShare = p.accruedPerShare)
    (ht : now ≤ later) : (p.updated now).accruedPerShare ≤ (q.updated later).accruedPerShare := by
  have hrel := released_le_released hrate hlast htotal hrest ht
  unfold StakePool.updated
  rw [hacc, htotal]
  exact Nat.add_le_add_left (Nat.div_le_div_right (Nat.mul_le_mul_right _ hrel)) _

/-- A pool that is up to date stays as it is. -/
theorem updated_accruedPerShare (h : now ≤ p.lastUpdateTime) :
    (p.updated now).accruedPerShare = p.accruedPerShare := by
  have hzero : p.released now = 0 := if_neg (by omega)
  unfold StakePool.updated
  rw [hzero, Nat.zero_mul, Nat.zero_div, Nat.add_zero]

theorem earned_le_earned (h : p.accruedPerShare ≤ q.accruedPerShare) : s.earned p ≤ s.earned q := by
  have hdiv := Nat.div_le_div_right (c := precision) (Nat.mul_le_mul_left s.amount h)
  unfold UserStake.earned
  omega

end

/-! ## Settling -/

section
variable {A u : Pubkey} {w w' : World} {p : StakePool} {s : UserStake}

theorem World.earned_of (hp : w.pools A = some p) : w.earned A u = (w.userStake u).earned (p.updated w.clock) := by
  simp only [World.earned, hp]

/-- A record just settled has earned nothing. -/
theorem earned_settled (hp : w'.pools = Function.update w.pools A (some p))
    (hs : w'.userStakes = Function.update w.userStakes u (some s)) (hclock : w'.clock = w.clock)
    (hlast : w.clock ≤ p.lastUpdateTime) (hdebt : s.rewardDebt = p.debt s.amount) : w'.earned A u = 0 := by
  have hpool : w'.pools A = some p := by rw [hp, Function.update_self]
  have hrec : w'.userStakes u = some s := by rw [hs, Function.update_self]
  rw [World.earned_of hpool, userStake_of hrec, hclock]
  unfold UserStake.earned
  rw [updated_accruedPerShare hlast, hdebt]
  exact Int.sub_self _

/-- A record found with its debt within what has accrued has earned what is pending. -/
theorem earned_found (hp : w.pools A = some p) (hs : w.userStakes u = some s)
    (hdebt : s.rewardDebt ≤ s.amount * (p.updated w.clock).accruedPerShare / precision) :
    w.earned A u = s.pending (p.updated w.clock) := by
  rw [World.earned_of hp, userStake_of hs]
  exact (Nat.cast_sub hdebt).symm

theorem Staked.earned {ctx : Stake} {amount : ℕ} {st : PresaleState} (h : Staked ctx amount w w' st p) :
    w'.earned ctx.state ctx.user = 0 :=
  earned_settled h.pools h.userStakes h.kept.clock (le_max_right _ _) rfl

theorem Unstaked.earned {ctx : Unstake} {amount paid : ℕ} {st : PresaleState}
    (h : Unstaked ctx amount w w' st p s paid) : w'.earned ctx.state ctx.user = 0 :=
  earned_settled h.pools h.userStakes h.kept.clock (le_max_right _ _) rfl

theorem RewardsClaimed.earned {ctx : ClaimRewards} {paid : ℕ} {st : PresaleState}
    (h : RewardsClaimed ctx w w' st p s paid) : w'.earned ctx.state ctx.user = 0 :=
  earned_settled h.pools h.userStakes h.kept.clock (le_max_right _ _) rfl

/-- A settlement pays or keeps all that was earned exactly when it is no stake that drops a reward,
nor a payout that is cut to `u64`. -/
theorem settles_keeps_iff {l : Label} (ho : Owned w.tokenAccounts) (h : Step w l w') (hl : l.staker = some (A, u)) :
    rewardedFrom A u ⟨w, l, w'⟩ + w'.earned A u = w.earned A u ↔ KeepsEarned A u ⟨w, l, w'⟩ := by
  simp only [rewardedFrom, hl, if_true]
  cases h with
  | failed => cases hl
  | outside => cases hl
  | @ok c _ _ _ hok =>
    cases c with
    | stake ctx amount =>
      obtain ⟨rfl, rfl⟩ := Prod.mk.inj (Option.some.inj hl)
      obtain ⟨_, _, h⟩ := stake_ok hok
      have hvault := h.rewardVault ho
      rw [h.earned, hvault, Nat.sub_self]
      simp only [KeepsEarned, Label.isStake, if_true]
      omega
    | unstake ctx amount =>
      obtain ⟨rfl, rfl⟩ := Prod.mk.inj (Option.some.inj hl)
      obtain ⟨_, _, _, paid, h⟩ := unstake_ok hok
      have hvault := h.rewardVault ho
      have hpaid := h.paidEq
      have hnow := earned_found h.pool h.record h.debtLe
      simp only [KeepsEarned, Label.isStake, Bool.false_eq_true, if_false]
      rw [h.earned]
      omega
    | claimRewards ctx =>
      obtain ⟨rfl, rfl⟩ := Prod.mk.inj (Option.some.inj hl)
      obtain ⟨_, _, _, paid, h⟩ := claimRewards_ok hok
      have hvault := h.rewardVault ho
      have hpaid := h.paidEq
      have hnow := earned_found h.pool h.record h.debtLe
      simp only [KeepsEarned, Label.isStake, Bool.false_eq_true, if_false]
      rw [h.earned]
      omega
    | _ => cases hl

/-! ## Steps of others -/

/-- A settlement of another user brings the pool up to date and leaves what `u` has earned. -/
theorem earned_kept {q : StakePool} {v : Pubkey} (hv : u ≠ v) (hp : w.pools A = some p)
    (hq : w'.pools = Function.update w.pools A (some q)) (hs : w'.userStakes = Function.update w.userStakes v (some s))
    (hclock : w'.clock = w.clock) (hlast : w.clock ≤ q.lastUpdateTime)
    (hacc : q.accruedPerShare = (p.updated w.clock).accruedPerShare) : w'.earned A u = w.earned A u := by
  have hpool : w'.pools A = some q := by rw [hq, Function.update_self]
  have hrec : w'.userStake u = w.userStake u := by rw [userStake_update hs, Function.update_of_ne hv]
  rw [World.earned_of hp, World.earned_of hpool, hrec, hclock]
  unfold UserStake.earned
  rw [updated_accruedPerShare hlast, hacc]

/-- A step that settles no record of `u` takes nothing from what `u` has earned. -/
theorem PoolStep.earned_le {l : Label} (hp : w.pools A = some p) (hs : PoolStep A w l w') (hclock : w.clock ≤ w'.clock)
    (hother : l.staker ≠ some (A, u)) : w.earned A u ≤ w'.earned A u := by
  cases hs with
  | opened hA ho => rw [← hA, ho.fresh] at hp; cases hp
  | fund hA hf =>
    rw [← hA, hf.pool] at hp; cases hp
    rw [← hA, World.earned_of hf.pool, World.earned_of (by rw [hf.pools, Function.update_self]), hf.kept.clock]
    rw [userStake_congr hf.userStakes]
    exact earned_le_earned (updated_le_updated rfl rfl rfl (Nat.le_add_right _ _) rfl le_rfl)
  | @stake c _ _ _ _ hA h =>
    have hu : u ≠ c.user := by rintro rfl; exact hother (by rw [← hA]; rfl)
    rw [← hA]
    exact (earned_kept hu h.pool h.pools h.userStakes h.kept.clock (le_max_right _ _) rfl).ge
  | @unstake c _ _ _ _ _ _ hA h =>
    have hu : u ≠ c.user := by rintro rfl; exact hother (by rw [← hA]; rfl)
    rw [← hA]
    exact (earned_kept hu h.pool h.pools h.userStakes h.kept.clock (le_max_right _ _) rfl).ge
  | @claim c _ _ _ _ _ hA h =>
    have hu : u ≠ c.user := by rintro rfl; exact hother (by rw [← hA]; rfl)
    rw [← hA]
    exact (earned_kept hu h.pool h.pools h.userStakes h.kept.clock (le_max_right _ _) rfl).ge
  | quiet _ hq =>
    rw [World.earned_of hp, World.earned_of (hq.pool.trans hp)]
    rw [userStake_congr hq.userStakes]
    exact earned_le_earned (updated_le_updated rfl rfl rfl le_rfl rfl hclock)

end

/-! ## Runs -/

section
variable {ctx : InitializeStaking} {rate : ℕ} {w₁ w w' : World} {tr tr' : List Transition} {u : Pubkey}

/-- What `u` has earned is paid to `u` or still there after any steps, when those of `u` keep it. -/
theorem PoolRun.earned_kept (h : PoolRun ctx rate w₁ tr w) (hrun : Run w tr' w')
    (honly : ∀ x ∈ tr', x.label.OnlyPool ctx.state)
    (hkeep : ∀ x ∈ tr', x.label.staker = some (ctx.state, u) → KeepsEarned ctx.state u x) :
    w.earned ctx.state u ≤ Runs.total (rewardedFrom ctx.state u) tr' + w'.earned ctx.state u := by
  refine (Runs.Run.induct (P := fun x => x.label.OnlyPool ctx.state ∧
      (x.label.staker = some (ctx.state, u) → KeepsEarned ctx.state u x))
    (J := fun tr' w' => (∃ p, Staking ctx.state w' p) ∧
      w.earned ctx.state u ≤ Runs.total (rewardedFrom ctx.state u) tr' + w'.earned ctx.state u)
    ⟨h.staking, by simp⟩ ?_ hrun fun x hx => ⟨honly x hx, hkeep x hx⟩).2
  rintro tr' s l t - ⟨⟨p, hst⟩, hle⟩ hstep ⟨hl, hk⟩
  have hframe := hstep.frame hst.owned
  have hpool := hstep.pool hst.owned hl
  refine ⟨hst.step hframe hpool, ?_⟩
  rw [Runs.total_append, Runs.total_singleton, Nat.cast_add]
  by_cases hown : l.staker = some (ctx.state, u)
  · have := (settles_keeps_iff hst.owned hstep hown).2 (hk hown)
    omega
  · have := hpool.earned_le hst.pool hframe.clock hown
    omega

/-- In every state of a pool's runs a stake, an unstake or a claim of `u` pays or keeps exactly what
`u` has earned if and only if it is no stake with a reward earned, nor a payout of `2 ^ 64` or more;
and over steps that meet this nothing earned is lost. -/
theorem poolRun_earned_kept_iff (h : PoolRun ctx rate w₁ tr w) :
    (∀ l w', Step w l w' → l.staker = some (ctx.state, u) →
      (rewardedFrom ctx.state u ⟨w, l, w'⟩ + w'.earned ctx.state u = w.earned ctx.state u ↔
        KeepsEarned ctx.state u ⟨w, l, w'⟩)) ∧
      ∀ tr' w', Run w tr' w' → (∀ x ∈ tr', x.label.OnlyPool ctx.state) →
        (∀ x ∈ tr', x.label.staker = some (ctx.state, u) → KeepsEarned ctx.state u x) →
        w.earned ctx.state u ≤ Runs.total (rewardedFrom ctx.state u) tr' + w'.earned ctx.state u := by
  obtain ⟨p, hst⟩ := h.staking
  exact ⟨fun l w' hstep hl => settles_keeps_iff hst.owned hstep hl,
    fun tr' w' hrun honly hkeep => h.earned_kept hrun honly hkeep⟩

end

/-- A reward is earned on a stake. -/
def sampleEarning : List Act := [sampleReward 100, sampleStake 2 10, .wait 31]

/-- Then it is claimed, and a stake added. -/
def sampleClaiming : List Act := [sampleClaim 2, sampleStake 2 5, .wait 40]

theorem sampleEarning_run : PoolRun samplePool 2 (sampleOpened 2) (steps (sampleOpened 2) sampleEarning)
    (play (sampleOpened 2) sampleEarning) :=
  poolRun_play sampleWorld_genesis (by decide +kernel) (by decide) (by decide +kernel) (by decide +kernel)
    (by decide +kernel) (by decide +kernel)

theorem poolRun_earned_kept_iff_sample :
    rewardedFrom 1 2 ⟨play (sampleOpened 2) sampleEarning, .ok (.claimRewards ⟨1, 2, 100, .ata (.key 2) 100⟩),
        play (play (sampleOpened 2) sampleEarning) [sampleClaim 2]⟩ +
      (play (play (sampleOpened 2) sampleEarning) [sampleClaim 2]).earned samplePool.state 2 =
        (play (sampleOpened 2) sampleEarning).earned samplePool.state 2 ∧
    (play (sampleOpened 2) sampleEarning).earned samplePool.state 2 ≤
      Runs.total (rewardedFrom samplePool.state 2) (steps (play (sampleOpened 2) sampleEarning) sampleClaiming) +
        (play (play (sampleOpened 2) sampleEarning) sampleClaiming).earned samplePool.state 2 ∧
    (play (sampleOpened 2) sampleEarning).earned samplePool.state 2 = 20 :=
  ⟨((poolRun_earned_kept_iff sampleEarning_run).1 (.ok (.claimRewards ⟨1, 2, 100, .ata (.key 2) 100⟩)) _
      (.ok trivial (exec_of_play (by decide +kernel))) rfl).2 (by decide +kernel),
    (poolRun_earned_kept_iff sampleEarning_run).2 _ _ (play_run (by decide +kernel)) (by decide +kernel)
      (by decide +kernel),
    by decide +kernel⟩

/-- A stake added to a stake drops the reward earned on it. -/
theorem stake_drops_earned :
    PoolRun samplePool 2 (sampleOpened 2) (steps (sampleOpened 2) sampleEarning)
      (play (sampleOpened 2) sampleEarning) ∧
    exec (.stake ⟨1, 2, 100, .ata (.key 2) 100⟩ 5) (play (sampleOpened 2) sampleEarning) =
      .ok (play (play (sampleOpened 2) sampleEarning) [sampleStake 2 5]) ∧
    (play (sampleOpened 2) sampleEarning).earned 1 2 = 20 ∧
    rewardedFrom 1 2 ⟨play (sampleOpened 2) sampleEarning, .ok (.stake ⟨1, 2, 100, .ata (.key 2) 100⟩ 5),
      play (play (sampleOpened 2) sampleEarning) [sampleStake 2 5]⟩ = 0 ∧
    (play (play (sampleOpened 2) sampleEarning) [sampleStake 2 5]).earned 1 2 = 0 :=
  ⟨sampleEarning_run, exec_of_play (by decide +kernel), by decide +kernel, by decide +kernel, by decide +kernel⟩

end Presale

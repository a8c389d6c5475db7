/-
The arithmetic of a pool against its accumulator. No amount overflows while the accumulator, brought
up to date, is at most `2 ^ 64 + 1`, and a pool that has enough staked for its rate stays within that
for a hundred years; a pool with a small stake does not.
-/
import Presale.Stake.Emission
import Presale.Stake.Principal
import Presale.Stake.Updates
import Presale.Steps.Supply

namespace Presale

open World Checked

/-! ## Errors -/

section
variable {w : World} {α : Type}

theorem account_inRange (o : Option α) : InRange (account o) := .okOr (not_isOverflow_runtime _)

theorem transferChecked_inRange {src dst authority : Address} {mint : Pubkey} {amount decimals : ℕ} :
    InRange (transferChecked w src mint dst authority amount decimals) :=
  transferChecked_fails not_isOverflow_runtime

theorem ensureStakingAllowed_inRange (st : PresaleState) (now : ℤ) : InRange (ensureStakingAllowed st now) := by
  unfold ensureStakingAllowed
  refine .bind (.require ?_) fun _ _ => .bind (.require ?_) fun _ _ => .require ?_
  all_goals simp [Error.IsOverflow]

theorem Stake.tryAccounts_inRange (ctx : Stake) : InRange (ctx.tryAccounts w) := by
  unfold Stake.tryAccounts
  refine .bind (account_inRange _) fun _ _ => .bind (account_inRange _) fun _ _ => .bind (account_inRange _) fun _ _ =>
    .bind (account_inRange _) fun _ _ => .bind (account_inRange _) fun _ _ => .bind (.require ?_) fun _ _ =>
    .bind (.require ?_) fun _ _ => .bind (.require ?_) fun _ _ => .pure _
  all_goals simp [Error.IsOverflow]

theorem Unstake.tryAccounts_inRange (ctx : Unstake) : InRange (ctx.tryAccounts w) := by
  unfold Unstake.tryAccounts
  exact .bind (account_inRange _) fun _ _ => .bind (account_inRange _) fun _ _ => .bind (account_inRange _) fun _ _ =>
    .bind (account_inRange _) fun _ _ => .bind (account_inRange _) fun _ _ => .bind (account_inRange _) fun _ _ =>
    .bind (account_inRange _) fun _ _ => .pure _

theorem ClaimRewards.tryAccounts_inRange (ctx : ClaimRewards) : InRange (ctx.tryAccounts w) := by
  unfold ClaimRewards.tryAccounts
  refine .bind (account_inRange _) fun _ _ => .bind (account_inRange _) fun _ _ => .bind (account_inRange _) fun _ _ =>
    .bind (account_inRange _) fun _ _ => .bind (account_inRange _) fun _ _ => .bind (account_inRange _) fun _ _ =>
    .bind (.require ?_) fun _ _ => .bind (.require ?_) fun _ _ => .bind (.require ?_) fun _ _ => .pure _
  all_goals simp [Error.IsOverflow]

end

/-! ## Products -/

/-- A hundred years, in seconds. -/
def century : ℕ := 36525 * 86400

theorem accruedRewards_fits {amount acc : ℕ} (h : amount * acc < 2 ^ 128) :
    accruedRewards amount acc = .ok (amount * acc / precision) := by
  have hmul : mulU128 amount acc = .ok (amount * acc) := okOr_eq_ok.2 (mul_eq_some.2 ⟨h, rfl⟩)
  unfold accruedRewards
  rw [bind_of_ok hmul]
  rfl

theorem pendingRewards_fits {s : UserStake} {p : StakePool} (h : s.amount * p.accruedPerShare < 2 ^ 128)
    (hdebt : s.rewardDebt ≤ s.amount * p.accruedPerShare / precision) :
    pendingRewards s p = .ok (s.pending p % 2 ^ 64) := by
  have hsub : checkedSub (s.amount * p.accruedPerShare / precision) s.rewardDebt = .ok (s.pending p) :=
    okOr_eq_ok.2 (sub_eq_some.2 ⟨hdebt, rfl⟩)
  unfold pendingRewards
  rw [bind_of_ok (accruedRewards_fits h), bind_of_ok hsub]
  rfl

/-- The accumulators no amount overflows with. -/
theorem product_fits_iff {acc : ℕ} : (∀ amount, IsU64 amount → amount * acc < 2 ^ 128) ↔ acc ≤ 2 ^ 64 + 1 := by
  constructor
  · intro h
    have hmax := h (2 ^ 64 - 1) (by decide)
    omega
  · intro h amount hamount
    have hle : amount ≤ 2 ^ 64 - 1 := by unfold IsU64 at hamount; omega
    calc amount * acc ≤ (2 ^ 64 - 1) * (2 ^ 64 + 1) := Nat.mul_le_mul hle h
      _ < 2 ^ 128 := by decide

/-! ## Updates -/

section
variable {p : StakePool} {now : ℤ}

/-- What an update schedules is within the rate and the time. -/
theorem scheduled_fits (hyears : now ≤ p.lastUpdateTime + century) (hrate : p.rewardRatePerSecond ≤ maxRewardRatePerSecond) :
    (now - p.lastUpdateTime).toNat * p.rewardRatePerSecond < 2 ^ 64 := by
  have htime : (now - p.lastUpdateTime).toNat ≤ century := by omega
  calc (now - p.lastUpdateTime).toNat * p.rewardRatePerSecond ≤ century * maxRewardRatePerSecond :=
        Nat.mul_le_mul htime hrate
    _ < 2 ^ 64 := by decide

/-- Within a hundred years an update succeeds while its accumulator does. -/
theorem updatePool_fits (hyears : now ≤ p.lastUpdateTime + century)
    (hrate : p.rewardRatePerSecond ≤ maxRewardRatePerSecond) (hacc : (p.updated now).accruedPerShare ≤ 2 ^ 64 + 1) :
    updatePool p now = .ok (p.updated now) := by
  refine updatePool_of_fits fun _ => ⟨?_, scheduled_fits hyears hrate, fun _ _ => hacc.trans_lt (by decide)⟩
  have : (century : ℤ) < 2 ^ 63 := by decide
  omega

end

/-! ## Settlements -/

/-- The pool of `A` within its ranges: a hundred years and the highest rate, an accumulator no amount
overflows with, and stakes that the stake vault and the other accounts back. -/
structure Fits (A : Pubkey) (w : World) (p : StakePool) : Prop where
  staking : Staking A w p
  years : w.clock ≤ p.lastUpdateTime + century
  rate : p.rewardRatePerSecond ≤ maxRewardRatePerSecond
  acc : (p.updated w.clock).accruedPerShare ≤ 2 ^ 64 + 1
  backed : p.totalStaked ≤ w.balance (.stakeVault A)
  supply : SupplyBelow (2 ^ 64) w.tokenAccounts

section
variable {A : Pubkey} {w : World} {p : StakePool}

theorem Fits.total (h : Fits A w p) : p.totalStaked < 2 ^ 64 :=
  h.backed.trans_lt (Custody.Below.holder h.supply (.stakeVault A))

theorem Fits.amount (h : Fits A w p) (u : Pubkey) : (w.userStake u).amount < 2 ^ 64 :=
  (h.staking.books.total ▸ Custody.le_sum (fun u => (w.userStake u).amount) u).trans_lt h.total

/-- Every product with an amount fits. -/
theorem Fits.product (h : Fits A w p) {amount : ℕ} (hamount : IsU64 amount) :
    amount * (p.updated w.clock).accruedPerShare < 2 ^ 128 :=
  product_fits_iff.2 h.acc amount hamount

theorem Fits.updatePool (h : Fits A w p) : updatePool p w.clock = .ok (p.updated w.clock) :=
  updatePool_fits h.years h.rate h.acc

theorem Fits.pendingRewards (h : Fits A w p) (u : Pubkey) :
    pendingRewards (w.userStake u) (p.updated w.clock) = .ok ((w.userStake u).pending (p.updated w.clock) % 2 ^ 64) :=
  pendingRewards_fits (h.product (h.amount u)) ((h.staking.books.updated w.clock).debt u)

/-- What a stake adds fits the record and the total. -/
theorem Fits.add (h : Fits A w p) {token : Address} {amount : ℕ} (htoken : .stakeVault A ≠ token)
    (hcovered : amount ≤ w.balance token) : p.totalStaked + amount < 2 ^ 64 := by
  have hsupply : w.balance (.stakeVault A) + w.balance token < 2 ^ 64 := Custody.Below.pair h.supply htoken
  have := h.backed
  omega

/-- A stake does not overflow. -/
theorem Fits.stake {ctx : Stake} {amount : ℕ} (h : Fits ctx.state w p) : InRange (stake ctx amount w) := by
  unfold Presale.stake
  refine .bind (Stake.tryAccounts_inRange ctx) ?_
  rintro ⟨st, q, s, m⟩ hfound
  obtain ⟨-, hq, rfl, hsource⟩ := Stake.tryAccounts_ok hfound
  obtain rfl := h.staking.found rfl hq
  refine .bind (.require (by simp [Error.IsOverflow])) fun _ _ => ?_
  refine .bind (ensureStakingAllowed_inRange _ _) fun _ _ => ?_
  refine .after h.updatePool ?_
  refine .bind transferChecked_inRange fun w₁ htr => ?_
  obtain ⟨-, hmove, -⟩ := transferChecked_ok htr
  have htotal := h.add (h.staking.owned.ne_source (isVault_stakeVault _) hsource) hmove.covered
  have hamount : (w.userStake ctx.user).amount + amount < 2 ^ 64 := by
    have := h.staking.amount_le ctx.user
    omega
  refine .after (okOr_eq_ok.2 (add_eq_some.2 ⟨hamount, rfl⟩)) ?_
  refine .after (okOr_eq_ok.2 (add_eq_some.2 ⟨htotal, rfl⟩)) ?_
  refine .after (accruedRewards_fits (h.product hamount)) ?_
  exact .pure _

/-- A claim does not overflow. -/
theorem Fits.claimRewards {ctx : ClaimRewards} (h : Fits ctx.state w p) : InRange (claimRewards ctx w) := by
  unfold Presale.claimRewards
  refine .bind (ClaimRewards.tryAccounts_inRange ctx) ?_
  rintro ⟨st, q, s, m⟩ hfound
  obtain ⟨-, hq, hs, -⟩ := ClaimRewards.tryAccounts_ok hfound
  obtain rfl := h.staking.found rfl hq
  have hpending := h.pendingRewards ctx.user
  have hamount := h.amount ctx.user
  rw [userStake_of hs] at hpending hamount
  refine .bind (ensureStakingAllowed_inRange _ _) fun _ _ => ?_
  refine .after h.updatePool ?_
  refine .after hpending ?_
  refine .bind (.require (by simp [Error.IsOverflow])) fun _ _ => ?_
  refine .after (accruedRewards_fits (h.product hamount)) ?_
  exact .bind transferChecked_inRange fun _ _ => .pure _

theorem payPending_inRange {ctx : Unstake} {pending decimals : ℕ} : InRange (payPending ctx pending decimals w) := by
  unfold payPending
  split
  · exact transferChecked_inRange
  · exact .ok rfl

/-- An unstake does not overflow, unless it is of more than is staked. -/
theorem Fits.unstake {ctx : Unstake} {amount : ℕ} (h : Fits ctx.state w p) :
    Fails (fun e => ¬ e.IsOverflow ∨ e = .presale .mathOverflow ∧ (w.userStake ctx.user).amount < amount)
      (unstake ctx amount w) := by
  have hin : ∀ {α : Type} {x : Except Error α}, InRange x → Fails (fun e => ¬ e.IsOverflow ∨
      e = .presale .mathOverflow ∧ (w.userStake ctx.user).amount < amount) x := fun hx => hx.mono fun _ => .inl
  unfold Presale.unstake
  refine .bind (hin (Unstake.tryAccounts_inRange ctx)) fun a hacc => ?_
  have hfound := Unstake.tryAccounts_ok hacc
  obtain rfl := h.staking.found rfl hfound.pool
  have hpending := h.pendingRewards ctx.user
  have hamount := h.amount ctx.user
  have htotal := h.staking.amount_le ctx.user
  have hrec := userStake_of hfound.userStake
  rw [hrec] at hpending hamount htotal
  refine .bind (.require (.inl (by simp [Error.IsOverflow]))) fun _ _ => ?_
  refine .bind (hin (ensureStakingAllowed_inRange _ _)) fun _ _ => ?_
  refine .bind (.require (.inl (by simp [Error.IsOverflow]))) fun _ _ => ?_
  refine .bind (.require (.inl (by simp [Error.IsOverflow]))) fun _ _ => ?_
  refine .bind (.require (.inl (by simp [Error.IsOverflow]))) fun _ _ => ?_
  refine .bind (.require (.inl (by simp [Error.IsOverflow]))) fun _ _ => ?_
  refine .bind (.require (.inl (by simp [Error.IsOverflow]))) fun _ _ => ?_
  refine .bind (.require (.inl (by simp [Error.IsOverflow]))) fun _ _ => ?_
  refine .after h.updatePool ?_
  refine .after hpending ?_
  refine .bind (hin payPending_inRange) fun _ _ => ?_
  refine .bind (hin transferChecked_inRange) fun _ _ => ?_
  by_cases hx : amount ≤ a.userStake.amount
  · refine .after (okOr_eq_ok.2 (sub_eq_some.2 ⟨hx, rfl⟩)) ?_
    refine .after (okOr_eq_ok.2 (sub_eq_some.2 ⟨hx.trans htotal, rfl⟩)) ?_
    refine .after (accruedRewards_fits (h.product ?_)) ?_
    · exact (Nat.sub_le _ _).trans_lt hamount
    · exact .pure _
  · refine .bind (.okOr (.inr ⟨rfl, by rw [hrec]; omega⟩)) fun _ hsub => ?_
    exact absurd (sub_eq_some.1 (okOr_eq_ok.1 hsub)).1 hx

end

/-- A call that settles a record overflows only as an unstake of more than is staked. -/
theorem Fits.exec {A u : Pubkey} {w : World} {p : StakePool} {c : Call} {e : Error} (h : Fits A w p)
    (hc : c.staker = some (A, u)) (he : exec c w = .error e) : ¬ e.IsOverflow ∨
      e = .presale .mathOverflow ∧ ∃ ctx amount, c = .unstake ctx amount ∧ (w.userStake u).amount < amount := by
  cases c with
  | stake ctx =>
    obtain ⟨rfl, rfl⟩ := Prod.mk.inj (Option.some.inj hc)
    exact .inl (h.stake e he)
  | unstake ctx amount =>
    obtain ⟨rfl, rfl⟩ := Prod.mk.inj (Option.some.inj hc)
    exact (h.unstake e he).imp_right fun ⟨hoverflow, hlt⟩ => ⟨hoverflow, ctx, amount, rfl, hlt⟩
  | claimRewards ctx =>
    obtain ⟨rfl, rfl⟩ := Prod.mk.inj (Option.some.inj hc)
    exact .inl (h.claimRewards e he)
  | _ => cases hc

/-! ## The accumulator in time -/

/-- A pool with anything staked has `k` base units staked for each that its rate releases a second. -/
def EnoughStaked (k : ℕ) (A : Pubkey) (w : World) : Prop :=
  ∀ p ∈ w.pools A, 0 < p.totalStaked → k * p.rewardRatePerSecond ≤ p.totalStaked

instance (k : ℕ) (A : Pubkey) (w : World) : Decidable (EnoughStaked k A w) :=
  inferInstanceAs (Decidable (∀ p ∈ w.pools A, 0 < p.totalStaked → k * p.rewardRatePerSecond ≤ p.totalStaked))

/-- The pool was opened at `opened` at no more than the highest rate, and has accrued no more than a
`k`th of a base unit per share and second since. -/
structure Paced (opened : ℤ) (k : ℕ) (p : StakePool) : Prop where
  since : opened ≤ p.lastUpdateTime
  rate : p.rewardRatePerSecond ≤ maxRewardRatePerSecond
  acc : k * p.accruedPerShare ≤ precision * (p.lastUpdateTime - opened).toNat

section
variable {opened now : ℤ} {k : ℕ} {p : StakePool}

/-- A release over enough shares. -/
theorem released_per_share_le (hk : 0 < p.totalStaked → k * p.rewardRatePerSecond ≤ p.totalStaked) :
    k * (p.released now * precision / p.totalStaked) ≤ precision * (now - p.lastUpdateTime).toNat := by
  rcases Nat.eq_zero_or_pos (p.released now) with hzero | hpos
  · simp [hzero]
  have hrun : p.lastUpdateTime < now ∧ 0 < p.totalStaked := by
    by_contra hnot
    rw [StakePool.released, if_neg hnot] at hpos
    exact lt_irrefl _ hpos
  have hreleased := released_le_rate p now
  rw [if_pos hrun.2] at hreleased
  have hrate : 0 < p.rewardRatePerSecond := by
    rcases Nat.eq_zero_or_pos p.rewardRatePerSecond with h | h
    · rw [h, Nat.zero_mul] at hreleased; omega
    · exact h
  refine Nat.le_of_mul_le_mul_left ?_ hrate
  calc p.rewardRatePerSecond * (k * (p.released now * precision / p.totalStaked))
      = k * p.rewardRatePerSecond * (p.released now * precision / p.totalStaked) := by
        rw [← Nat.mul_assoc, Nat.mul_comm p.rewardRatePerSecond k]
    _ ≤ p.totalStaked * (p.released now * precision / p.totalStaked) := Nat.mul_le_mul_right _ (hk hrun.2)
    _ ≤ p.released now * precision := Nat.mul_div_le _ _
    _ ≤ p.rewardRatePerSecond * (now - p.lastUpdateTime).toNat * precision := Nat.mul_le_mul_right _ hreleased
    _ = p.rewardRatePerSecond * (precision * (now - p.lastUpdateTime).toNat) := by
        rw [Nat.mul_assoc, Nat.mul_comm precision]

theorem Paced.updated (h : Paced opened k p) (hlast : p.lastUpdateTime ≤ now)
    (hk : 0 < p.totalStaked → k * p.rewardRatePerSecond ≤ p.totalStaked) : Paced opened k (p.updated now) := by
  have hmax : max p.lastUpdateTime now = now := max_eq_right hlast
  have hsince := h.since
  have hnew : k * (p.released now * precision / p.totalStaked) ≤ precision * (now - p.lastUpdateTime).toNat :=
    released_per_share_le hk
  have hacc := h.acc
  refine ⟨?_, h.rate, ?_⟩
  · show opened ≤ max p.lastUpdateTime now
    omega
  · show k * (p.accruedPerShare + p.released now * precision / p.totalStaked) ≤
      precision * (max p.lastUpdateTime now - opened).toNat
    have htime : (now - opened).toNat = (p.lastUpdateTime - opened).toNat + (now - p.lastUpdateTime).toNat := by omega
    rw [hmax, htime, Nat.mul_add, Nat.mul_add]
    exact Nat.add_le_add hacc hnew

/-- In a hundred years with 172 base units staked for each released a second the accumulator stays
where no amount overflows. -/
theorem Paced.fits (h : Paced opened 172 p) (hyears : p.lastUpdateTime ≤ opened + century) :
    p.accruedPerShare ≤ 2 ^ 64 + 1 := by
  have htime : (p.lastUpdateTime - opened).toNat ≤ century := by omega
  have hacc : 172 * p.accruedPerShare ≤ precision * century := h.acc.trans (Nat.mul_le_mul_left _ htime)
  have hnum : precision * century = 3155760000000000000000 := by decide
  omega

/-- A step keeps the pace when a settlement finds enough staked. -/
theorem Paced.step {A : Pubkey} {w w' : World} {l : Label} (h : Paced opened k p) (hp : w.pools A = some p)
    (hlast : p.lastUpdateTime ≤ w.clock) (hs : PoolChange A w l w')
    (hk : l.writesStake = some A → EnoughStaked k A w) : ∃ p', w'.pools A = some p' ∧ Paced opened k p' := by
  cases hs with
  | opened hA ho => rw [← hA, ho.fresh] at hp; cases hp
  | @fund c amount _ _ _ hA hf =>
    subst hA
    rw [hf.pool] at hp; cases hp
    refine ⟨{ p with remainingRewards := p.remainingRewards + amount }, ?_, h.since, h.rate, h.acc⟩
    rw [hf.pools, Function.update_self]
  | settled hl hpool hpool' _ =>
    rw [hpool] at hp; cases hp
    have hnow := h.updated hlast (hk hl p hpool)
    exact ⟨_, hpool', hnow.since, hnow.rate, hnow.acc⟩
  | kept _ hkept => exact ⟨p, hkept.trans hp, h⟩

end

section
variable {ctx : InitializeStaking} {rate : ℕ} {w₁ w : World} {tr : List Transition} {k : ℕ}

/-- In every state of a pool's runs the pace is kept when every settlement found enough staked. -/
theorem OpenedRun.paced (h : OpenedRun ctx rate w₁ tr w)
    (hk : ∀ x ∈ tr, x.label.writesStake = some ctx.state → EnoughStaked k ctx.state x.before) :
    ∃ p, w.pools ctx.state = some p ∧ Paced w₁.clock k p := by
  obtain ⟨w₀, pre, wₒ, h0, hpre, hstep⟩ := h.opened
  have hstart : ∃ p, w₁.pools ctx.state = some p ∧ Paced w₁.clock k p := by
    cases hstep with
    | ok _ hok =>
      obtain ⟨st, hp⟩ := initializeStaking_ok hok
      exact ⟨_, by rw [hp.pools, Function.update_self], hp.kept.clock.le, hp.rate, Nat.zero_le _⟩
  refine (Runs.Run.induct (P := fun x => x.label.writesStake = some ctx.state → EnoughStaked k ctx.state x.before)
    (J := fun tr w => OpenedRun ctx rate w₁ tr w ∧ ∃ p, w.pools ctx.state = some p ∧ Paced w₁.clock k p)
    ⟨⟨h.opened, .nil⟩, hstart⟩ ?_ h.run hk).2
  rintro tr s l t - ⟨hrun, p, hp, hpaced⟩ hs hl
  obtain ⟨hown, q, hq, hb⟩ := hrun.books
  rw [hp] at hq; cases hq
  exact ⟨⟨h.opened, hrun.run.snoc hs⟩, hpaced.step hp hb.last (hs.poolChange hown ctx.state) hl⟩

/-- In every state of every run of a pool in its first hundred years: no amount of a `u64` overflows
with the accumulator brought up to date if and only if that is at most `2 ^ 64 + 1`; where it is, no
stake, unstake or claim overflows, an unstake of more than is staked apart; and it is while every
settlement finds at least 172 base units staked, when any are, for each the rate releases a second. -/
theorem poolRun_arithmetic_fits (h : PoolRun ctx rate w₁ tr w) (hyears : w.clock ≤ w₁.clock + century)
    (hsupply : SupplyBelow (2 ^ 64) w.tokenAccounts) :
    ∃ p acc, w.pools ctx.state = some p ∧
      acc = p.accruedPerShare + p.released w.clock * precision / p.totalStaked ∧
      ((∀ amount, IsU64 amount → amount * acc < 2 ^ 128) ↔ acc ≤ 2 ^ 64 + 1) ∧
      (acc ≤ 2 ^ 64 + 1 → (∀ u, (w.userStake u).amount * acc < 2 ^ 128) ∧
        ∀ c u e, c.staker = some (ctx.state, u) → exec c w = .error e → ¬ e.IsOverflow ∨
          e = .presale .mathOverflow ∧ ∃ ctx amount, c = .unstake ctx amount ∧ (w.userStake u).amount < amount) ∧
      ((∀ x ∈ tr, x.label.writesStake = some ctx.state → EnoughStaked 172 ctx.state x.before) →
        EnoughStaked 172 ctx.state w → acc ≤ 2 ^ 64 + 1) := by
  obtain ⟨p, hst⟩ := h.staking
  have hlast := (h.emission hst.pool).last
  have hbacked : p.totalStaked ≤ w.balance (.stakeVault ctx.state) := hst.books.total ▸ h.principalBacked
  have hzero : ∀ w, EnoughStaked 0 ctx.state w := fun w q _ _ => by rw [Nat.zero_mul]; exact Nat.zero_le _
  refine ⟨p, (p.updated w.clock).accruedPerShare, hst.pool, rfl, product_fits_iff, ?_, ?_⟩
  · intro hacc
    obtain ⟨q, hq, hpaced⟩ := h.openedRun.paced fun x _ _ => hzero x.before
    obtain rfl := hst.found rfl hq
    have hsince := hpaced.since
    have hfits : Fits ctx.state w p := ⟨hst, by omega, hpaced.rate, hacc, hbacked, hsupply⟩
    constructor
    · intro u
      exact hfits.product (hfits.amount u)
    · intro c u e hc he
      exact hfits.exec hc he
  · intro hk hnow
    obtain ⟨q, hq, hpaced⟩ := h.openedRun.paced hk
    obtain rfl := hst.found rfl hq
    have hmax : (p.updated w.clock).lastUpdateTime = w.clock := max_eq_right hlast
    exact (hpaced.updated hlast (hnow p hst.pool)).fits (by rw [hmax]; exact hyears)

end

/-- Two users stake at a low rate: every settlement finds enough staked. -/
def sampleThick : List Act := [sampleReward 100, sampleStake 2 1000, .wait 31, sampleStake 3 500, .wait 40]

theorem poolRun_arithmetic_fits_sample :
    ∃ p acc, (play (sampleOpened 2) sampleThick).pools samplePool.state = some p ∧
      acc = p.accruedPerShare + p.released (play (sampleOpened 2) sampleThick).clock * precision / p.totalStaked ∧
      acc ≤ 2 ^ 64 + 1 ∧ (∀ amount, IsU64 amount → amount * acc < 2 ^ 128) ∧
      ∀ e, exec (.claimRewards ⟨1, 2, 100, .ata (.key 2) 100⟩) (play (sampleOpened 2) sampleThick) = .error e →
        ¬ e.IsOverflow := by
  have hrun : PoolRun samplePool 2 (sampleOpened 2) (steps (sampleOpened 2) sampleThick)
      (play (sampleOpened 2) sampleThick) :=
    poolRun_play sampleWorld_genesis (by decide +kernel) (by decide) (by decide +kernel) (by decide +kernel)
      (by decide +kernel) (by decide +kernel)
  have hsupply : SupplyBelow (2 ^ 64) (play (sampleOpened 2) sampleThick).tokenAccounts :=
    (steps_supplyBelow (by decide) (sampleOpened_supplyBelow 2)).1
  obtain ⟨p, acc, hp, hacc, hiff, hfits, hpaced⟩ := poolRun_arithmetic_fits hrun (by decide +kernel) hsupply
  have hbound : acc ≤ 2 ^ 64 + 1 := hpaced (by decide +kernel) (by decide +kernel)
  refine ⟨p, acc, hp, hacc, hbound, hiff.2 hbound, fun e he => ?_⟩
  rcases (hfits hbound).2 _ 2 e rfl he with hno | ⟨-, _, _, hc, -⟩
  · exact hno
  · cases hc

/-! ## A small stake -/

/-- Wallet `3` holds four hundred million million base units. -/
def whaleTokens (k : Pubkey) : ℕ := if k = 3 then 400000000000000 else if k = 1 then 2000000000000 else 5000

def whaleWorld : World :=
  blank (fun k => if k = 100 then some ⟨none, 0⟩ else none)
    (fun
      | .ata (.key k) m => if m = 100 ∧ k ∈ ([1, 2, 3] : List Pubkey) then some ⟨100, .key k, whaleTokens k⟩ else none
      | _ => none)
    (fun
      | .key k => if k ∈ ([1, 2, 3] : List Pubkey) then 100000 else 0
      | _ => 0)

theorem whaleWorld_supplyBelow : SupplyBelow (2 ^ 64) whaleWorld.tokenAccounts := by
  apply blank_supplyBelow (l := [1, 2, 3].map fun k => .ata (.key k) 100) (by decide)
  · intro a ha
    cases a with
    | ata owner m =>
      cases owner with
      | key k => exact if_neg fun h => ha (List.mem_map.2 ⟨k, h.2, by rw [h.1]⟩)
      | _ => rfl
    | _ => rfl
  · decide +kernel

/-- The pool of the presale at the highest rate. -/
def whaleOpened : World :=
  play (play whaleWorld sampleFinalized) [.call (.initializeStaking samplePool maxRewardRatePerSecond)]

theorem whaleOpened_supplyBelow : SupplyBelow (2 ^ 64) whaleOpened.tokenAccounts :=
  (steps_supplyBelow (by decide) (steps_supplyBelow (by decide) whaleWorld_supplyBelow).1).1

/-- A single base unit is staked for a thousand seconds. -/
def whaleEntry : List Act := [sampleReward 1500000000000, sampleStake 2 1, .wait 1021]

/-- Then as much as still fits, for five hundred seconds more. -/
def whaleExit : List Act := whaleEntry ++ [sampleStake 3 340282366920938, .wait 1521]

/-- After a thousand seconds with one base unit staked a stake of wallet `3` aborts; had it staked what
then still fitted, its unstake and its claim would abort five hundred seconds later. -/
theorem staking_overflows :
    PoolRun samplePool maxRewardRatePerSecond whaleOpened (steps whaleOpened whaleEntry) (play whaleOpened whaleEntry) ∧
    PoolRun samplePool maxRewardRatePerSecond whaleOpened (steps whaleOpened whaleExit) (play whaleOpened whaleExit) ∧
    (∀ x ∈ steps whaleOpened whaleExit, SupplyBelow (2 ^ 64) x.before.tokenAccounts ∧
      SupplyBelow (2 ^ 64) x.after.tokenAccounts) ∧
    (play whaleOpened whaleExit).clock ≤ whaleOpened.clock + century ∧
    (∃ p, (play whaleOpened whaleEntry).pools 1 = some p ∧
      2 ^ 128 ≤ 400000000000000 * (p.updated (play whaleOpened whaleEntry).clock).accruedPerShare) ∧
    exec (.stake ⟨1, 3, 100, .ata (.key 3) 100⟩ 400000000000000) (play whaleOpened whaleEntry) = .error .panic ∧
    exec (.unstake ⟨1, 3, 100, .ata (.key 3) 100⟩ 1) (play whaleOpened whaleExit) = .error .panic ∧
    exec (.claimRewards ⟨1, 3, 100, .ata (.key 3) 100⟩) (play whaleOpened whaleExit) = .error .panic := by
  have hgenesis : Genesis whaleWorld := blank_genesis _ _ _
  have hpool : (play whaleOpened whaleEntry).pools 1 = some ⟨maxRewardRatePerSecond, 21, 0, 1, 1500000000000⟩ := by
    decide +kernel
  refine ⟨?_, ?_, (steps_supplyBelow (by decide) whaleOpened_supplyBelow).2, by decide +kernel,
    ⟨_, hpool, by decide +kernel⟩, exec_of_failure (by decide +kernel), exec_of_failure (by decide +kernel),
    exec_of_failure (by decide +kernel)⟩
  · exact poolRun_play hgenesis (by decide +kernel) (by decide) (by decide +kernel) (by decide +kernel)
      (by decide +kernel) (by decide +kernel)
  · exact poolRun_play hgenesis (by decide +kernel) (by decide) (by decide +kernel) (by decide +kernel)
      (by decide +kernel) (by decide +kernel)

end Presale

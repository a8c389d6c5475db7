/-
The emission of a pool: what it was funded with is what it has left and what it has released, and it
releases no faster than its rate, in the time in which something is staked.
-/
import Presale.Stake.Books

namespace Presale

open World

/-! ## Flows of a pool -/

/-- The total staked in the pool of `A`. -/
def World.totalStaked (w : World) (A : Pubkey) : ℕ := ((w.pools A).map (·.totalStaked)).getD 0

/-- The tokens a step funded the reward vault of `A` with. -/
def rewardFunded (A : Pubkey) (x : Transition) : ℕ :=
  match x.label with
  | .ok (.fundRewardVault ctx _) =>
    if ctx.state = A then x.after.balance (.rewardVault A) - x.before.balance (.rewardVault A) else 0
  | _ => 0

/-- The rewards a step released to the stakers of `A`. -/
def releasedIn (A : Pubkey) (x : Transition) : ℕ :=
  if x.label.writesStake = some A then ((x.before.pools A).map (·.released x.before.clock)).getD 0 else 0

/-- The part of a step's time, up to `T`, in which something was staked in the pool of `A`. -/
def stakedTime (A : Pubkey) (T : ℤ) (x : Transition) : ℕ :=
  if 0 < x.before.totalStaked A then (min x.after.clock T - x.before.clock).toNat else 0

section
variable {A : Pubkey} {w w' : World} {l : Label} {p : StakePool} {x : Transition}

theorem World.totalStaked_of (h : w.pools A = some p) : w.totalStaked A = p.totalStaked := by
  simp [World.totalStaked, h]

theorem rewardFunded_zero (h : x.label.writesPool ≠ some A) : rewardFunded A x = 0 := by
  obtain ⟨w, l, w'⟩ := x
  cases l with
  | failed => rfl
  | outside => rfl
  | ok c =>
    cases c with
    | fundRewardVault ctx =>
      simp only [rewardFunded]
      rw [if_neg]
      rintro rfl
      exact h rfl
    | _ => rfl

theorem rewardFunded_settled {B : Pubkey} (h : x.label.writesStake = some B) : rewardFunded A x = 0 := by
  obtain ⟨w, l, w'⟩ := x
  cases l with
  | failed => rfl
  | outside => rfl
  | ok c =>
    cases c with
    | fundRewardVault => cases h
    | _ => rfl

theorem RewardsFunded.rewardFunded {ctx : FundRewardVault} {amount : ℕ} {st : PresaleState}
    (ho : Owned w.tokenAccounts) (h : RewardsFunded ctx amount w w' st p) :
    rewardFunded ctx.state ⟨w, .ok (.fundRewardVault ctx amount), w'⟩ = amount := by
  simp only [Presale.rewardFunded, if_true, h.rewardVault ho, Nat.add_sub_cancel_left]

theorem Label.writesPool_of {l : Label} (h : l.writesStake = some A) : l.writesPool = some A := by
  cases l with
  | failed => cases h
  | outside => cases h
  | ok c =>
    cases c with
    | stake => exact h
    | unstake => exact h
    | claimRewards => exact h
    | _ => cases h

theorem releasedIn_zero (h : l.writesPool ≠ some A) : releasedIn A ⟨w, l, w'⟩ = 0 :=
  if_neg fun hs => h (Label.writesPool_of hs)

theorem releasedIn_settled (hl : l.writesStake = some A) (hp : w.pools A = some p) :
    releasedIn A ⟨w, l, w'⟩ = p.released w.clock := by
  simp [releasedIn, hl, hp]

theorem stakedTime_mono {T T' : ℤ} (h : T ≤ T') (x : Transition) : stakedTime A T x ≤ stakedTime A T' x := by
  unfold stakedTime
  split
  · have := min_le_min_left x.after.clock h
    omega
  · exact le_rfl

/-- Nothing of a step's time is before the step. -/
theorem stakedTime_before {T : ℤ} (h : T ≤ x.before.clock) : stakedTime A T x = 0 := by
  unfold stakedTime
  split
  · have := min_le_right x.after.clock T
    omega
  · rfl

/-- A call takes no time. -/
theorem stakedTime_instant (h : x.after.clock = x.before.clock) (T : ℤ) : stakedTime A T x = 0 := by
  unfold stakedTime
  rw [h]
  split
  · have := min_le_left x.before.clock T
    omega
  · rfl

/-- All of a step's time is up to a later moment. -/
theorem stakedTime_all {T : ℤ} (hp : x.before.pools A = some p) (h : x.after.clock ≤ T) :
    stakedTime A T x = if 0 < p.totalStaked then (x.after.clock - x.before.clock).toNat else 0 := by
  unfold stakedTime
  rw [World.totalStaked_of hp, min_eq_left h]

end

/-! ## The emission books -/

/-- The pool `p` against the steps `tr` since it was opened: what it was funded with is what it has
left and has released; it has released no more than its rate allows up to its last update; and since
then what is staked has not changed. -/
structure EmissionBooks (A : Pubkey) (rate : ℕ) (tr : List Transition) (w : World) (p : StakePool) : Prop where
  rateEq : p.rewardRatePerSecond = rate
  last : p.lastUpdateTime ≤ w.clock
  funded : Runs.total (releasedIn A) tr + p.remainingRewards = Runs.total (rewardFunded A) tr
  released : Runs.total (releasedIn A) tr ≤ rate * Runs.total (stakedTime A p.lastUpdateTime) tr
  since : ∀ T, w.clock ≤ T → Runs.total (stakedTime A p.lastUpdateTime) tr +
    (if 0 < p.totalStaked then (w.clock - p.lastUpdateTime).toNat else 0) ≤ Runs.total (stakedTime A T) tr

section
variable {A : Pubkey} {rate : ℕ} {w w' : World} {l : Label} {p : StakePool} {tr : List Transition}

theorem total_stakedTime_mono {T T' : ℤ} (h : T ≤ T') (tr : List Transition) :
    Runs.total (stakedTime A T) tr ≤ Runs.total (stakedTime A T') tr :=
  List.sum_le_sum fun x _ => stakedTime_mono h x

/-- An update releases no more than the rate allows for the time since the last one. -/
theorem released_le_rate (p : StakePool) (now : ℤ) :
    p.released now ≤ p.rewardRatePerSecond * if 0 < p.totalStaked then (now - p.lastUpdateTime).toNat else 0 := by
  unfold StakePool.released
  split
  · rename_i h
    rw [if_pos h.2, Nat.mul_comm]
    exact Nat.min_le_left _ _
  · exact Nat.zero_le _

/-- A step that leaves the pool alone, while time may pass. -/
theorem EmissionBooks.keep (h : EmissionBooks A rate tr w p) (hp : w.pools A = some p) (hl : l.writesPool ≠ some A)
    (hclock : w.clock ≤ w'.clock) : EmissionBooks A rate (tr ++ [⟨w, l, w'⟩]) w' p := by
  have hlast := h.last
  have hbefore : stakedTime A p.lastUpdateTime ⟨w, l, w'⟩ = 0 := stakedTime_before hlast
  refine ⟨h.rateEq, hlast.trans hclock, ?_, ?_, ?_⟩
  · rw [Runs.total_append, Runs.total_append, Runs.total_singleton, Runs.total_singleton, releasedIn_zero hl,
      rewardFunded_zero hl]
    exact h.funded
  · rw [Runs.total_append, Runs.total_append, Runs.total_singleton, Runs.total_singleton, releasedIn_zero hl, hbefore]
    exact h.released
  · intro T hT
    have hall : stakedTime A T ⟨w, l, w'⟩ = if 0 < p.totalStaked then (w'.clock - w.clock).toNat else 0 :=
      stakedTime_all hp hT
    have hsince := h.since T (hclock.trans hT)
    rw [Runs.total_append, Runs.total_append, Runs.total_singleton, Runs.total_singleton, hbefore, hall]
    split at hsince
    · rename_i hpos
      rw [if_pos hpos, if_pos hpos]
      omega
    · rename_i hpos
      rw [if_neg hpos, if_neg hpos]
      omega

/-- Funding leaves time and stakes alone. -/
theorem EmissionBooks.fund {c : FundRewardVault} {amount : ℕ} {st : PresaleState}
    (h : EmissionBooks c.state rate tr w p) (ho : Owned w.tokenAccounts) (hf : RewardsFunded c amount w w' st p) :
    EmissionBooks c.state rate (tr ++ [⟨w, .ok (.fundRewardVault c amount), w'⟩]) w'
      { p with remainingRewards := p.remainingRewards + amount } := by
  have hclock := hf.kept.clock
  have hrel : releasedIn c.state ⟨w, .ok (.fundRewardVault c amount), w'⟩ = 0 := rfl
  have htime : ∀ T, stakedTime c.state T ⟨w, .ok (.fundRewardVault c amount), w'⟩ = 0 := stakedTime_instant hclock
  refine ⟨h.rateEq, by rw [hclock]; exact h.last, ?_, ?_, ?_⟩
  · have := h.funded
    rw [Runs.total_append, Runs.total_append, Runs.total_singleton, Runs.total_singleton, hrel, hf.rewardFunded ho]
    simp only
    omega
  · rw [Runs.total_append, Runs.total_append, Runs.total_singleton, Runs.total_singleton, hrel, htime]
    exact h.released
  · intro T hT
    rw [hclock] at hT ⊢
    rw [Runs.total_append, Runs.total_append, Runs.total_singleton, Runs.total_singleton, htime, htime]
    exact h.since T hT

/-- A settlement brings the pool up to date before it changes what is staked. -/
theorem EmissionBooks.settle {totalStaked : ℕ} (h : EmissionBooks A rate tr w p) (hp : w.pools A = some p)
    (hl : l.writesStake = some A) (hclock : w'.clock = w.clock) :
    EmissionBooks A rate (tr ++ [⟨w, l, w'⟩]) w' { p.updated w.clock with totalStaked } := by
  have hlast : max p.lastUpdateTime w.clock = w.clock := max_eq_right h.last
  have hrel : releasedIn A ⟨w, l, w'⟩ = p.released w.clock := releasedIn_settled hl hp
  have htime : ∀ T, stakedTime A T ⟨w, l, w'⟩ = 0 := stakedTime_instant hclock
  have hle := released_le p w.clock
  refine ⟨h.rateEq, ?_, ?_, ?_, ?_⟩
  · show max p.lastUpdateTime w.clock ≤ _
    rw [hlast, hclock]
  · have := h.funded
    rw [Runs.total_append, Runs.total_append, Runs.total_singleton, Runs.total_singleton, hrel, rewardFunded_settled hl]
    show _ + (p.remainingRewards - p.released w.clock) = _
    omega
  · show _ ≤ rate * Runs.total (stakedTime A (max p.lastUpdateTime w.clock)) _
    rw [hlast, Runs.total_append, Runs.total_append, Runs.total_singleton, Runs.total_singleton, hrel, htime,
      Nat.add_zero]
    have hrate := released_le_rate p w.clock
    rw [h.rateEq] at hrate
    calc Runs.total (releasedIn A) tr + p.released w.clock
        ≤ rate * Runs.total (stakedTime A p.lastUpdateTime) tr +
            rate * (if 0 < p.totalStaked then (w.clock - p.lastUpdateTime).toNat else 0) :=
          Nat.add_le_add h.released hrate
      _ = rate * (Runs.total (stakedTime A p.lastUpdateTime) tr +
            if 0 < p.totalStaked then (w.clock - p.lastUpdateTime).toNat else 0) := (Nat.mul_add _ _ _).symm
      _ ≤ rate * Runs.total (stakedTime A w.clock) tr := Nat.mul_le_mul_left _ (h.since w.clock le_rfl)
  · intro T hT
    rw [hclock] at hT ⊢
    show Runs.total (stakedTime A (max p.lastUpdateTime w.clock)) _ +
      (if 0 < totalStaked then (w.clock - max p.lastUpdateTime w.clock).toNat else 0) ≤ _
    rw [hlast, Int.sub_self, Runs.total_append, Runs.total_append, Runs.total_singleton, Runs.total_singleton, htime,
      htime]
    have := total_stakedTime_mono (A := A) hT tr
    split <;> simpa using this

/-- A step keeps the emission books. -/
theorem EmissionBooks.step (h : EmissionBooks A rate tr w p) (hp : w.pools A = some p) (ho : Owned w.tokenAccounts)
    (hf : Frame w l w') (hs : PoolChange A w l w') :
    ∃ p', w'.pools A = some p' ∧ EmissionBooks A rate (tr ++ [⟨w, l, w'⟩]) w' p' := by
  cases hs with
  | opened hA hopen => rw [← hA, hopen.fresh] at hp; cases hp
  | fund hA hfund =>
    subst hA
    rw [hfund.pool] at hp; cases hp
    exact ⟨_, by rw [hfund.pools, Function.update_self], h.fund ho hfund⟩
  | settled hl hpool hpool' hclock =>
    rw [hpool] at hp; cases hp
    exact ⟨_, hpool', h.settle hpool hl hclock⟩
  | kept hl hk => exact ⟨p, hk.trans hp, h.keep hp hl hf.clock⟩

end

/-! ## Runs -/

/-- The pool of `ctx.state` is opened in a run of the program: it starts in `w₁` and the steps `tr`,
of whatever pool, lead to `w`. -/
structure OpenedRun (ctx : InitializeStaking) (rate : ℕ) (w₁ : World) (tr : List Transition) (w : World) : Prop where
  opened : ∃ w₀ pre wₒ, Genesis w₀ ∧ Run w₀ pre wₒ ∧ Step wₒ (.ok (.initializeStaking ctx rate)) w₁
  run : Run w₁ tr w

section
variable {ctx : InitializeStaking} {rate : ℕ} {w₁ w : World} {tr : List Transition}

theorem OpenedRun.books (h : OpenedRun ctx rate w₁ tr w) :
    Owned w.tokenAccounts ∧ ∃ p, w.pools ctx.state = some p ∧ EmissionBooks ctx.state rate tr w p := by
  obtain ⟨w₀, pre, wₒ, h0, hpre, hstep⟩ := h.opened
  have hown := hpre.owned h0.owned
  have hown₁ := (hstep.frame hown).evolves.owned hown
  have hstart : ∃ p, w₁.pools ctx.state = some p ∧ EmissionBooks ctx.state rate [] w₁ p := by
    cases hstep with
    | ok _ hok =>
      obtain ⟨st, hp⟩ := initializeStaking_ok hok
      refine ⟨_, by rw [hp.pools, Function.update_self], rfl, ?_, rfl, Nat.zero_le _, ?_⟩
      · exact hp.kept.clock.ge
      · intro T _
        simp
  refine Runs.Run.induct (P := fun _ => True) (J := fun tr w => Owned w.tokenAccounts ∧
    ∃ p, w.pools ctx.state = some p ∧ EmissionBooks ctx.state rate tr w p) ⟨hown₁, hstart⟩ ?_ h.run
    fun _ _ => trivial
  rintro tr s l t - ⟨ho, p, hp, hb⟩ hs -
  have hframe := hs.frame ho
  exact ⟨hframe.evolves.owned ho, hb.step hp ho hframe (hs.poolChange ho ctx.state)⟩

theorem PoolRun.openedRun (h : PoolRun ctx rate w₁ tr w) : OpenedRun ctx rate w₁ tr w := by
  obtain ⟨w₀, pre, wₒ, h0, hpre, -, hstep⟩ := h.opened
  exact ⟨⟨w₀, pre, wₒ, h0, hpre, hstep⟩, h.run⟩

theorem PoolRun.emission {p : StakePool} (h : PoolRun ctx rate w₁ tr w) (hp : w.pools ctx.state = some p) :
    EmissionBooks ctx.state rate tr w p := by
  obtain ⟨-, q, hq, hb⟩ := h.openedRun.books
  rw [hp] at hq; cases hq
  exact hb

/-- The emission cap: in every state of every run of a pool the rewards released, those funded and no
longer left, are within the rate over the time up to the last update in which something was staked. -/
theorem openedRun_emission (h : OpenedRun ctx rate w₁ tr w) : ∃ p released, w.pools ctx.state = some p ∧
    released + p.remainingRewards = Runs.total (rewardFunded ctx.state) tr ∧
    released ≤ p.rewardRatePerSecond * Runs.total (stakedTime ctx.state p.lastUpdateTime) tr ∧
    released ≤ Runs.total (rewardFunded ctx.state) tr := by
  obtain ⟨-, p, hp, hb⟩ := h.books
  have hfunded := hb.funded
  refine ⟨p, Runs.total (releasedIn ctx.state) tr, hp, hfunded, ?_, by omega⟩
  rw [hb.rateEq]
  exact hb.released

end

theorem sampleEmission_run : OpenedRun samplePool 2 (sampleOpened 2)
    (steps (sampleOpened 2) [sampleReward 100, .wait 25, sampleStake 2 10, .wait 31, sampleClaim 2, .wait 40])
    (play (sampleOpened 2) [sampleReward 100, .wait 25, sampleStake 2 10, .wait 31, sampleClaim 2, .wait 40]) :=
  ⟨⟨sampleWorld, _, play sampleWorld sampleFinalized, sampleWorld_genesis, play_run (by decide +kernel),
    .ok (by decide) (exec_of_play (by decide +kernel))⟩, play_run (by decide +kernel)⟩

/-- Twelve of the hundred tokens are released, for the six seconds before the claim. -/
theorem openedRun_emission_sample : ∃ p,
    (play (sampleOpened 2) [sampleReward 100, .wait 25, sampleStake 2 10, .wait 31, sampleClaim 2, .wait 40]).pools
      samplePool.state = some p ∧
    12 + p.remainingRewards = Runs.total (rewardFunded samplePool.state)
      (steps (sampleOpened 2) [sampleReward 100, .wait 25, sampleStake 2 10, .wait 31, sampleClaim 2, .wait 40]) ∧
    12 ≤ p.rewardRatePerSecond * Runs.total (stakedTime samplePool.state p.lastUpdateTime)
      (steps (sampleOpened 2) [sampleReward 100, .wait 25, sampleStake 2 10, .wait 31, sampleClaim 2, .wait 40]) ∧
    12 ≤ Runs.total (rewardFunded samplePool.state)
      (steps (sampleOpened 2) [sampleReward 100, .wait 25, sampleStake 2 10, .wait 31, sampleClaim 2, .wait 40]) := by
  obtain ⟨p, released, hp, hfunded, hrate, hle⟩ := openedRun_emission sampleEmission_run
  have hleft : ((play (sampleOpened 2)
      [sampleReward 100, .wait 25, sampleStake 2 10, .wait 31, sampleClaim 2, .wait 40]).pools 1).map
        (·.remainingRewards) = some 88 := by decide +kernel
  have htotal : Runs.total (rewardFunded samplePool.state) (steps (sampleOpened 2)
      [sampleReward 100, .wait 25, sampleStake 2 10, .wait 31, sampleClaim 2, .wait 40]) = 100 := by decide +kernel
  obtain rfl : released = 12 := by
    rw [show samplePool.state = 1 from rfl] at hp
    rw [hp] at hleft
    have h88 : p.remainingRewards = 88 := Option.some.inj hleft
    omega
  exact ⟨p, hp, hfunded, hrate, hle⟩

end Presale

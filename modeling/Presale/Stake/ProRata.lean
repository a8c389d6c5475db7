/-
What a user whose amount stays is paid in a pool, against the exact share of every release: within a
token of it above, and below within a token and a unit of the accumulator's rounding for each
release and share.
-/
import Presale.Stake.Earned
import Presale.Stake.Emission

namespace Presale

open World

/-! ## Releases -/

/-- What an update at `now` releases, with the total staked it is released over. -/
def StakePool.release (pool : StakePool) (now : ℤ) : List (ℕ × ℕ) :=
  if 0 < pool.released now then [(pool.released now, pool.totalStaked)] else []

/-- The releases to the stakers of `A`, in order, each with the total staked it was released over. -/
def releases (A : Pubkey) (tr : List Transition) : List (ℕ × ℕ) :=
  tr.filterMap fun x => if 0 < releasedIn A x then some (releasedIn A x, x.before.totalStaked A) else none

section
variable {A : Pubkey} {w w' : World} {l : Label} {p : StakePool} {x : Transition} {now : ℤ}

theorem released_pos (h : 0 < p.released now) : 0 < p.totalStaked := by
  unfold StakePool.released at h
  split at h
  · rename_i hrun; exact hrun.2
  · cases h

theorem release_sum (p : StakePool) (now : ℤ) : ((p.release now).map Prod.fst).sum = p.released now := by
  unfold StakePool.release
  split
  · exact List.sum_singleton
  · simp only [List.map_nil, List.sum_nil]
    omega

theorem updated_accrued (p : StakePool) (now : ℤ) :
    (p.updated now).accruedPerShare = p.accruedPerShare + Share.accrued precision (p.release now) := by
  unfold StakePool.release
  split
  · simp [StakePool.updated, Share.accrued]
  · rename_i hzero
    have hnone : p.released now = 0 := by omega
    simp [StakePool.updated, Share.accrued, hnone]

theorem releases_append (tr : List Transition) (x : Transition) :
    releases A (tr ++ [x]) = releases A tr ++ releases A [x] := List.filterMap_append

theorem releases_settled (hl : l.writesStake = some A) (hp : w.pools A = some p) :
    releases A [⟨w, l, w'⟩] = p.release w.clock := by
  have hrel : releasedIn A ⟨w, l, w'⟩ = p.released w.clock := releasedIn_settled hl hp
  have htotal : w.totalStaked A = p.totalStaked := World.totalStaked_of hp
  unfold releases StakePool.release
  rw [List.filterMap_cons, hrel]
  simp only [htotal]
  split <;> simp_all

theorem releases_none (h : releasedIn A x = 0) : releases A [x] = [] := by
  simp [releases, h]

theorem releases_sum (A : Pubkey) : ∀ tr : List Transition,
    ((releases A tr).map Prod.fst).sum = Runs.total (releasedIn A) tr
  | [] => rfl
  | x :: tr => by
    have hrest := releases_sum A tr
    have htotal : Runs.total (releasedIn A) (x :: tr) = releasedIn A x + Runs.total (releasedIn A) tr := by
      simp only [Runs.total, List.map_cons, List.sum_cons]
    unfold releases at hrest ⊢
    rw [htotal, ← hrest, List.filterMap_cons]
    rcases Nat.eq_zero_or_pos (releasedIn A x) with h | h
    · simp [h]
    · simp [h]

end

/-! ## One user's share -/

/-- The record `s` has kept its amount `a` since the accumulator was at `acc`: the pool has made the
releases `rs` since then, and `paid` tokens have been paid on the record. -/
structure ProRata (a acc : ℕ) (s : UserStake) (p : StakePool) (rs : List (ℕ × ℕ)) (paid : ℕ) : Prop where
  amount : s.amount = a
  debt : s.rewardDebt = a * acc / precision + paid
  accrued : p.accruedPerShare = acc + Share.accrued precision rs
  within : Share.Within a rs

section
variable {a acc paid : ℕ} {s : UserStake} {p : StakePool} {rs : List (ℕ × ℕ)}

/-- A record whose debt is set to what has accrued. -/
theorem ProRata.settled (h : s.rewardDebt = p.debt s.amount) : ProRata s.amount p.accruedPerShare s p [] 0 where
  amount := rfl
  debt := h
  accrued := (Nat.add_zero _).symm
  within _ hr := absurd hr List.not_mem_nil

/-- Bringing the pool up to date is one more release, or none. -/
theorem ProRata.updated (h : ProRata a acc s p rs paid) (hle : a ≤ p.totalStaked) (now : ℤ) :
    ProRata a acc s (p.updated now) (rs ++ p.release now) paid := by
  refine ⟨h.amount, h.debt, ?_, ?_⟩
  · rw [updated_accrued, h.accrued, Nat.add_assoc]
    simp only [Share.accrued, List.map_append, List.sum_append]
  · intro r hr
    rcases List.mem_append.1 hr with hr | hr
    · exact h.within r hr
    · unfold StakePool.release at hr
      split at hr
      · rename_i hpos
        rw [List.mem_singleton] at hr
        subst hr
        exact ⟨released_pos hpos, hle⟩
      · cases hr

/-- What was paid and what is pending are what a settled holder is paid over the releases. -/
theorem ProRata.paid_add_pending (h : ProRata a acc s p rs paid)
    (hdebt : s.rewardDebt ≤ s.amount * p.accruedPerShare / precision) :
    paid + s.pending p = Share.paid precision acc a rs := by
  have hdebt' := h.debt
  unfold UserStake.pending Share.paid Share.pending
  rw [← h.accrued, ← h.amount] at *
  omega

/-- The whole pending reward is paid and the debt set to what has accrued. -/
theorem ProRata.settle (h : ProRata a acc s p rs paid) {s' : UserStake} (hamount : s'.amount = s.amount)
    (hdebt : s.rewardDebt ≤ s.amount * p.accruedPerShare / precision) (hset : s'.rewardDebt = p.debt s.amount) :
    ProRata a acc s' p rs (paid + s.pending p) := by
  refine ⟨hamount.trans h.amount, ?_, h.accrued, h.within⟩
  have hdebt' := h.debt
  rw [hset]
  unfold StakePool.debt UserStake.pending
  omega

end

/-! ## Steps -/

/-- The pool and the user whose amount a step sets. -/
def Label.setsAmount : Label → Option (Pubkey × Pubkey)
  | .ok (.stake ctx _) => some (ctx.state, ctx.user)
  | .ok (.unstake ctx _) => some (ctx.state, ctx.user)
  | _ => none

section
variable {A u : Pubkey} {w w' : World} {l : Label} {p : StakePool} {tr : List Transition} {a acc : ℕ}

/-- A settlement that does not set the amount is a claim. -/
theorem Label.claim_of (hl : l.staker = some (A, u)) (hset : l.setsAmount ≠ some (A, u)) :
    ∃ c : ClaimRewards, l = .ok (.claimRewards c) ∧ c.state = A ∧ c.user = u := by
  cases l with
  | failed => cases hl
  | outside => cases hl
  | ok c =>
    cases c with
    | stake => exact absurd hl hset
    | unstake => exact absurd hl hset
    | claimRewards ctx =>
      obtain ⟨hA, hu⟩ := Prod.mk.inj (Option.some.inj hl)
      exact ⟨ctx, rfl, hA, hu⟩
    | _ => cases hl

/-- A step that settles no record of `u` leaves it. -/
theorem PoolStep.userStake_kept (hs : PoolStep A w l w') (hother : l.staker ≠ some (A, u)) :
    w'.userStake u = w.userStake u := by
  cases hs with
  | opened _ ho => rw [userStake_congr ho.userStakes]
  | fund _ hf => rw [userStake_congr hf.userStakes]
  | @stake c _ _ _ _ hA h =>
    have hu : u ≠ c.user := by rintro rfl; exact hother (by rw [← hA]; rfl)
    rw [userStake_update h.userStakes, Function.update_of_ne hu]
  | @unstake c _ _ _ _ _ _ hA h =>
    have hu : u ≠ c.user := by rintro rfl; exact hother (by rw [← hA]; rfl)
    rw [userStake_update h.userStakes, Function.update_of_ne hu]
  | @claim c _ _ _ _ _ hA h =>
    have hu : u ≠ c.user := by rintro rfl; exact hother (by rw [← hA]; rfl)
    rw [userStake_update h.userStakes, Function.update_of_ne hu]
  | quiet _ hq => rw [userStake_congr hq.userStakes]

/-- A step that settles no record of `u` at most brings the pool up to date. -/
theorem ProRata.other (h : ProRata a acc (w.userStake u) p (releases A tr) (Runs.total (rewardedFrom A u) tr))
    (hst : Staking A w p) (hs : PoolStep A w l w') (hchange : PoolChange A w l w') (hother : l.staker ≠ some (A, u)) :
    ∃ p', w'.pools A = some p' ∧ ProRata a acc (w'.userStake u) p' (releases A (tr ++ [⟨w, l, w'⟩]))
      (Runs.total (rewardedFrom A u) (tr ++ [⟨w, l, w'⟩])) := by
  have hunpaid : rewardedFrom A u ⟨w, l, w'⟩ = 0 := if_neg hother
  rw [hs.userStake_kept hother, Runs.total_append, Runs.total_singleton, hunpaid, Nat.add_zero, releases_append]
  cases hchange with
  | opened hA ho => exact absurd hst.pool (by rw [← hA, ho.fresh]; simp)
  | @fund c amount _ _ _ hA hf =>
    obtain rfl := hst.found hA hf.pool
    have hnone : releasedIn A ⟨w, .ok (.fundRewardVault c amount), w'⟩ = 0 := rfl
    refine ⟨_, by rw [hf.pools, hA, Function.update_self], ?_⟩
    rw [releases_none hnone, List.append_nil]
    exact ⟨h.amount, h.debt, h.accrued, h.within⟩
  | settled hl hp hp' _ =>
    obtain rfl := hst.found rfl hp
    refine ⟨_, hp', ?_⟩
    rw [releases_settled hl hp]
    have hle : a ≤ p.totalStaked := h.amount ▸ hst.amount_le u
    have hnow := h.updated hle w.clock
    exact ⟨hnow.amount, hnow.debt, hnow.accrued, hnow.within⟩
  | kept hl hk =>
    refine ⟨p, hk.trans hst.pool, ?_⟩
    rw [releases_none (releasedIn_zero hl), List.append_nil]
    exact h

/-- A claim of `u` pays what is pending, when a `u64` holds it. -/
theorem ProRata.claim {c : ClaimRewards} {st : PresaleState} {s : UserStake} {paid : ℕ}
    (h : ProRata a acc (w.userStake c.user) p (releases c.state tr) (Runs.total (rewardedFrom c.state c.user) tr))
    (hst : Staking c.state w p) (hc : RewardsClaimed c w w' st p s paid)
    (hfits : (w.userStake c.user).pending (p.updated w.clock) < 2 ^ 64) :
    ∃ p', w'.pools c.state = some p' ∧
      ProRata a acc (w'.userStake c.user) p' (releases c.state (tr ++ [⟨w, .ok (.claimRewards c), w'⟩]))
        (Runs.total (rewardedFrom c.state c.user) (tr ++ [⟨w, .ok (.claimRewards c), w'⟩])) := by
  have hrec := userStake_of hc.record
  have hpaid : rewardedFrom c.state c.user ⟨w, .ok (.claimRewards c), w'⟩ =
      (w.userStake c.user).pending (p.updated w.clock) := by
    have hvault := hc.rewardVault hst.owned
    have hcut := hc.paidEq
    rw [← hrec, Nat.mod_eq_of_lt hfits] at hcut
    have htaken : rewardedFrom c.state c.user ⟨w, .ok (.claimRewards c), w'⟩ =
        w.balance (.rewardVault c.state) - w'.balance (.rewardVault c.state) := if_pos rfl
    omega
  have hle : a ≤ p.totalStaked := h.amount ▸ hst.amount_le c.user
  have hnew : w'.userStakes c.user = some { s with rewardDebt := (p.updated w.clock).debt s.amount } := by
    rw [hc.userStakes, Function.update_self]
  refine ⟨_, by rw [hc.pools, Function.update_self], ?_⟩
  rw [Runs.total_append, Runs.total_singleton, hpaid, releases_append, releases_settled rfl hc.pool, userStake_of hnew]
  rw [hrec] at h ⊢
  exact (h.updated hle w.clock).settle rfl hc.debtLe rfl

/-- What is pending is at most what the pool was funded with. -/
theorem ProRata.pending_le {rate : ℕ} {all : List Transition}
    (h : ProRata a acc (w.userStake u) p (releases A tr) (Runs.total (rewardedFrom A u) tr)) (hst : Staking A w p)
    (hb : EmissionBooks A rate all w p) (hall : Runs.total (releasedIn A) tr ≤ Runs.total (releasedIn A) all) (now : ℤ) :
    (w.userStake u).pending (p.updated now) ≤ Runs.total (rewardFunded A) all := by
  have hnow := h.updated (h.amount ▸ hst.amount_le u) now
  have hsum := hnow.paid_add_pending ((hst.books.updated now).debt u)
  have hle : Share.paid precision acc a (releases A tr ++ p.release now) ≤ _ := Share.paid_le precision_pos hnow.within
  rw [List.map_append, List.sum_append, release_sum, releases_sum] at hle
  have hleft := released_le p now
  have hfunded := hb.funded
  omega

end

/-! ## Runs -/

section
variable {ctx : InitializeStaking} {rate : ℕ} {w₁ w : World} {tr tr₀ tr₁ : List Transition} {x₀ : Transition} {u : Pubkey}

theorem PoolRun.append {w' : World} {tr' : List Transition} (h : PoolRun ctx rate w₁ tr w) (h' : Run w tr' w')
    (honly : ∀ x ∈ tr', x.label.OnlyPool ctx.state) : PoolRun ctx rate w₁ (tr ++ tr') w' := by
  refine ⟨h.opened, h.run.append h', ?_⟩
  intro x hx
  rcases List.mem_append.1 hx with hx | hx
  · exact h.only x hx
  · exact honly x hx

theorem PoolRun.snoc {l : Label} {w' : World} (h : PoolRun ctx rate w₁ tr w) (hs : Step w l w')
    (hl : l.OnlyPool ctx.state) : PoolRun ctx rate w₁ (tr ++ [⟨w, l, w'⟩]) w' :=
  h.append (.single hs) (by simpa using hl)

/-- A pool's run splits at each of its steps. -/
theorem PoolRun.split (h : PoolRun ctx rate w₁ (tr₀ ++ x₀ :: tr₁) w) :
    PoolRun ctx rate w₁ tr₀ x₀.before ∧ Step x₀.before x₀.label x₀.after ∧ x₀.label.OnlyPool ctx.state ∧
      Run x₀.after tr₁ w := by
  obtain ⟨hpre, hstep, hpost⟩ := h.run.split
  exact ⟨⟨h.opened, hpre, fun x hx => h.only x (List.mem_append_left _ hx)⟩, hstep,
    h.only x₀ (List.mem_append_right _ List.mem_cons_self), hpost⟩

/-- A stake or an unstake leaves its user settled. -/
theorem Step.proRata {A : Pubkey} {w w' : World} {l : Label} (h : Step w l w')
    (hset : l.setsAmount = some (A, u)) : ∃ p' acc, w'.pools A = some p' ∧
      ProRata (w'.userStake u).amount acc (w'.userStake u) p' [] 0 := by
  cases h with
  | failed => cases hset
  | outside => cases hset
  | @ok c _ _ _ hok =>
    cases c with
    | stake ctx amount =>
      obtain ⟨rfl, rfl⟩ := Prod.mk.inj (Option.some.inj hset)
      obtain ⟨_, p, h⟩ := stake_ok hok
      refine ⟨{ p.updated w.clock with totalStaked := p.totalStaked + amount }, _, ?_, .settled ?_⟩
      · rw [h.pools, Function.update_self]
      · rw [userStake_update h.userStakes, Function.update_self]
        rfl
    | unstake ctx amount =>
      obtain ⟨rfl, rfl⟩ := Prod.mk.inj (Option.some.inj hset)
      obtain ⟨_, p, _, _, h⟩ := unstake_ok hok
      refine ⟨{ p.updated w.clock with totalStaked := p.totalStaked - amount }, _, ?_, .settled ?_⟩
      · rw [h.pools, Function.update_self]
      · rw [userStake_update h.userStakes, Function.update_self]
        rfl
    | _ => cases hset

/-- What holds of `u` in every state after the step that set the amount, while no other sets it. -/
theorem PoolRun.proRata (h : PoolRun ctx rate w₁ (tr₀ ++ x₀ :: tr₁) w)
    (hset : x₀.label.setsAmount = some (ctx.state, u))
    (hkeep : ∀ x ∈ tr₁, x.label.setsAmount ≠ some (ctx.state, u))
    (hfund : Runs.total (rewardFunded ctx.state) (tr₀ ++ x₀ :: tr₁) < 2 ^ 64) :
    ∃ p acc, w.pools ctx.state = some p ∧
      ProRata (x₀.after.userStake u).amount acc (w.userStake u) p (releases ctx.state tr₁)
        (Runs.total (rewardedFrom ctx.state u) tr₁) := by
  obtain ⟨hpre, hstep, hl₀, hpost⟩ := h.split
  have honly : ∀ x ∈ tr₁, x.label.OnlyPool ctx.state := fun x hx =>
    h.only x (List.mem_append_right _ (List.mem_cons_of_mem _ hx))
  refine (Runs.Run.induct (P := fun x => x.label.OnlyPool ctx.state ∧ x.label.setsAmount ≠ some (ctx.state, u))
    (J := fun tr w => PoolRun ctx rate w₁ (tr₀ ++ [x₀] ++ tr) w ∧
      (Runs.total (rewardFunded ctx.state) (tr₀ ++ [x₀] ++ tr) < 2 ^ 64 → ∃ p acc, w.pools ctx.state = some p ∧
        ProRata (x₀.after.userStake u).amount acc (w.userStake u) p (releases ctx.state tr)
          (Runs.total (rewardedFrom ctx.state u) tr))) ?_ ?_ hpost fun x hx => ⟨honly x hx, hkeep x hx⟩).2 ?_
  · rw [List.append_nil]
    exact ⟨hpre.snoc hstep hl₀, fun _ => hstep.proRata hset⟩
  · rintro tr s l t - ⟨hrun, ih⟩ hs ⟨hl, hlset⟩
    rw [← List.append_assoc]
    refine ⟨hrun.snoc hs hl, fun hfund => ?_⟩
    rw [Runs.total_append] at hfund
    obtain ⟨p, acc, hp, hpro⟩ := ih (by omega)
    obtain ⟨q, hst⟩ := hrun.staking
    obtain rfl := hst.found rfl hp
    by_cases hown : l.staker = some (ctx.state, u)
    · -- a claim of `u`, of no more than what was ever funded
      obtain ⟨c, rfl, hA, rfl⟩ := Label.claim_of hown hlset
      cases hs with
      | ok _ hok =>
        obtain ⟨_, q', _, _, hc⟩ := claimRewards_ok hok
        rw [← hA] at hst hpro ⊢
        have hsuffix : Runs.total (releasedIn c.state) tr ≤ Runs.total (releasedIn c.state) (tr₀ ++ [x₀] ++ tr) := by
          rw [Runs.total_append]; exact Nat.le_add_left _ _
        have hpending := hpro.pending_le hst (hA ▸ hrun.emission hp) hsuffix s.clock
        obtain rfl := hst.found rfl hc.pool
        obtain ⟨p', hp', hpro'⟩ := hpro.claim hst hc (by rw [hA] at hpending; omega)
        exact ⟨p', acc, hp', hpro'⟩
    · obtain ⟨p', hp', hpro'⟩ := hpro.other hst (hs.pool hst.owned hl) (hs.poolChange hst.owned ctx.state) hown
      exact ⟨p', acc, hp', hpro'⟩
  · rw [List.append_assoc]
    exact hfund

/-- The accumulator refines the exact split: while the amount of `u` stays as the step `x₀` set it,
no debt exceeds what has accrued, what was paid to `u` since and what is pending are the exact share
of the releases since, up to the rounding, and no more than was released. -/
theorem poolRun_pro_rata (h : PoolRun ctx rate w₁ (tr₀ ++ x₀ :: tr₁) w)
    (hset : x₀.label.setsAmount = some (ctx.state, u))
    (hkeep : ∀ x ∈ tr₁, x.label.setsAmount ≠ some (ctx.state, u))
    (hfund : Runs.total (rewardFunded ctx.state) (tr₀ ++ x₀ :: tr₁) < 2 ^ 64) :
    ∃ p a paid rs, w.pools ctx.state = some p ∧ a = (w.userStake u).amount ∧ a = (x₀.after.userStake u).amount ∧
      rs = releases ctx.state tr₁ ∧
      paid = Runs.total (rewardedFrom ctx.state u) tr₁ + (w.userStake u).pending p ∧
      (∀ now, (w.userStake u).rewardDebt ≤ a * (p.updated now).accruedPerShare / precision ∧
        (w.userStake u).pending (p.updated now) < 2 ^ 64) ∧
      Share.exact a rs - 1 - rs.length * a / precision < paid ∧ (paid : ℚ) < Share.exact a rs + 1 ∧
      paid ≤ (rs.map Prod.fst).sum := by
  obtain ⟨p, hst⟩ := h.staking
  obtain ⟨q, acc, hp, hpro⟩ := h.proRata hset hkeep hfund
  obtain rfl := hst.found rfl hp
  have hpaid := hpro.paid_add_pending (hst.books.debt u)
  have hsuffix : Runs.total (releasedIn ctx.state) tr₁ ≤ Runs.total (releasedIn ctx.state) (tr₀ ++ x₀ :: tr₁) := by
    rw [← List.singleton_append, ← List.append_assoc, Runs.total_append]
    exact Nat.le_add_left _ _
  refine ⟨p, _, _, _, hp, rfl, hpro.amount, rfl, rfl, ?_, ?_, ?_, ?_⟩
  · intro now
    have hpending := hpro.pending_le hst (h.emission hp) hsuffix now
    exact ⟨(hst.books.updated now).debt u, by omega⟩
  · rw [hpaid, hpro.amount]
    exact Share.lt_paid precision_pos hpro.within
  · rw [hpaid, hpro.amount]
    exact Share.paid_lt precision_pos _
  · rw [hpaid]
    exact Share.paid_le precision_pos hpro.within

end

/-- One user claims twice while another's stakes add to the total. -/
def sampleShared : List Act := [.wait 24, sampleStake 3 5, .wait 29, sampleClaim 2, .wait 33, sampleStake 3 4, .wait 40,
  sampleClaim 2]

theorem poolRun_pro_rata_sample :
    ∃ (p : StakePool) (a paid : ℕ) (rs : List (ℕ × ℕ)),
      (play (play (sampleOpened 2) [sampleReward 100, sampleStake 2 7]) sampleShared).pools 1 = some p ∧
      a = ((play (play (sampleOpened 2) [sampleReward 100, sampleStake 2 7]) sampleShared).userStake 2).amount ∧
      rs = releases 1 (steps (play (sampleOpened 2) [sampleReward 100, sampleStake 2 7]) sampleShared) ∧
      Share.exact a rs - 1 - rs.length * a / precision < paid ∧ (paid : ℚ) < Share.exact a rs + 1 ∧
      paid ≤ (rs.map Prod.fst).sum := by
  have hreward : PoolRun samplePool 2 (sampleOpened 2) (steps (sampleOpened 2) [sampleReward 100])
      (play (sampleOpened 2) [sampleReward 100]) :=
    poolRun_play sampleWorld_genesis (by decide +kernel) (by decide) (by decide +kernel) (by decide +kernel)
      (by decide +kernel) (by decide +kernel)
  have hstake : Step (play (sampleOpened 2) [sampleReward 100]) (.ok (.stake ⟨1, 2, 100, .ata (.key 2) 100⟩ 7))
      (play (sampleOpened 2) [sampleReward 100, sampleStake 2 7]) :=
    .ok (by decide) (exec_of_play (w := play (sampleOpened 2) [sampleReward 100]) (by decide +kernel))
  have hshared : Run (play (sampleOpened 2) [sampleReward 100, sampleStake 2 7]) _
      (play (play (sampleOpened 2) [sampleReward 100, sampleStake 2 7]) sampleShared) := play_run (by decide +kernel)
  obtain ⟨p, a, paid, rs, hp, ha, -, hrs, -, -, hrest⟩ :=
    poolRun_pro_rata (u := 2) (hreward.append ((Runs.Run.single hstake).append hshared) (by decide +kernel)) rfl
      (by decide +kernel) (by decide +kernel)
  exact ⟨p, a, paid, rs, hp, ha, hrs, hrest⟩

end Presale

/-
Updating a pool more or less often. A pool that is brought up to date at several moments releases
what one update at the last of them does, and ends with an accumulator short of it by less than one
unit an update. A funding that no update precedes is different: it pays for the time the inventory
was empty.
-/
import Presale.Lib.Share
import Presale.Stake.Emission

namespace Presale

open World Checked

/-! ## When an update succeeds -/

/-- The arithmetic of an update of the pool at a later moment stays in range. -/
structure UpdateFits (p : StakePool) (now : ℤ) : Prop where
  delta : now - p.lastUpdateTime < 2 ^ 63
  scheduled : (now - p.lastUpdateTime).toNat * p.rewardRatePerSecond < 2 ^ 64
  accrued : 0 < p.totalStaked → 0 < p.remainingRewards → (p.updated now).accruedPerShare < 2 ^ 128

section
variable {p q : StakePool} {t t' now : ℤ}

theorem released_due (h : p.lastUpdateTime ≤ now) (hs : 0 < p.totalStaked) :
    p.released now = min ((now - p.lastUpdateTime).toNat * p.rewardRatePerSecond) p.remainingRewards := by
  rcases h.lt_or_eq with hlt | heq
  · exact if_pos ⟨hlt, hs⟩
  · simp [StakePool.released, heq]

theorem updated_lastUpdateTime (h : p.lastUpdateTime ≤ now) : (p.updated now).lastUpdateTime = now := max_eq_right h

theorem updatePool_due (h : p.lastUpdateTime < now) (hu : updatePool p now = .ok q) : UpdateFits p now := by
  unfold updatePool at hu
  rw [if_neg (by omega)] at hu
  simp only [bind_ok_iff, okOr_eq_ok, signed_eq_some, mul_eq_some] at hu
  obtain ⟨_, ⟨⟨-, hdelta⟩, rfl⟩, _, ⟨hscheduled, rfl⟩, r, hr, -⟩ := hu
  refine ⟨hdelta, hscheduled, ?_⟩
  intro hs hrest
  unfold accrue at hr
  rw [if_pos ⟨hs, hrest⟩] at hr
  simp only [bind_ok_iff, okOr_eq_ok, mul_eq_some, add_eq_some] at hr
  obtain ⟨_, ⟨-, rfl⟩, _, ⟨hfits, rfl⟩, -⟩ := hr
  show p.accruedPerShare + p.released now * precision / p.totalStaked < 2 ^ 128
  rw [released_due h.le hs]
  exact hfits

theorem UpdateFits.updatePool (h : UpdateFits p now) (hlt : p.lastUpdateTime < now) :
    updatePool p now = .ok (p.updated now) := by
  have hok : ∃ q, Presale.updatePool p now = .ok q := by
    have hdelta := h.delta
    have hsub : subI64 now p.lastUpdateTime = .ok (now - p.lastUpdateTime) :=
      okOr_eq_ok.2 (signed_eq_some.2 ⟨by omega, rfl⟩)
    have hmul : checkedMul (now - p.lastUpdateTime).toNat p.rewardRatePerSecond = .ok _ :=
      okOr_eq_ok.2 (mul_eq_some.2 ⟨h.scheduled, rfl⟩)
    unfold Presale.updatePool
    rw [if_neg (by omega), bind_of_ok hsub, bind_of_ok hmul]
    unfold accrue
    split
    · rename_i hpos
      have hacc : p.accruedPerShare + p.released now * precision / p.totalStaked < 2 ^ 128 := h.accrued hpos.1 hpos.2
      rw [released_due hlt.le hpos.1] at hacc
      have hscheduled := h.scheduled
      have hprod : min ((now - p.lastUpdateTime).toNat * p.rewardRatePerSecond) p.remainingRewards * precision <
          2 ^ 128 :=
        calc min ((now - p.lastUpdateTime).toNat * p.rewardRatePerSecond) p.remainingRewards * precision
            ≤ 2 ^ 64 * precision := Nat.mul_le_mul_right _ ((Nat.min_le_left _ _).trans hscheduled.le)
          _ < 2 ^ 128 := by decide
      simp only [bind_ok_iff, okOr_eq_ok, mul_eq_some, add_eq_some, sub_eq_some, pure_ok_iff]
      exact ⟨_, _, ⟨_, ⟨hprod, rfl⟩, _, ⟨hacc, rfl⟩, _, ⟨Nat.min_le_right _ _, rfl⟩, rfl⟩, rfl⟩
    · exact ⟨_, rfl⟩
  obtain ⟨q, hq⟩ := hok
  rw [hq, updatePool_ok hq]

theorem updatePool_of_fits (h : p.lastUpdateTime < now → UpdateFits p now) : updatePool p now = .ok (p.updated now) := by
  rcases lt_or_ge p.lastUpdateTime now with hlt | hge
  · exact (h hlt).updatePool hlt
  · obtain ⟨hok, hsame⟩ := updatePool_current hge
    rw [hok, hsame]

/-! ## An update in two -/

/-- An update in between releases what would have been released later anyway. -/
theorem released_split (h : p.lastUpdateTime ≤ t) (ht : t ≤ t') :
    p.released t' = p.released t + (p.updated t).released t' := by
  have hlast := updated_lastUpdateTime h
  rcases Nat.eq_zero_or_pos p.totalStaked with hs | hs
  · simp [StakePool.released, StakePool.updated, hs]
  have htime : (t' - p.lastUpdateTime).toNat = (t - p.lastUpdateTime).toNat + (t' - t).toNat := by omega
  rw [released_due (h.trans ht) hs, released_due h hs, released_due (hlast.trans_le ht) hs, hlast, htime, Nat.add_mul,
    Share.min_add_eq, ← released_due h hs]
  rfl

/-- The pool `q'` is the pool `q` but for an accumulator that is at most `n` units behind. -/
structure Lags (n : ℕ) (q' q : StakePool) : Prop where
  remainingRewards : q'.remainingRewards = q.remainingRewards
  lastUpdateTime : q'.lastUpdateTime = q.lastUpdateTime
  totalStaked : q'.totalStaked = q.totalStaked
  behind : q'.accruedPerShare ≤ q.accruedPerShare
  within : q.accruedPerShare ≤ q'.accruedPerShare + n

theorem Lags.refl (q : StakePool) : Lags 0 q q := ⟨rfl, rfl, rfl, le_rfl, le_rfl⟩

theorem Lags.trans {q₁ q₂ q₃ : StakePool} {m n : ℕ} (h : Lags m q₁ q₂) (h' : Lags n q₂ q₃) : Lags (m + n) q₁ q₃ := by
  have hbehind := h.behind
  have hwithin := h.within
  have hwithin' := h'.within
  exact ⟨h.remainingRewards.trans h'.remainingRewards, h.lastUpdateTime.trans h'.lastUpdateTime,
    h.totalStaked.trans h'.totalStaked, hbehind.trans h'.behind, by omega⟩

/-- An update in two costs the accumulator one unit at most. -/
theorem updated_split (h : p.lastUpdateTime ≤ t) (ht : t ≤ t') : Lags 1 ((p.updated t).updated t') (p.updated t') := by
  have hsplit := released_split h ht
  have hlast := updated_lastUpdateTime h
  have hrest : ((p.updated t).updated t').remainingRewards =
      p.remainingRewards - p.released t - (p.updated t).released t' := rfl
  have htwo : ((p.updated t).updated t').accruedPerShare = p.accruedPerShare +
      p.released t * precision / p.totalStaked + (p.updated t).released t' * precision / p.totalStaked := rfl
  have hone : (p.updated t').accruedPerShare = p.accruedPerShare + p.released t' * precision / p.totalStaked := rfl
  constructor
  · rw [hrest, Nat.sub_sub, ← hsplit]
    rfl
  · rw [updated_lastUpdateTime (hlast.trans_le ht), updated_lastUpdateTime (h.trans ht)]
  · rfl
  · rw [htwo, hone, hsplit, Nat.add_assoc]
    exact Nat.add_le_add_left (Share.div_add_div_le _ _ _ _) _
  · rw [htwo, hone, hsplit]
    rcases Nat.eq_zero_or_pos p.totalStaked with hs | hs
    · simp [hs]
    · have := Share.le_div_add_div precision (p.released t) ((p.updated t).released t') hs
      omega

theorem accruedPerShare_le_updated (h : p.lastUpdateTime ≤ t) (ht : t ≤ t') :
    (p.updated t).accruedPerShare ≤ (p.updated t').accruedPerShare :=
  (Nat.le_add_right _ _).trans (updated_split h ht).behind

/-- An update over less time that leads to a smaller accumulator fits, too. -/
theorem UpdateFits.mono {p' : StakePool} (h : UpdateFits p' t') (htime : t - p.lastUpdateTime ≤ t' - p'.lastUpdateTime)
    (hrate : p.rewardRatePerSecond = p'.rewardRatePerSecond) (hstaked : p.totalStaked = p'.totalStaked)
    (hrest : 0 < p.remainingRewards → 0 < p'.remainingRewards)
    (hacc : (p.updated t).accruedPerShare ≤ (p'.updated t').accruedPerShare) : UpdateFits p t := by
  have hdelta := h.delta
  constructor
  · omega
  · rw [hrate]
    exact (Nat.mul_le_mul_right _ (by omega)).trans_lt h.scheduled
  · intro hs hr
    exact hacc.trans_lt (h.accrued (hstaked ▸ hs) (hrest hr))

/-- Where one update fits, so do an update in between and the update after it. -/
theorem UpdateFits.split (h : UpdateFits p t') (hlt : p.lastUpdateTime < t) (ht : t < t') :
    UpdateFits p t ∧ UpdateFits (p.updated t) t' := by
  have hlast := updated_lastUpdateTime hlt.le
  constructor
  · exact h.mono (by omega) rfl rfl id (accruedPerShare_le_updated hlt.le ht.le)
  · refine h.mono (by omega) rfl rfl ?_ (updated_split hlt.le ht.le).behind
    intro hrest
    exact lt_of_lt_of_le hrest (Nat.sub_le _ _)

/-! ## Updates at many moments -/

/-- Updates at the moments `t :: ts` succeed where one at the last of them fits, and each but the
last costs the accumulator a unit at most. -/
theorem UpdateFits.pokes : ∀ {p : StakePool} {t : ℤ} {ts : List ℤ}, (p.lastUpdateTime :: t :: ts).Pairwise (· < ·) →
    UpdateFits p ((t :: ts).getLast (List.cons_ne_nil t ts)) → ∃ q, (t :: ts).foldlM Presale.updatePool p = .ok q ∧
      Lags ts.length q (p.updated ((t :: ts).getLast (List.cons_ne_nil t ts)))
  | p, t, [], hinc, h => by
    have hlt : p.lastUpdateTime < t := by simpa using hinc
    have hok : Presale.updatePool p t = .ok (p.updated t) := h.updatePool hlt
    refine ⟨p.updated t, ?_, .refl _⟩
    rw [List.foldlM_cons, bind_of_ok hok]
    rfl
  | p, t, t' :: ts, hinc, h => by
    obtain ⟨hfirst, hrest⟩ := List.pairwise_cons.1 hinc
    have hlt := hfirst t List.mem_cons_self
    have ht : t < (t' :: ts).getLast (List.cons_ne_nil t' ts) :=
      (List.pairwise_cons.1 hrest).1 _ (List.getLast_mem _)
    rw [List.getLast_cons (List.cons_ne_nil t' ts)] at h ⊢
    obtain ⟨hnow, hlater⟩ := h.split hlt ht
    obtain ⟨q, hq, hlags⟩ := UpdateFits.pokes ((updated_lastUpdateTime hlt.le).symm ▸ hrest) hlater
    refine ⟨q, ?_, hlags.trans (updated_split hlt.le ht.le)⟩
    rw [List.foldlM_cons, bind_of_ok (hnow.updatePool hlt)]
    exact hq

/-- Whoever updates the pool in between neither speeds the release up nor stops it: where one update
succeeds, so do the updates on the way to it, and the pool they lead to is the same but for less than
one unit of the accumulator an update. -/
theorem updatePool_pokes {ts : List ℤ} (hts : ts ≠ []) (hinc : (p.lastUpdateTime :: ts).Pairwise (· < ·))
    (h : updatePool p (ts.getLast hts) = .ok q) :
    ∃ q', ts.foldlM updatePool p = .ok q' ∧ Lags (ts.length - 1) q' q := by
  cases ts with
  | nil => exact absurd rfl hts
  | cons t ts =>
    have hlt : p.lastUpdateTime < (t :: ts).getLast hts := (List.pairwise_cons.1 hinc).1 _ (List.getLast_mem _)
    rw [updatePool_ok h]
    exact (updatePool_due hlt h).pokes hinc

/-- Three updates instead of one, of a pool of three that releases a token every other second. -/
theorem updatePool_pokes_sample : ∃ q', [(22 : ℤ), 23, 25].foldlM updatePool ⟨1, 21, 0, 3, 100⟩ = .ok q' ∧
    Lags 2 q' ⟨1, 25, 1333333333333, 3, 96⟩ := by
  have hinc : List.Pairwise (· < ·) [(21 : ℤ), 22, 23, 25] := by simp
  have hone : updatePool ⟨1, 21, 0, 3, 100⟩ 25 = .ok ⟨1, 25, 1333333333333, 3, 96⟩ := rfl
  exact updatePool_pokes (p := ⟨1, 21, 0, 3, 100⟩) (List.cons_ne_nil _ _) hinc hone

/-! ## A funding in between -/

/-- The pool with `amount` more to release. -/
def StakePool.funded (p : StakePool) (amount : ℕ) : StakePool :=
  { p with remainingRewards := p.remainingRewards + amount }

/-- The inventory lasts up to the funding at `t`, or what comes in is used up by `t'`. -/
def FundedInTime (p : StakePool) (amount : ℕ) (t t' : ℤ) : Prop :=
  (t - p.lastUpdateTime).toNat * p.rewardRatePerSecond ≤ p.remainingRewards ∨
    amount ≤ (t' - t).toNat * p.rewardRatePerSecond

/-- What is released by `t'`, when an update precedes a funding at `t` and when none does. -/
theorem released_funded (amount : ℕ) (h : p.lastUpdateTime ≤ t) (ht : t ≤ t') (hs : 0 < p.totalStaked) :
    (p.funded amount).released t' = min ((t - p.lastUpdateTime).toNat * p.rewardRatePerSecond +
        (t' - t).toNat * p.rewardRatePerSecond) (p.remainingRewards + amount) ∧
      ((p.updated t).funded amount).released t' = min ((t' - t).toNat * p.rewardRatePerSecond)
        (p.remainingRewards - min ((t - p.lastUpdateTime).toNat * p.rewardRatePerSecond) p.remainingRewards + amount) := by
  have hlast := updated_lastUpdateTime h
  have htime : (t' - p.lastUpdateTime).toNat = (t - p.lastUpdateTime).toNat + (t' - t).toNat := by omega
  constructor
  · rw [released_due (p := p.funded amount) (h.trans ht) hs, ← Nat.add_mul, ← htime]
    rfl
  · rw [released_due (p := (p.updated t).funded amount) (hlast.trans_le ht) hs, ← released_due h hs]
    show min ((t' - (p.updated t).lastUpdateTime).toNat * _) _ = _
    rw [hlast]
    rfl

/-- An update that precedes the funding succeeds, and so does the one after it, when the one after the
funding alone does. -/
theorem updatePool_funded {amount : ℕ} (h : p.lastUpdateTime ≤ t) (ht : t ≤ t') (hs : 0 < p.totalStaked) (ha : 0 < amount)
    (hq : updatePool (p.funded amount) t' = .ok q) : updatePool p t = .ok (p.updated t) ∧
      updatePool ((p.updated t).funded amount) t' = .ok (((p.updated t).funded amount).updated t') := by
  have hlast := updated_lastUpdateTime h
  have hfits : p.lastUpdateTime < t' → UpdateFits (p.funded amount) t' := fun hlt => updatePool_due hlt hq
  obtain ⟨hone, htwo⟩ := released_funded amount h ht hs
  have hsum : p.released t + ((p.updated t).funded amount).released t' ≤ (p.funded amount).released t' := by
    rw [hone, htwo, released_due h hs]
    exact Share.min_add_funded_le _ _ _ _
  have hacc : (((p.updated t).funded amount).updated t').accruedPerShare ≤
      ((p.funded amount).updated t').accruedPerShare := by
    show p.accruedPerShare + p.released t * precision / p.totalStaked +
        ((p.updated t).funded amount).released t' * precision / p.totalStaked ≤
      p.accruedPerShare + (p.funded amount).released t' * precision / p.totalStaked
    rw [Nat.add_assoc]
    refine Nat.add_le_add_left ((Share.div_add_div_le _ _ _ _).trans ?_) _
    exact Nat.div_le_div_right (Nat.mul_le_mul_right _ hsum)
  have hpos : 0 < (p.funded amount).remainingRewards := lt_of_lt_of_le ha (Nat.le_add_left _ _)
  constructor
  · refine updatePool_of_fits fun hlt => ?_
    refine (hfits (hlt.trans_le ht)).mono ?_ rfl rfl (fun _ => hpos) ((Nat.le_add_right _ _).trans hacc)
    show t - p.lastUpdateTime ≤ t' - p.lastUpdateTime
    omega
  · refine updatePool_of_fits fun hlt => ?_
    have hlt' : t < t' := hlast ▸ hlt
    refine (hfits (h.trans_lt hlt')).mono ?_ rfl rfl (fun _ => hpos) hacc
    show t' - (p.updated t).lastUpdateTime ≤ t' - p.lastUpdateTime
    omega

/-- A transfer does not depend on the pools. -/
theorem transferChecked_setPool {w w' : World} {A : Pubkey} {src dst authority : Address} {mint : Pubkey}
    {amount decimals : ℕ} (h : transferChecked w src mint dst authority amount decimals = .ok w') :
    transferChecked (w.setPool A p) src mint dst authority amount decimals = .ok (w'.setPool A p) := by
  unfold transferChecked account at h ⊢
  simp only [bind_ok_iff, okOr_eq_ok, require_eq_ok] at h ⊢
  obtain ⟨a, ha, b, hb, _, hle, _, hab, _, ham, m, hm, _, hdec, _, hown, hw'⟩ := h
  refine ⟨a, ha, b, hb, (), hle, (), hab, (), ham, m, hm, (), hdec, (), hown, ?_⟩
  split at hw'
  · rename_i hself
    rw [if_pos hself]
    cases hw'
    rfl
  · rename_i hdiff
    rw [if_neg hdiff]
    cases hw'
    rfl

/-- A pool that has released more since can be funded just as well. -/
theorem fundRewardVault_setPool {c : FundRewardVault} {amount : ℕ} {w w' : World} (h : fundRewardVault c amount w = .ok w')
    (hp : w.pools c.state = some p) (hq : q.remainingRewards ≤ p.remainingRewards) :
    ∃ w'', fundRewardVault c amount (w.setPool c.state q) = .ok w'' ∧ w''.pools c.state = some (q.funded amount) := by
  unfold fundRewardVault FundRewardVault.tryAccounts account at h ⊢
  simp only [bind_ok_iff, require_eq_ok, okOr_eq_ok, add_eq_some, pure_ok_iff, Prod.exists, Prod.mk.injEq] at h ⊢
  obtain ⟨_, _, _, ⟨st, hst, _, hpool, m, hm, a, ha, v, hv, _, howner, _, hmint, _, hvault, rfl, rfl, rfl⟩, _, hadmin, _,
    hpos, w₁, htr, _, ⟨hfits, rfl⟩, -⟩ := h
  rw [hp] at hpool; cases hpool
  have hset : (w.setPool c.state q).pools c.state = some q := Function.update_self _ _ _
  exact ⟨_, ⟨_, _, _, ⟨st, hst, q, hset, m, hm, a, ha, v, hv, (), howner, (), hmint, (), hvault, rfl, rfl, rfl⟩, (), hadmin,
    (), hpos, _, transferChecked_setPool htr, _, ⟨by omega, rfl⟩, rfl⟩, Function.update_self _ _ _⟩

/-- A pool that no step writes stays. -/
theorem Run.pool_kept {A : Pubkey} {w w' : World} {tr : List Transition} (h : Run w tr w') (ho : Owned w.tokenAccounts)
    (hquiet : ∀ x ∈ tr, x.label.writesPool ≠ some A) : w'.pools A = w.pools A ∧ w.clock ≤ w'.clock := by
  refine (Runs.Run.invariant (P := fun x => x.label.writesPool ≠ some A)
    (I := fun s => Owned s.tokenAccounts ∧ s.pools A = w.pools A ∧ w.clock ≤ s.clock) ⟨ho, rfl, le_rfl⟩ ?_ h hquiet).2
  rintro s l t ⟨ho, hpool, hclock⟩ hs hl
  have hframe := hs.frame ho
  exact ⟨hframe.evolves.owned ho, (hframe.pools A hl).trans hpool, hclock.trans hframe.clock⟩

/-- What is released by the next update after a funding is within the inventory there was before it
and the rate since, and is what would have been released had someone updated the pool just before the
funding, exactly when the inventory lasted up to the funding or what came in is used up by then. -/
theorem openedRun_funding {ctx : InitializeStaking} {rate amount : ℕ} {w₁ w w' w₂ : World} {tr mid : List Transition}
    {c : FundRewardVault} {p₂ : StakePool} (h : OpenedRun ctx rate w₁ tr w) (hp : w.pools ctx.state = some p)
    (hs : 0 < p.totalStaked) (hc : c.state = ctx.state) (hfund : fundRewardVault c amount w = .ok w')
    (hmid : Run w' mid w₂) (hquiet : ∀ x ∈ mid, x.label.writesPool ≠ some ctx.state)
    (hp₂ : w₂.pools ctx.state = some p₂) (hq : updatePool p₂ w₂.clock = .ok q) :
    (p₂.remainingRewards - q.remainingRewards ≤
        min ((w.clock - p.lastUpdateTime).toNat * p.rewardRatePerSecond) p.remainingRewards +
          (w₂.clock - w.clock).toNat * p.rewardRatePerSecond ↔ FundedInTime p amount w.clock w₂.clock) ∧
      ∃ p' wₚ pₚ q', updatePool p w.clock = .ok p' ∧ fundRewardVault c amount (w.setPool c.state p') = .ok wₚ ∧
        wₚ.pools c.state = some pₚ ∧ updatePool pₚ w₂.clock = .ok q' ∧
        (p.remainingRewards - p'.remainingRewards + (pₚ.remainingRewards - q'.remainingRewards) =
          p₂.remainingRewards - q.remainingRewards ↔ FundedInTime p amount w.clock w₂.clock) := by
  obtain ⟨ho, p', hp', hb⟩ := h.books
  rw [hp] at hp'; cases hp'
  obtain ⟨st, p', hf⟩ := fundRewardVault_ok hfund
  have hpool := hf.pool
  rw [hc, hp] at hpool; cases hpool
  have hclock : w'.clock = w.clock := hf.kept.clock
  obtain ⟨hkept, htime⟩ := hmid.pool_kept ((hf.frame ho).evolves.owned ho) hquiet
  rw [hclock] at htime
  have hfunded : p₂ = p.funded amount := by
    rw [hkept, hf.pools, hc, Function.update_self] at hp₂
    exact (Option.some.inj hp₂).symm
  subst hfunded
  obtain ⟨hupdate, hlater⟩ := updatePool_funded hb.last htime hs hf.pos hq
  obtain ⟨wₚ, hok, hpₚ⟩ := fundRewardVault_setPool hfund (hc ▸ hp) (q := p.updated w.clock) (Nat.sub_le _ _)
  -- what each of the three updates releases is what its pool has left less after it
  have hreleased : ∀ (r : StakePool) (now : ℤ), r.remainingRewards - (r.updated now).remainingRewards = r.released now :=
    fun r now => Nat.sub_sub_self (released_le r now)
  obtain ⟨hone, htwo⟩ := released_funded amount hb.last htime hs
  rw [updatePool_ok hq, hreleased, hone]
  refine ⟨Share.min_add_funded_le_iff _ _ _ _, _, wₚ, _, _, hupdate, hok, hpₚ, hlater, ?_⟩
  rw [hreleased, hreleased, htwo, released_due hb.last hs]
  exact Share.min_add_funded_iff _ _ _ _

end

/-- The inventory is funded with fifty tokens before a hundred have run out. -/
def sampleInTime : List Act := [sampleReward 100, sampleStake 2 10, .wait 31]

theorem sampleInTime_run : OpenedRun samplePool 2 (sampleOpened 2) (steps (sampleOpened 2) sampleInTime)
    (play (sampleOpened 2) sampleInTime) :=
  ⟨⟨sampleWorld, _, play sampleWorld sampleFinalized, sampleWorld_genesis, play_run (by decide +kernel),
    .ok (by decide) (exec_of_play (by decide +kernel))⟩, play_run (by decide +kernel)⟩

/-- Nine seconds later twenty tokens are released for the time before and eighteen for the time since. -/
theorem openedRun_funding_sample : ∃ w' q,
    fundRewardVault ⟨1, 1, 100, .ata (.key 1) 100⟩ 50 (play (sampleOpened 2) sampleInTime) = .ok w' ∧
    updatePool ⟨2, 21, 0, 10, 150⟩ 40 = .ok q ∧ q.remainingRewards = 112 ∧
    (150 - q.remainingRewards ≤ min ((31 - 21 : ℤ).toNat * 2) 100 + (40 - 31 : ℤ).toNat * 2 ↔
      FundedInTime ⟨2, 21, 0, 10, 100⟩ 50 31 40) := by
  have hpool : (play (sampleOpened 2) sampleInTime).pools 1 = some ⟨2, 21, 0, 10, 100⟩ := by decide +kernel
  have hfund := exec_of_play (w := play (sampleOpened 2) sampleInTime)
    (c := .fundRewardVault ⟨1, 1, 100, .ata (.key 1) 100⟩ 50) (by decide +kernel)
  have hmid : Playable (play (play (sampleOpened 2) sampleInTime) [sampleReward 50]) [.wait 40] := by decide +kernel
  have hupdate : updatePool ⟨2, 21, 0, 10, 150⟩ 40 = .ok ⟨2, 40, 3800000000000, 10, 112⟩ := rfl
  have hiff := (openedRun_funding sampleInTime_run hpool (by decide) rfl hfund (play_run hmid) (by decide +kernel)
    (show _ = some ⟨2, 21, 0, 10, 150⟩ by decide +kernel) hupdate).1
  exact ⟨_, _, hfund, hupdate, rfl, hiff⟩

/-- A hundred seconds pass with an empty inventory. -/
def sampleDry : List Act := [sampleStake 2 1000, .wait 121]

theorem sampleDry_run : OpenedRun samplePool 1 (sampleOpened 1) (steps (sampleOpened 1) sampleDry)
    (play (sampleOpened 1) sampleDry) :=
  ⟨⟨sampleWorld, _, play sampleWorld sampleFinalized, sampleWorld_genesis, play_run (by decide +kernel),
    .ok (by decide) (exec_of_play (by decide +kernel))⟩, play_run (by decide +kernel)⟩

/-- Then a thousand tokens come in, and an update in the same second releases a hundred of them, where
nothing was left to release; had there been one just before as well, it would release none. -/
theorem funding_pays_for_the_past : ∃ w' q wₚ,
    OpenedRun samplePool 1 (sampleOpened 1) (steps (sampleOpened 1) sampleDry) (play (sampleOpened 1) sampleDry) ∧
    (play (sampleOpened 1) sampleDry).clock = 121 ∧
    (play (sampleOpened 1) sampleDry).pools 1 = some ⟨1, 21, 0, 1000, 0⟩ ∧
    fundRewardVault ⟨1, 1, 100, .ata (.key 1) 100⟩ 1000 (play (sampleOpened 1) sampleDry) = .ok w' ∧
    w'.pools 1 = some ⟨1, 21, 0, 1000, 1000⟩ ∧ updatePool ⟨1, 21, 0, 1000, 1000⟩ 121 = .ok q ∧
    ¬ 1000 - q.remainingRewards ≤ min ((121 - 21 : ℤ).toNat * 1) 0 + (121 - 121 : ℤ).toNat * 1 ∧
    updatePool ⟨1, 21, 0, 1000, 0⟩ 121 = .ok ⟨1, 121, 0, 1000, 0⟩ ∧
    fundRewardVault ⟨1, 1, 100, .ata (.key 1) 100⟩ 1000
      ((play (sampleOpened 1) sampleDry).setPool 1 ⟨1, 121, 0, 1000, 0⟩) = .ok wₚ ∧
    wₚ.pools 1 = some ⟨1, 121, 0, 1000, 1000⟩ ∧
    updatePool ⟨1, 121, 0, 1000, 1000⟩ 121 = .ok ⟨1, 121, 0, 1000, 1000⟩ := by
  have hpool : (play (sampleOpened 1) sampleDry).pools 1 = some ⟨1, 21, 0, 1000, 0⟩ := by decide +kernel
  have hfund := exec_of_play (w := play (sampleOpened 1) sampleDry)
    (c := .fundRewardVault ⟨1, 1, 100, .ata (.key 1) 100⟩ 1000) (by decide +kernel)
  have hupdate : updatePool ⟨1, 21, 0, 1000, 1000⟩ 121 = .ok ⟨1, 121, 100000000000, 1000, 900⟩ := rfl
  obtain ⟨wₚ, hok, hpₚ⟩ := fundRewardVault_setPool (q := ⟨1, 121, 0, 1000, 0⟩) hfund hpool (Nat.zero_le _)
  exact ⟨_, _, wₚ, sampleDry_run, by decide +kernel, hpool, hfund, by decide +kernel, hupdate, by decide, rfl, hok, hpₚ, rfl⟩

end Presale

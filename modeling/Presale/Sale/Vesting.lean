/-
The vesting schedule over the claims of a user: what the claims have paid by the last of them is what
the schedule has released by then, however many there were and whenever they were made.
-/
import Presale.Sale.Flows
import Presale.Sale.Outcome

namespace Presale

open World

/-! ## The record of a user -/

/-- The presale and the user of a claim. -/
def Label.claims : Label → Option (Pubkey × Pubkey)
  | .ok (.claimVested ctx) => some (ctx.state, ctx.user)
  | _ => none

theorem claimedFrom_none {A u : Pubkey} {x : Transition} (h : x.label.claims ≠ some (A, u)) : claimedFrom A u x = 0 := by
  obtain ⟨w, l, w'⟩ := x
  cases l with
  | failed => rfl
  | outside => rfl
  | ok c =>
    cases c with
    | claimVested c =>
      simp only [claimedFrom]
      rw [if_neg]
      rintro ⟨rfl, rfl⟩
      exact h rfl
    | _ => rfl

section
variable {ctx : InitializePresale} {args : InitializePresaleArgs} {w₁ w w' : World} {tr tr' : List Transition}
  {st : PresaleState} {l : Label} {u : Pubkey}

/-- A step adds to a user's record the tokens it sold to the user and those it paid out. -/
theorem SaleStep.record {A : Pubkey} (h : SaleStep A w l w') (u : Pubkey) :
    (w'.vesting u).totalLocked = (w.vesting u).totalLocked + boughtIn A u ⟨w, l, w'⟩ ∧
      (w'.vesting u).alreadyClaimed = (w.vesting u).alreadyClaimed + claimedFrom A u ⟨w, l, w'⟩ := by
  have hkept : w'.vestings = w.vestings → boughtIn A u ⟨w, l, w'⟩ = 0 → claimedFrom A u ⟨w, l, w'⟩ = 0 →
      (w'.vesting u).totalLocked = (w.vesting u).totalLocked + boughtIn A u ⟨w, l, w'⟩ ∧
        (w'.vesting u).alreadyClaimed = (w.vesting u).alreadyClaimed + claimedFrom A u ⟨w, l, w'⟩ := by
    intro hv hb hc
    rw [vesting_congr hv, hb, hc]
    exact ⟨rfl, rfl⟩
  cases h with
  | launch _ hl => exact hkept hl.vestings rfl rfl
  | buy hA hb =>
    rw [hb.boughtIn, vesting_update hb.vestings]
    rename_i c _ _ _ _ _ _ _
    by_cases hu : u = c.buyer
    · subst hu
      simp [hA, UserVesting.bought, claimedFrom]
    · simp [Function.update_of_ne hu, Ne.symm hu, claimedFrom]
  | @claim c _ _ v paid hA hc =>
    rw [hc.claimedFrom, vesting_update hc.vestings]
    by_cases hu : u = c.user
    · subst hu
      simp [hA, vesting_of hc.vesting, boughtIn]
    · simp [Function.update_of_ne hu, Ne.symm hu, boughtIn]
  | @refund c _ _ v hA hr =>
    rw [vesting_update hr.vestings]
    by_cases hu : u = c.user
    · subst hu
      simp [vesting_of hr.vesting, boughtIn, claimedFrom]
    · simp [Function.update_of_ne hu, boughtIn, claimedFrom]
  | flags hl hf => exact hkept hf.vestings (no_flow hl).1 (no_flow hl).2.2.1
  | withdrawFunds _ hw => exact hkept hw.vestings rfl rfl
  | withdrawUnsold _ hw => exact hkept hw.vestings rfl rfl
  | quiet hl hq => exact hkept hq.vestings (no_flow hl).1 (no_flow hl).2.2.1

/-- The record counts what was paid out. -/
theorem SaleRun.alreadyClaimed (h : SaleRun ctx args w₁ tr w) (u : Pubkey) :
    Runs.total (claimedFrom ctx.admin u) tr = (w.vesting u).alreadyClaimed := by
  refine h.induct (P := fun _ => True)
    (J := fun tr w => Runs.total (claimedFrom ctx.admin u) tr = (w.vesting u).alreadyClaimed) (fun _ _ => trivial) ?_ ?_
  · rw [h.launched.2.2 u]
    rfl
  · intro tr w st l w' _ _ hsale _ hJ
    have := (hsale.record u).2
    rw [Runs.total_append, Runs.total_singleton]
    omega

/-- Once the sale has ended no step sells a user anything. -/
theorem Open.no_purchase {now : ℤ} (ho : Open ctx args w st) (ha : args.Accepted now) (hstep : Step w l w')
    (hs : SaleStep ctx.admin w l w') (hended : args.endTime < w.clock) : boughtIn ctx.admin u ⟨w, l, w'⟩ = 0 := by
  by_contra hne
  have hsells : l.sells = some ctx.admin := by
    cases hs with
    | buy hA hb => exact congrArg some hA
    | flags hl _ => exact absurd (no_flow hl).1 hne
    | quiet hl _ => exact absurd (no_flow hl).1 hne
    | _ => exact absurd rfl hne
  have := hstep.sells_open ho ha hsells
  omega

/-- Once the sale has ended a user's record changes only when the user claims. -/
theorem Open.record_kept {now : ℤ} (ho : Open ctx args w st) (ha : args.Accepted now) (hstep : Step w l w')
    (hs : SaleStep ctx.admin w l w') (hended : args.endTime < w.clock) (hl : l.claims ≠ some (ctx.admin, u)) :
    (w'.vesting u).totalLocked = (w.vesting u).totalLocked ∧
      (w'.vesting u).alreadyClaimed = (w.vesting u).alreadyClaimed := by
  obtain ⟨hlocked, hclaimed⟩ := hs.record u
  have hbought := ho.no_purchase (u := u) ha hstep hs hended
  have hpaid : claimedFrom ctx.admin u ⟨w, l, w'⟩ = 0 := claimedFrom_none hl
  omega

/-- Over steps after the end without a claim of `u` the record of `u` stays. -/
theorem Open.record_run {now : ℤ} (ho : Open ctx args w st) (ha : args.Accepted now) (hrun : Run w tr' w')
    (honly : ∀ x ∈ tr', x.label.OnlySale ctx.admin) (hended : args.endTime < w.clock)
    (hno : ∀ x ∈ tr', x.label.claims ≠ some (ctx.admin, u)) :
    (w'.vesting u).totalLocked = (w.vesting u).totalLocked ∧
      (w'.vesting u).alreadyClaimed = (w.vesting u).alreadyClaimed := by
  refine ho.after_end (P := fun x => x.label.claims ≠ some (ctx.admin, u)) (I := fun s =>
    (s.vesting u).totalLocked = (w.vesting u).totalLocked ∧ (s.vesting u).alreadyClaimed = (w.vesting u).alreadyClaimed)
    hrun honly hno hended ⟨rfl, rfl⟩ ?_
  rintro s st l t ho hend hstep hsale hc ⟨hlocked, hclaimed⟩
  obtain ⟨hlocked', hclaimed'⟩ := ho.record_kept (u := u) ha hstep hsale hend hc
  exact ⟨hlocked'.trans hlocked, hclaimed'.trans hclaimed⟩

/-! ## The schedule -/

/-- What has been claimed is within what the schedule has released. -/
def ClaimedWithin (st₀ : PresaleState) (w : World) : Prop :=
  ∀ u, (w.vesting u).alreadyClaimed ≤ (w.vesting u).vestedAt st₀ w.clock

theorem vestedAt_mono {v v' : UserVesting} {st₀ : PresaleState} {now later : ℤ} (hstart : v'.startTime = v.startTime)
    (hlocked : v.totalLocked ≤ v'.totalLocked) (ht : now ≤ later) : v.vestedAt st₀ now ≤ v'.vestedAt st₀ later := by
  unfold UserVesting.vestedAt
  rw [hstart]
  apply Schedule.due_mono _ hlocked
  omega

theorem ClaimedWithin.mono {st₀ : PresaleState} (h : ClaimedWithin st₀ w) (hv : w'.vestings = w.vestings)
    (hclock : w.clock ≤ w'.clock) : ClaimedWithin st₀ w' := by
  intro u
  rw [vesting_congr hv]
  exact (h u).trans (vestedAt_mono rfl le_rfl hclock)

/-- A step keeps what has been claimed within the schedule. -/
theorem ClaimedWithin.step (h : ClaimedWithin (args.toState ctx) w) (ho : Open ctx args w st) (hf : Frame w l w')
    (hs : SaleStep ctx.admin w l w') : ClaimedWithin (args.toState ctx) w' := by
  have hst := ho.state
  cases hs with
  | launch hA hl => rw [← hA, hl.fresh] at hst; cases hst
  | @buy c _ _ _ _ _ _ _ _ hA hb =>
    intro u
    rw [vesting_update hb.vestings, hb.clock]
    by_cases hu : u = c.buyer
    · subst hu
      rw [Function.update_self]
      rcases Nat.eq_zero_or_pos (w.vesting c.buyer).totalLocked with h0 | hpos
      · -- a first purchase finds nothing claimed
        have hclaimed := ho.books.claimed c.buyer
        show (w.vesting c.buyer).alreadyClaimed ≤ _
        omega
      · refine (h c.buyer).trans (vestedAt_mono ?_ (Nat.le_add_right _ _) le_rfl)
        show (if (w.vesting c.buyer).totalLocked = 0 then _ else _) = _
        rw [if_neg (by omega)]
    · rw [Function.update_of_ne hu]
      exact h u
  | @claim c _ _ v paid hA hc =>
    rw [← hA, hc.state] at hst; cases hst
    intro u
    rw [vesting_update hc.vestings, hc.clock]
    by_cases hu : u = c.user
    · subst hu
      rw [Function.update_self]
      show v.alreadyClaimed + paid ≤ v.vestedAt (args.toState ctx) w.clock
      have := hc.claimed
      have := hc.paidEq
      rw [← ho.vestedAt]
      omega
    · rw [Function.update_of_ne hu]
      exact h u
  | @refund c _ _ v hA hr =>
    intro u
    rw [vesting_update hr.vestings, hr.clock]
    by_cases hu : u = c.user
    · subst hu
      have hrec := h c.user
      rw [vesting_of hr.vesting] at hrec
      rw [Function.update_self]
      exact hrec
    · rw [Function.update_of_ne hu]
      exact h u
  | flags _ hfl => exact h.mono hfl.vestings hf.clock
  | withdrawFunds _ hw => exact h.mono hw.vestings hf.clock
  | withdrawUnsold _ hw => exact h.mono hw.vestings hf.clock
  | quiet _ hq => exact h.mono hq.vestings hf.clock

theorem SaleRun.claimedWithin (h : SaleRun ctx args w₁ tr w) : ClaimedWithin (args.toState ctx) w := by
  refine h.induct (P := fun _ => True) (J := fun _ w => ClaimedWithin (args.toState ctx) w) (fun _ _ => trivial) ?_ ?_
  · intro u
    rw [h.launched.2.2 u]
    exact Nat.zero_le _
  · intro tr w st l w' ho hstep hsale _ hJ
    exact hJ.step ho (hstep.frame ho.owned) hsale

/-- A claim leaves its user with what the schedule has released. -/
theorem Open.claim_due {c : ClaimVested} {v : UserVesting} {paid : ℕ} (ho : Open ctx args w st)
    (hc : Claimed c w w' st v paid) :
    (w'.vesting c.user).alreadyClaimed = Schedule.due (w'.vesting c.user).totalLocked args.vestingDuration.toNat
      (w.clock - (args.endTime + args.vestingCliff)).toNat := by
  have hrec := vesting_of hc.vesting
  have hpos : 0 < v.totalLocked := by
    have := hc.pos
    have := hc.paidEq
    have := v.vestedAt_le st w.clock
    omega
  have hvested := ho.vestedAt_end (u := c.user) (by rw [hrec]; exact hpos) w.clock
  rw [hrec] at hvested
  rw [vesting_update hc.vestings, Function.update_self, ← hvested]
  have := hc.claimed
  have := hc.paidEq
  show v.alreadyClaimed + paid = _
  omega

/-- A claim of the run, with the presale and the record it found, and what it paid. -/
theorem SaleRun.claim_at {pre post : List Transition} {x : Transition}
    (h : SaleRun ctx args w₁ (pre ++ x :: post) w) (hx : x.label.claims = some (ctx.admin, u)) :
    ∃ st v paid c, Open ctx args x.before st ∧ c.user = u ∧ Claimed c x.before x.after st v paid ∧
      claimedFrom ctx.admin u x = paid := by
  obtain ⟨hpre, hstep⟩ := h.before
  obtain ⟨st, ho⟩ := hpre.open
  obtain ⟨s, l, t⟩ := x
  cases hstep with
  | failed => cases hx
  | outside => cases hx
  | @ok c _ _ _ hok =>
    cases c with
    | claimVested c =>
      obtain ⟨hA, hu⟩ := Prod.mk.inj (Option.some.inj hx)
      obtain ⟨st', v, paid, hc⟩ := claimVested_ok hok
      have hst := hc.state
      rw [hA, ho.state] at hst; cases hst
      refine ⟨st, v, paid, c, ho, hu, hc, ?_⟩
      rw [hc.claimedFrom, if_pos ⟨hA, hu⟩]
    | _ => cases hx

/-- After the last claim of a user all claims together have paid what the schedule had released by
then. -/
theorem SaleRun.claimed_last {pre post : List Transition} {x : Transition}
    (h : SaleRun ctx args w₁ (pre ++ x :: post) w) (hx : x.label.claims = some (ctx.admin, u))
    (hpost : ∀ y ∈ post, y.label.claims ≠ some (ctx.admin, u)) :
    args.endTime + args.vestingCliff < x.before.clock ∧
      Runs.total (claimedFrom ctx.admin u) (pre ++ x :: post) =
        Schedule.due (w.vesting u).totalLocked args.vestingDuration.toNat
          (x.before.clock - (args.endTime + args.vestingCliff)).toNat := by
  have ha := h.accepted
  obtain ⟨st, v, paid, c, ho, rfl, hc, -⟩ := h.claim_at hx
  refine ⟨ho.claim_vested ha hc, ?_⟩
  have hended := ho.claim_ended ha hc
  obtain ⟨-, hstep⟩ := h.before
  obtain ⟨st', ho'⟩ := ho.step (hstep.frame ho.owned) (hstep.sale ho.owned (h.only x (by simp)))
  obtain ⟨hlocked, hclaimed⟩ := ho'.record_run ha h.run.split.2.2
    (fun y hy => h.only y (List.mem_append_right _ (List.mem_cons_of_mem _ hy))) (by rw [hc.clock]; exact hended) hpost
  rw [h.alreadyClaimed, hclaimed, ho.claim_due hc, hlocked]

/-- No claim finds less released than has been paid. -/
theorem Open.claim_covered {vested : ℕ} {v : UserVesting} (ho : Open ctx args w st)
    (hw : ClaimedWithin (args.toState ctx) w) (hv : w.vestings u = some v)
    (hvested : vestedTokens v.totalLocked (w.clock - (v.startTime + st.vestingCliff)).toNat st.vestingDuration.toNat =
      .ok vested) : checkedSub vested v.alreadyClaimed = .ok (vested - v.alreadyClaimed) := by
  have hwithin := hw u
  rw [← ho.vestedAt, vesting_of hv] at hwithin
  rw [vestedTokens_ok hvested]
  exact Checked.okOr_eq_ok.2 (Checked.sub_eq_some.2 ⟨hwithin, rfl⟩)

/-- The claims of a user pay what the schedule has released by the last of them, whenever and however
often earlier ones were made: nothing up to the cliff, never more than was bought, and no claim
finds less released than it has paid. -/
theorem saleRun_vesting (h : SaleRun ctx args w₁ tr w) (u : Pubkey) :
    (∀ pre x post, tr = pre ++ x :: post → x.label.claims = some (ctx.admin, u) →
      (∀ y ∈ post, y.label.claims ≠ some (ctx.admin, u)) →
      Runs.total (claimedFrom ctx.admin u) tr =
        if args.vestingDuration ≤ x.before.clock - (args.endTime + args.vestingCliff) then (w.vesting u).totalLocked
        else (w.vesting u).totalLocked * (x.before.clock - (args.endTime + args.vestingCliff)).toNat /
          args.vestingDuration.toNat) ∧
    (∀ x ∈ tr, x.before.clock ≤ args.endTime + args.vestingCliff → claimedFrom ctx.admin u x = 0) ∧
    Runs.total (claimedFrom ctx.admin u) tr ≤ (w.vesting u).totalLocked ∧
    ∀ st ∈ w.states ctx.admin, ∀ v ∈ w.vestings u, ∀ vested,
      vestedTokens v.totalLocked (w.clock - (v.startTime + st.vestingCliff)).toNat st.vestingDuration.toNat = .ok vested →
      checkedSub vested v.alreadyClaimed = .ok (vested - v.alreadyClaimed) := by
  obtain ⟨st, ho⟩ := h.open
  refine ⟨?_, ?_, ?_, ?_⟩
  · intro pre x post htr hx hpost
    subst htr
    obtain ⟨hcliff, hdue⟩ := h.claimed_last hx hpost
    have hduration := h.accepted.duration
    rw [hdue]
    unfold Schedule.due
    by_cases hfull : args.vestingDuration ≤ x.before.clock - (args.endTime + args.vestingCliff)
    · rw [if_pos hfull, if_pos (by omega)]
    · rw [if_neg hfull, if_neg (by omega)]
  · intro x hx hclock
    apply claimedFrom_none
    intro hxl
    obtain ⟨pre, post, rfl⟩ := List.append_of_mem hx
    obtain ⟨st, v, paid, c, ho, -, hc, -⟩ := h.claim_at hxl
    have := ho.claim_vested h.accepted hc
    omega
  · rw [h.alreadyClaimed]
    exact ho.books.claimed u
  · intro st' hst v hv vested hvested
    rw [ho.state] at hst; cases hst
    exact ho.claim_covered h.claimedWithin hv hvested

end

/-- Two purchases of a user, who then claims too early and on the way. -/
def sampleVesting : List Act :=
  [sampleFund 2000, .wait 12, sampleBuy 2 100 none, .wait 15, sampleBuy 2 200 none, .wait 20,
    .call (.claimVested ⟨1, 2, 100⟩), .wait 37, .call (.claimVested ⟨1, 2, 100⟩), .wait 53]

theorem sampleVesting_run : SaleRun sampleCtx (sampleArgs 10) (sampleLaunched 10)
    (steps (sampleLaunched 10) (sampleVesting ++ [Act.call (.claimVested ⟨1, 2, 100⟩)]))
    (play (sampleLaunched 10) (sampleVesting ++ [Act.call (.claimVested ⟨1, 2, 100⟩)])) :=
  saleRun_play sampleWorld_genesis (by decide) (by decide +kernel) (by decide +kernel) (by decide +kernel)

/-- A third of the schedule has passed at the last claim. -/
theorem saleRun_vesting_sample : Runs.total (claimedFrom sampleCtx.admin 2)
    (steps (sampleLaunched 10) (sampleVesting ++ [.call (.claimVested ⟨1, 2, 100⟩)])) = 300 * 33 / 100 := by
  have hlast : failure (play (sampleLaunched 10) sampleVesting) (.claimVested ⟨1, 2, 100⟩) = none := by decide +kernel
  have hsplit := steps_append (sampleLaunched 10) sampleVesting [.call (.claimVested ⟨1, 2, 100⟩)]
  rw [steps_call hlast] at hsplit
  rw [(saleRun_vesting sampleVesting_run 2).1 _ _ _ hsplit rfl fun y hy => absurd hy List.not_mem_nil]
  decide +kernel

end Presale

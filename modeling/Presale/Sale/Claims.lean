/-
The claims of a presale at their edges: what a user's claims pay against the minimum, and when the
arithmetic of a claim stays in range.
-/
import Presale.Sale.Purchase
import Presale.Sale.Vesting

namespace Presale

open World Checked

section
variable {ctx : InitializePresale} {args : InitializePresaleArgs} {w₁ w w' : World} {tr tr' : List Transition}
  {st : PresaleState} {u : Pubkey}

/-! ## The minimum -/

theorem Open.minClaimAmount (ho : Open ctx args w st) : st.minClaimAmount = args.minClaimAmount :=
  config_congr ho.books.config (·.minClaimAmount) fun _ => rfl

/-- Once the sale has ended a record of which everything is claimed stays such a record. -/
theorem Open.all_claimed {now : ℤ} (ho : Open ctx args w st) (ha : args.Accepted now) (hrun : Run w tr' w')
    (honly : ∀ x ∈ tr', x.label.OnlySale ctx.admin) (hended : args.endTime < w.clock)
    (hall : (w.vesting u).alreadyClaimed = (w.vesting u).totalLocked) :
    (w'.vesting u).alreadyClaimed = (w'.vesting u).totalLocked := by
  refine ho.after_end (P := fun _ => True) (I := fun s => (s.vesting u).alreadyClaimed = (s.vesting u).totalLocked)
    hrun honly (fun _ _ => trivial) hended hall ?_
  intro s st l t ho hend hstep hsale _ hall
  obtain ⟨st', ho'⟩ := ho.step (hstep.frame ho.owned) hsale
  -- nothing more is bought, and what is claimed stays within what was bought
  obtain ⟨hlocked, hclaimed⟩ := hsale.record u
  have hbought := ho.no_purchase (u := u) ha hstep hsale hend
  have hwithin := ho'.books.claimed u
  omega

/-- After a claim that leaves nothing a user claims no more. -/
theorem SaleRun.no_claim_after {pre post : List Transition} {x : Transition}
    (h : SaleRun ctx args w₁ (pre ++ x :: post) w) (hx : x.label.claims = some (ctx.admin, u))
    (hall : (x.after.vesting u).alreadyClaimed = (x.after.vesting u).totalLocked) :
    ∀ y ∈ post, y.label.claims ≠ some (ctx.admin, u) := by
  intro y hy hyl
  obtain ⟨mid, post', rfl⟩ := List.append_of_mem hy
  have ha := h.accepted
  obtain ⟨st, v, paid, c, ho, rfl, hc, -⟩ := h.claim_at hx
  obtain ⟨-, hstep, hpost⟩ := h.run.split
  obtain ⟨hmid, -⟩ := hpost.split
  obtain ⟨st', ho'⟩ := ho.step (hstep.frame ho.owned) (hstep.sale ho.owned (h.only x (by simp)))
  have hended : args.endTime < x.after.clock := by
    rw [hc.clock]
    exact ho.claim_ended ha hc
  have hleft := ho'.all_claimed ha hmid (fun z hz => h.only z (by simp [hz])) hended hall
  -- the later claim would have had something to pay
  have hsplit : SaleRun ctx args w₁ ((pre ++ x :: mid) ++ y :: post') w := by
    rw [List.append_assoc]
    exact h
  obtain ⟨st₂, v₂, paid₂, c₂, -, hu, hc₂, -⟩ := hsplit.claim_at hyl
  rw [← hu, vesting_of hc₂.vesting] at hleft
  have hpos := hc₂.pos
  have hpaid := hc₂.paidEq
  have hvested := v₂.vestedAt_le st₂ y.before.clock
  omega

/-- At the end of the schedule everything has vested. -/
theorem Open.vestedAt_whole (ho : Open ctx args w st) (hu : 0 < (w.vesting u).totalLocked)
    (hwhole : args.endTime + args.vestingCliff + args.vestingDuration ≤ w.clock) :
    (w.vesting u).vestedAt st w.clock = (w.vesting u).totalLocked := by
  rw [ho.vestedAt_end hu]
  exact if_pos (by omega)

/-- A claim pays at least the minimum, unless it is its user's last and leaves nothing; and a user with
anything left at the end of the schedule is not refused for an amount too small. -/
theorem saleRun_min_claim (h : SaleRun ctx args w₁ tr w) (u : Pubkey) :
    (∀ pre x post, tr = pre ++ x :: post → x.label.claims = some (ctx.admin, u) →
      args.minClaimAmount ≤ claimedFrom ctx.admin u x ∨
        ((∀ y ∈ post, y.label.claims ≠ some (ctx.admin, u)) ∧
          (x.after.vesting u).alreadyClaimed = (x.after.vesting u).totalLocked)) ∧
    (args.endTime + args.vestingCliff + args.vestingDuration ≤ w.clock →
      (w.vesting u).alreadyClaimed < (w.vesting u).totalLocked → ∀ c : ClaimVested, c.state = ctx.admin → c.user = u →
        claimVested c w ≠ .error (.presale .nothingToClaim) ∧ claimVested c w ≠ .error (.presale .belowMinClaim)) := by
  constructor
  · rintro pre x post rfl hx
    obtain ⟨st, v, paid, c, ho, rfl, hc, hpaid⟩ := h.claim_at hx
    rw [hpaid]
    rcases le_or_gt args.minClaimAmount paid with hle | hlt
    · exact .inl hle
    -- a claim below the minimum found the whole record vested
    have hwhole := hc.minClaim (ho.minClaimAmount ▸ hlt)
    have hall : (x.after.vesting c.user).alreadyClaimed = (x.after.vesting c.user).totalLocked := by
      have hclaimed := hc.claimed
      have hpaidEq := hc.paidEq
      rw [vesting_update hc.vestings, Function.update_self]
      show v.alreadyClaimed + paid = v.totalLocked
      omega
    exact .inr ⟨h.no_claim_after hx hall, hall⟩
  · intro hwhole hleft c hA hu
    obtain ⟨st, ho⟩ := h.open
    have hvested := ho.vestedAt_whole (u := u) (by omega) hwhole
    have hfails : ∀ e, claimVested c w = .error e →
        e ≠ .presale .nothingToClaim ∧ e ≠ .presale .belowMinClaim := by
      intro e he
      rcases claimVested_error he with ⟨r, rfl⟩ | ⟨st', v, hst, hv, hf⟩
      · simp
      rw [hA, ho.state] at hst; cases hst
      rw [hu] at hv
      rw [vesting_of hv] at hvested hleft
      cases hf with
      | nothing hnone => omega
      | minClaim hpart => exact absurd hvested hpart
      | _ => simp
    exact ⟨fun he => (hfails _ he).1 rfl, fun he => (hfails _ he).2 rfl⟩

end

/-- The sample presale with a minimum of a hundred and fifty base units a claim. -/
def minArgs : InitializePresaleArgs := { sampleArgs 10 with minClaimAmount := 150 }

def minLaunched : World := play sampleWorld [.call (.initializePresale sampleCtx minArgs)]

/-- A user claims most of three hundred base units, and then too soon again. -/
def sampleMinimum : List Act :=
  [sampleFund 2000, .wait 12, sampleBuy 2 300 none, .wait 80, .call (.claimVested ⟨1, 2, 100⟩), .wait 90,
    .call (.claimVested ⟨1, 2, 100⟩), .wait 120]

theorem sampleMinimum_run : SaleRun sampleCtx minArgs minLaunched
    (steps minLaunched (sampleMinimum ++ [Act.call (.claimVested ⟨1, 2, 100⟩)]))
    (play minLaunched (sampleMinimum ++ [Act.call (.claimVested ⟨1, 2, 100⟩)])) :=
  saleRun_play sampleWorld_genesis (by decide) (by decide +kernel) (by decide +kernel) (by decide +kernel)

/-- The last hundred and twenty base units, less than the minimum, are all that is left. -/
theorem saleRun_min_claim_sample :
    ((play (play minLaunched sampleMinimum) [.call (.claimVested ⟨1, 2, 100⟩)]).vesting 2).alreadyClaimed =
      ((play (play minLaunched sampleMinimum) [.call (.claimVested ⟨1, 2, 100⟩)]).vesting 2).totalLocked := by
  have hlast : failure (play minLaunched sampleMinimum) (.claimVested ⟨1, 2, 100⟩) = none := by decide +kernel
  have hsplit := steps_append minLaunched sampleMinimum [.call (.claimVested ⟨1, 2, 100⟩)]
  rw [steps_call hlast] at hsplit
  rcases (saleRun_min_claim sampleMinimum_run 2).1 _ _ _ hsplit rfl with hless | ⟨-, hall⟩
  · revert hless
    decide +kernel
  · exact hall

section
variable {ctx : InitializePresale} {args : InitializePresaleArgs} {w₁ w w' : World} {tr tr' : List Transition}
  {st : PresaleState} {u : Pubkey}

/-! ## The arithmetic -/

/-- The arithmetic of a claim on the record `v` at the clock time `t` stays in range. -/
structure ClaimInRange (st : PresaleState) (v : UserVesting) (t : ℤ) : Prop where
  start : IsI64 (v.startTime + st.vestingCliff)
  elapsed : 0 ≤ v.elapsed st t → IsI64 (v.elapsed st t)
  product : 0 ≤ v.elapsed st t → v.elapsed st t < st.vestingDuration → v.totalLocked * (v.elapsed st t).toNat < 2 ^ 64

/-- A presale launched with `args` vests `locked` tokens without leaving the range: the schedule starts at a
time that is a clock time and not a negative one, and the tokens times the longest time it can be found
running for fit. -/
structure VestingFits (args : InitializePresaleArgs) (locked : ℕ) : Prop where
  nonneg : 0 ≤ args.endTime + args.vestingCliff
  start : args.endTime + args.vestingCliff < 2 ^ 63
  product : locked * (min (args.vestingDuration - 1) (2 ^ 63 - 1 - (args.endTime + args.vestingCliff))).toNat < 2 ^ 64

/-- Every record has bought something. -/
def RecordsBought (w : World) : Prop := ∀ u v, w.vestings u = some v → 0 < v.totalLocked

theorem RecordsBought.update {v : UserVesting} (h : RecordsBought w)
    (he : w'.vestings = Function.update w.vestings u (some v)) (hv : 0 < v.totalLocked) : RecordsBought w' := by
  intro x v' hx
  rw [he] at hx
  by_cases hxu : x = u
  · subst hxu
    rw [Function.update_self] at hx; cases hx
    exact hv
  · rw [Function.update_of_ne hxu] at hx
    exact h x v' hx

theorem RecordsBought.kept (h : RecordsBought w) (he : w'.vestings = w.vestings) : RecordsBought w' := by
  intro x v hx
  rw [he] at hx
  exact h x v hx

/-- A step leaves no record that has bought nothing. -/
theorem RecordsBought.step {A : Pubkey} {l : Label} (h : RecordsBought w) (hs : SaleStep A w l w') : RecordsBought w' := by
  cases hs with
  | launch _ hl => exact h.kept hl.vestings
  | buy _ hb => exact h.update hb.vestings (Nat.add_pos_right _ hb.tokens)
  | claim _ hc =>
    have hlocked := h _ _ hc.vesting
    exact h.update hc.vestings hlocked
  | refund _ hr =>
    have hlocked := h _ _ hr.vesting
    exact h.update hr.vestings hlocked
  | flags _ hf => exact h.kept hf.vestings
  | withdrawFunds _ hw => exact h.kept hw.vestings
  | withdrawUnsold _ hw => exact h.kept hw.vestings
  | quiet _ hq => exact h.kept hq.vestings

theorem SaleRun.recordsBought (h : SaleRun ctx args w₁ tr w) : RecordsBought w := by
  refine h.induct (P := fun _ => True) (J := fun _ w => RecordsBought w) (fun _ _ => trivial) ?_ ?_
  · obtain ⟨w₀, pre, wₗ, h0, hpre, honly, hstep⟩ := h.launch
    cases hstep with
    | ok _ hok =>
      have hl := initializePresale_ok hok
      intro u v hv
      rw [hl.vestings, no_vesting_before h0 hpre honly hl.fresh u] at hv
      cases hv
  · intro tr w st l w' _ _ hsale _ hJ
    exact hJ.step hsale

theorem SaleRun.clockFits (h : SaleRun ctx args w₁ tr w) : IsI64 w.clock := by
  obtain ⟨w₀, pre, wₗ, h0, hpre, -, hstep⟩ := h.launch
  have hlaunch := hstep.clockFits (hpre.clockFits h0.clockFits)
  exact h.run.clockFits hlaunch

/-- A record of the presale starts to vest at the end of the sale. -/
theorem Open.vestingStart {v : UserVesting} (ho : Open ctx args w st) (hv : w.vestings u = some v)
    (hlocked : 0 < v.totalLocked) : v.startTime + st.vestingCliff = args.endTime + args.vestingCliff := by
  have hstart := ho.books.vestsFromEnd u
  rw [vesting_of hv, ho.endTime] at hstart
  rw [hstart hlocked, ho.schedule.1]

/-- Where a record's tokens fit the schedule its claims stay in range whenever they are made, and only
there. -/
theorem claimInRange_iff {v : UserVesting} (hduration : 0 < args.vestingDuration)
    (hstart : v.startTime + st.vestingCliff = args.endTime + args.vestingCliff)
    (hlength : st.vestingDuration = args.vestingDuration) (hmin : -2 ^ 63 ≤ args.endTime + args.vestingCliff) :
    (∀ t, IsI64 t → ClaimInRange st v t) ↔ VestingFits args v.totalLocked := by
  have helapsed : ∀ t, v.elapsed st t = t - (args.endTime + args.vestingCliff) := by
    intro t
    unfold UserVesting.elapsed
    rw [hstart]
  constructor
  · intro h
    have hlast := h (2 ^ 63 - 1) (by decide)
    have hfits := hlast.start
    have hlong := hlast.elapsed
    rw [hstart] at hfits
    rw [helapsed] at hlong
    have hnonneg : 0 ≤ args.endTime + args.vestingCliff := by
      have := hlong (by omega)
      omega
    refine ⟨hnonneg, hfits.2, ?_⟩
    -- the latest time at which the schedule is still running
    generalize hm : min (args.vestingDuration - 1) (2 ^ 63 - 1 - (args.endTime + args.vestingCliff)) = m
    have hrun := (h (args.endTime + args.vestingCliff + m) ⟨by omega, by omega⟩).product
    rw [helapsed, hlength, add_sub_cancel_left] at hrun
    exact hrun (by omega) (by omega)
  · intro h t ht
    have hnonneg := h.nonneg
    refine ⟨?_, ?_, ?_⟩
    · rw [hstart]
      exact ⟨hmin, h.start⟩
    · intro _
      rw [helapsed] at *
      exact ⟨by omega, by omega⟩
    · rw [helapsed, hlength]
      intro hpos hlt
      refine (Nat.mul_le_mul_left _ (Int.toNat_le_toNat ?_)).trans_lt h.product
      exact le_min (by omega) (by omega)

/-- An admitted claim whose arithmetic leaves the range overflows. -/
theorem claimVested_overflow {c : ClaimVested} {v : UserVesting} {m : Mint} (hacc : c.tryAccounts w = .ok (st, v, m, w'))
    (hpaused : ¬ st.isPaused) (hsoft : st.softCapLamports ≤ st.totalRaisedLamports)
    (hout : ¬ ClaimInRange st v w.clock) : ∃ e, claimVested c w = .error e ∧ e.IsOverflow := by
  obtain ⟨-, -, -, hw'⟩ := ClaimVested.tryAccounts_ok hacc
  have hclock : w'.clock = w.clock := by rw [hw']
  unfold claimVested
  rw [bind_of_ok hacc]
  simp only [hclock]
  rw [bind_of_ok (require_ok hpaused), bind_of_ok (require_ok hsoft)]
  by_cases hstart : IsI64 (v.startTime + st.vestingCliff)
  swap
  · have hadd : addI64 v.startTime st.vestingCliff = .error .panic := okOr_eq_error.2 ⟨signed_eq_none.2 hstart, rfl⟩
    rw [hadd]
    exact ⟨_, rfl, .inl rfl⟩
  have hadd : addI64 v.startTime st.vestingCliff = .ok _ := okOr_eq_ok.2 (signed_eq_some.2 ⟨hstart, rfl⟩)
  rw [bind_of_ok hadd]
  by_cases hcliff : 0 ≤ v.elapsed st w.clock
  swap
  · exact absurd ⟨hstart, fun h => absurd h hcliff, fun h => absurd h hcliff⟩ hout
  rw [bind_of_ok (require_ok (sub_nonneg.1 hcliff))]
  by_cases helapsed : IsI64 (v.elapsed st w.clock)
  swap
  · have hsub : subI64 w.clock (v.startTime + st.vestingCliff) = .error .panic :=
      okOr_eq_error.2 ⟨signed_eq_none.2 helapsed, rfl⟩
    rw [hsub]
    exact ⟨_, rfl, .inl rfl⟩
  have hsub : subI64 w.clock (v.startTime + st.vestingCliff) = .ok (v.elapsed st w.clock) :=
    okOr_eq_ok.2 (signed_eq_some.2 ⟨helapsed, rfl⟩)
  rw [bind_of_ok hsub]
  -- what is left to go wrong is the product
  have hproduct : v.elapsed st w.clock < st.vestingDuration ∧ 2 ^ 64 ≤ v.totalLocked * (v.elapsed st w.clock).toNat := by
    by_contra hno
    refine hout ⟨hstart, fun _ => helapsed, fun _ hlt => ?_⟩
    by_contra hbig
    exact hno ⟨hlt, not_lt.1 hbig⟩
  have hvested : vestedTokens v.totalLocked (v.elapsed st w.clock).toNat st.vestingDuration.toNat =
      .error (.presale .mathOverflow) := vestedTokens_error_iff.2 ⟨rfl, by omega, hproduct.2⟩
  rw [hvested]
  exact ⟨_, rfl, .inr rfl⟩

/-- A claim of a record whose arithmetic stays in range does not overflow. -/
theorem SaleRun.claim_inRange {v : UserVesting} {c : ClaimVested} (h : SaleRun ctx args w₁ tr w) (ho : Open ctx args w st)
    (hv : w.vestings u = some v) (hA : c.state = ctx.admin) (hu : c.user = u) (hin : ClaimInRange st v w.clock) :
    InRange (claimVested c w) := by
  intro e he
  have hwithin := h.claimedWithin u
  rw [← ho.vestedAt, vesting_of hv] at hwithin
  -- all that was bought was for sale, and that fits
  have hfits : v.totalLocked < 2 ^ 64 := by
    have hle := Custody.le_sum (fun u => (w.vesting u).totalLocked) u
    have hsold := ho.books.sold
    have hsale := ho.books.sold_le h.accepted.supply
    have hforSale : st.tokensForSale = args.tokensForSale := ho.books.tokensForSale
    have := h.accepted.supplyFits
    simp only [vesting_of hv] at hle
    omega
  rcases claimVested_error he with ⟨r, rfl⟩ | ⟨st', v', hst, hv', hf⟩
  · exact not_isOverflow_runtime r
  rw [hA, ho.state] at hst; cases hst
  rw [hu, hv] at hv'; cases hv'
  cases hf with
  | start hout => exact absurd hin.start hout
  | elapsed hpos hout => exact absurd (hin.elapsed hpos).2 (not_lt.2 hout)
  | product hpos hlt hout => exact absurd (hin.product hpos (by omega)) (not_lt.2 hout)
  | covered hout => exact absurd hwithin (not_le.2 hout)
  | counted _ hout => exact absurd ((v.vestedAt_le st w.clock).trans_lt hfits) (not_lt.2 hout)
  | _ => simp [Error.IsOverflow]

/-- The claims of a record stay in range at every clock time, and none of them overflows, exactly where its
tokens fit the schedule of the presale; where they do not, an admitted claim overflows at each clock time its
arithmetic leaves the range. -/
theorem saleRun_claim_arithmetic {v : UserVesting} (h : SaleRun ctx args w₁ tr w) (hv : w.vestings u = some v) :
    ∃ st, w.states ctx.admin = some st ∧
      (((∀ t, IsI64 t → ClaimInRange st v t) ∧
        (¬ st.isPaused → st.softCapLamports ≤ st.totalRaisedLamports → ∀ c : ClaimVested, c.state = ctx.admin →
          c.user = u → ∀ e, claimVested c w = .error e → ¬ e.IsOverflow)) ↔ VestingFits args v.totalLocked) ∧
      (¬ st.isPaused → st.softCapLamports ≤ st.totalRaisedLamports → ∀ c m w', c.state = ctx.admin → c.user = u →
        c.tryAccounts w = .ok (st, v, m, w') →
        ((∃ e, claimVested c w = .error e ∧ e.IsOverflow) ↔ ¬ ClaimInRange st v w.clock)) := by
  have ha := h.accepted
  obtain ⟨st, ho⟩ := h.open
  have hstart := ho.vestingStart hv (h.recordsBought u v hv)
  have hmin : -2 ^ 63 ≤ args.endTime + args.vestingCliff := by
    obtain ⟨w₀, pre, wₗ, h0, hpre, -, hstep⟩ := h.launch
    have hclock := (hstep.clockFits (hpre.clockFits h0.clockFits)).1
    have hfirst := ha.start
    have hwindow := ha.window
    have hcliff := ha.cliff.1
    omega
  have hiff := claimInRange_iff ha.duration hstart ho.schedule.2 hmin
  refine ⟨st, ho.state, ⟨fun hall => hiff.1 hall.1, fun hfits => ⟨hiff.2 hfits, ?_⟩⟩, ?_⟩
  · intro _ _ c hA hu
    exact h.claim_inRange ho hv hA hu (hiff.2 hfits _ h.clockFits)
  · intro hpaused hsoft c m w' hA hu hacc
    constructor
    · rintro ⟨e, he, hover⟩ hin
      exact h.claim_inRange ho hv hA hu hin e he hover
    · exact claimVested_overflow hacc hpaused hsoft

end

/-- Nine decimals, and a billion tokens with wallet `1`. -/
def monthWorld : World :=
  blank (fun k => if k = 100 then some ⟨none, 9⟩ else none)
    (fun
      | .ata (.key k) m => if m = 100 ∧ k = 1 then some ⟨100, .key 1, 1000000000000000000⟩ else none
      | _ => none)
    (fun
      | .key k => if k ∈ ([1, 2, 3, 4, 5] : List Pubkey) then 1000000000000 else 0
      | _ => 0)

/-- A billion tokens, a thousand of them for a SOL, that vest over thirty days. -/
def monthArgs : InitializePresaleArgs := { nanoArgs with vestingDuration := 2592000 }

def monthLaunched : World := play monthWorld [.call (.initializePresale sampleCtx monthArgs)]

/-- A user buys ten thousand tokens and waits for twenty-three days and a little more after the end. -/
def sampleMonth : List Act :=
  [sampleFund 1000000000000000000, .wait 15, sampleBuy 2 10000000000 none, .wait 2000020]

/-- A record within the schedule. -/
theorem saleRun_claim_arithmetic_sample : ∃ st v,
    (play (sampleLaunched 10) (sampleVesting ++ [Act.call (.claimVested ⟨1, 2, 100⟩)])).states 1 = some st ∧
    (play (sampleLaunched 10) (sampleVesting ++ [Act.call (.claimVested ⟨1, 2, 100⟩)])).vestings 2 = some v ∧
    ∀ t, IsI64 t → ClaimInRange st v t := by
  have hv : (play (sampleLaunched 10) (sampleVesting ++ [Act.call (.claimVested ⟨1, 2, 100⟩)])).vestings 2 =
      some ⟨2, 300, 99, 300, 20⟩ := by decide +kernel
  obtain ⟨st, hst, hiff, -⟩ := saleRun_claim_arithmetic sampleVesting_run hv
  exact ⟨st, _, hst, hv, (hiff.2 ⟨by decide, by decide, by decide⟩).1⟩

/-- Ten thousand tokens are locked for thirty days, and twenty-three days after the end of the sale they
cannot be claimed. -/
theorem claimVested_locks_out :
    SaleRun sampleCtx monthArgs monthLaunched (steps monthLaunched sampleMonth) (play monthLaunched sampleMonth) ∧
    (∃ st v, (play monthLaunched sampleMonth).states 1 = some st ∧
      (play monthLaunched sampleMonth).vestings 2 = some v ∧ ¬ st.isPaused ∧ st.softCapLamports ≤ st.totalRaisedLamports ∧
      v.elapsed st (play monthLaunched sampleMonth).clock = 2000000 ∧ 2000000 < st.vestingDuration ∧
      2 ^ 64 ≤ v.totalLocked * 2000000 ∧ v.totalLocked ≤ (play monthLaunched sampleMonth).balance (.tokenVault 1)) ∧
    claimVested ⟨1, 2, 100⟩ (play monthLaunched sampleMonth) = .error (.presale .mathOverflow) := by
  have hgenesis : Genesis monthWorld := blank_genesis _ _ _
  have hv : (play monthLaunched sampleMonth).vestings 2 = some ⟨2, 10000000000000, 0, 10000000000, 20⟩ := by
    decide +kernel
  have hstate : ∃ st, (play monthLaunched sampleMonth).states 1 = some st ∧ ¬ st.isPaused ∧
      st.softCapLamports ≤ st.totalRaisedLamports ∧ st.vestingCliff = 0 ∧ st.vestingDuration = 2592000 := by
    refine ⟨_, rfl, ?_⟩
    decide +kernel
  obtain ⟨st, hst, hpaused, hsoft, hcliff, hduration⟩ := hstate
  have hclock : (play monthLaunched sampleMonth).clock = 2000020 := by decide +kernel
  have helapsed : UserVesting.elapsed ⟨2, 10000000000000, 0, 10000000000, 20⟩ st 2000020 = 2000000 := by
    unfold UserVesting.elapsed
    rw [hcliff]
    rfl
  refine ⟨saleRun_play hgenesis (by decide) (by decide +kernel) (by decide +kernel) (by decide +kernel), ?_,
    exec_of_failure (c := .claimVested ⟨1, 2, 100⟩) (by decide +kernel)⟩
  refine ⟨st, _, hst, hv, hpaused, hsoft, ?_, ?_, by decide, by decide +kernel⟩
  · rw [hclock]
    exact helapsed
  · rw [hduration]
    decide

end Presale

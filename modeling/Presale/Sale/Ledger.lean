/-
The ledger of a sale over whole runs: tokens sold against records, stages and caps, and lamports
raised against the sol vault, the buyers' contributions and their refunds.
-/
import Presale.Program.Script
import Presale.Sale.Books
import Presale.Sale.Flows

namespace Presale

open World Finset

/-! ## Tokens -/

section
variable {ctx : InitializePresale} {args : InitializePresaleArgs} {w₁ w : World} {tr : List Transition}

/-- The sale ledger: in every state of every run the tokens sold are the tokens locked for buyers
and the growth of the stage counters, and every cap holds. -/
theorem saleRun_ledger (h : SaleRun ctx args w₁ tr w) : ∃ st, w.states ctx.admin = some st ∧
    st.tokensSold = ∑ u, (w.vesting u).totalLocked ∧
    List.Forall₂ (fun s s' => s.tokensSoldInStage ≤ s'.tokensSoldInStage) args.stages st.stages ∧
    soldInStages st.stages = soldInStages args.stages + st.tokensSold ∧
    st.tokensSold ≤ st.tokensForSale ∧
    st.totalRaisedLamports ≤ st.hardCapLamports ∧
    (∀ u, (w.vesting u).contributedLamports ≤ st.maxContributionLamports) ∧
    10000 * st.totalReferralBonuses ≤ st.referralBonusBps * st.tokensSold := by
  obtain ⟨st, ho⟩ := h.open
  have hb := ho.books
  exact ⟨st, ho.state, hb.sold, hb.grown.imp fun _ _ hg => hg.sold, hb.stages, hb.sold_le h.accepted.supply, hb.hardCap,
    hb.walletCap, hb.bonuses⟩

end

/-- Two purchases, one with a referrer, and a claim. -/
def sampleSale : List Act :=
  [sampleFund 2000, .wait 15, sampleBuy 2 300 none, sampleBuy 3 901 (some (.key 5)), .wait 70,
    .call (.claimVested ⟨1, 2, 100⟩)]

theorem sampleSale_run : SaleRun sampleCtx (sampleArgs 10) (sampleLaunched 10)
    (steps (sampleLaunched 10) sampleSale) (play (sampleLaunched 10) sampleSale) :=
  saleRun_play sampleWorld_genesis (by decide) (by decide +kernel) (by decide +kernel) (by decide +kernel)

theorem saleRun_ledger_sample : (play (sampleLaunched 10) sampleSale).sold 1 = 800 ∧
    ∃ st, (play (sampleLaunched 10) sampleSale).states 1 = some st ∧
      st.tokensSold = ∑ u, ((play (sampleLaunched 10) sampleSale).vesting u).totalLocked ∧
      st.tokensSold ≤ st.tokensForSale := by
  refine ⟨by decide +kernel, ?_⟩
  obtain ⟨st, hst, hsold, -, -, hle, -⟩ := saleRun_ledger sampleSale_run
  exact ⟨st, hst, hsold, hle⟩

/-! ## Lamports -/

/-- The presale whose funds a step withdrew. -/
def Label.withdrawsFrom : Label → Option Pubkey
  | .ok (.withdrawFunds ctx) => some ctx.state
  | _ => none

/-- A successful refund of `u` by the presale of `A`. -/
def refundOf (A u : Pubkey) (x : Transition) : ℕ :=
  match x.label with
  | .ok (.claimRefund ctx) => if ctx.state = A ∧ ctx.user = u then 1 else 0
  | _ => 0

/-- The lamports of a presale over the steps `tr` of its run: each user's account, their sum, the
sol vault while nothing was withdrawn, and one refund for each user at most. -/
structure SolBooks (A : Pubkey) (deposit : ℕ) (tr : List Transition) (w : World) (st : PresaleState) : Prop where
  users : ∀ u, (w.vesting u).contributedLamports + Runs.total (refundedFrom A u) tr = Runs.total (paidInto A u) tr
  raised : st.totalRaisedLamports = ∑ u, Runs.total (paidInto A u) tr
  vault : (∀ x ∈ tr, x.label.withdrawsFrom ≠ some A) →
    deposit + ∑ u, (w.vesting u).contributedLamports ≤ w.lamports (.solVault A)
  withdrawn : (∃ x ∈ tr, x.label.withdrawsFrom = some A) → st.softCapLamports ≤ st.totalRaisedLamports
  once : ∀ u, Runs.total (refundOf A u) tr ≤ 1
  refunded : ∀ u, 0 < Runs.total (refundOf A u) tr → (w.vesting u).contributedLamports = 0 ∧ st.endTime < w.clock

section
variable {A : Pubkey} {deposit : ℕ} {tr : List Transition} {w w' : World} {l : Label} {st st' : PresaleState}

theorem withdrawsFrom_append {x : Transition} (h : ∀ y ∈ tr ++ [x], y.label.withdrawsFrom ≠ some A) :
    ∀ y ∈ tr, y.label.withdrawsFrom ≠ some A :=
  fun y hy => h y (List.mem_append_left _ hy)

/-- Funds are withdrawn only from a presale that met its soft cap. -/
theorem Step.withdraw_softCap (h : Step w l w') (hl : l.withdrawsFrom = some A) (hst : w.states A = some st) :
    st.softCapLamports ≤ st.totalRaisedLamports := by
  cases h with
  | failed => cases hl
  | outside => cases hl
  | @ok c _ _ _ h =>
    cases c with
    | withdrawFunds ctx =>
      obtain ⟨st', hw⟩ := withdrawFunds_ok h
      have hA : ctx.state = A := Option.some.inj hl
      rw [← hA, hw.state] at hst
      cases hst
      exact hw.softCap
    | _ => cases hl

/-- A step that touches no contribution and takes no lamports. -/
theorem SolBooks.keep (h : SolBooks A deposit tr w st) (hstep : Step w l w') (hst : w.states A = some st)
    (hclock : w.clock ≤ w'.clock) (hc : ∀ u, (w'.vesting u).contributedLamports = (w.vesting u).contributedLamports)
    (hr : st'.totalRaisedLamports = st.totalRaisedLamports) (hs : st'.softCapLamports = st.softCapLamports)
    (he : st'.endTime = st.endTime)
    (hv : l.withdrawsFrom ≠ some A → w.lamports (.solVault A) ≤ w'.lamports (.solVault A))
    (hflow : ∀ u, paidInto A u ⟨w, l, w'⟩ = 0 ∧ refundedFrom A u ⟨w, l, w'⟩ = 0 ∧ refundOf A u ⟨w, l, w'⟩ = 0) :
    SolBooks A deposit (tr ++ [⟨w, l, w'⟩]) w' st' where
  users u := by
    have := h.users u
    simp only [Runs.total_append, Runs.total_singleton, (hflow u).1, (hflow u).2.1, hc]
    omega
  raised := by simp only [Runs.total_append, Runs.total_singleton, (hflow _).1, Nat.add_zero, hr, h.raised]
  vault hno := by
    have := h.vault (withdrawsFrom_append hno)
    have := hv (hno _ (List.mem_append_right _ (List.mem_singleton_self _)))
    simp only [hc]
    omega
  withdrawn := by
    rintro ⟨x, hx, hxl⟩
    rw [hs, hr]
    rcases List.mem_append.1 hx with hx | hx
    · exact h.withdrawn ⟨x, hx, hxl⟩
    · obtain rfl := List.mem_singleton.1 hx
      exact hstep.withdraw_softCap hxl hst
  once u := by simpa [(hflow u).2.2] using h.once u
  refunded u hu := by
    simp only [Runs.total_append, Runs.total_singleton, (hflow u).2.2, Nat.add_zero] at hu
    obtain ⟨h0, hend⟩ := h.refunded u hu
    constructor
    · rw [hc, h0]
    · rw [he]; omega

theorem sum_flow (i : Pubkey) (n : ℕ) : ∑ u, (if i = u then n else 0) = n := by
  rw [Finset.sum_ite_eq]; simp

/-- A purchase adds the same lamports to the contribution, the total and the vault. -/
theorem SolBooks.buy {ctx : BuyTokens} {solAmount : ℕ} {referrer : Option Address} {m : Mint} {wk : Walk}
    {solUsed bonus : ℕ} (h : SolBooks ctx.state deposit tr w st)
    (hb : Bought ctx solAmount referrer w w' st m wk solUsed bonus) :
    SolBooks ctx.state deposit (tr ++ [⟨w, .ok (.buyTokens ctx solAmount referrer), w'⟩]) w'
      (st.bought wk solUsed bonus) := by
  have hpaid : ∀ u, paidInto ctx.state u ⟨w, .ok (.buyTokens ctx solAmount referrer), w'⟩ =
      if ctx.buyer = u then solUsed else 0 := by
    intro u; rw [hb.paidInto]; simp
  have hrec := vesting_update hb.vestings
  refine ⟨?_, ?_, ?_, ?_, ?_, ?_⟩
  · intro u
    have := h.users u
    simp only [Runs.total_append, Runs.total_singleton, hpaid]
    have h0 : refundedFrom ctx.state u ⟨w, .ok (.buyTokens ctx solAmount referrer), w'⟩ = 0 := rfl
    rw [hrec, h0]
    by_cases hu : ctx.buyer = u
    · subst hu
      simp only [Function.update_self, UserVesting.bought, if_true]
      omega
    · rw [Function.update_of_ne (Ne.symm hu), if_neg hu]
      omega
  · simp only [Runs.total_append, Runs.total_singleton, hpaid, Finset.sum_add_distrib, sum_flow, ← h.raised]
    rfl
  · intro hno
    have hsum := Custody.sum_field (·.contributedLamports) w.vesting ctx.buyer
      ((w.vesting ctx.buyer).bought ctx.buyer st.endTime wk.tokens solUsed)
    have := h.vault (withdrawsFrom_append hno)
    have := hb.sol
    rw [hrec]
    simp only [UserVesting.bought] at hsum ⊢
    omega
  · rintro ⟨x, hx, hxl⟩
    rcases List.mem_append.1 hx with hx | hx
    · exact (h.withdrawn ⟨x, hx, hxl⟩).trans (Nat.le_add_right _ _)
    · obtain rfl := List.mem_singleton.1 hx
      cases hxl
  · intro u
    simpa [refundOf] using h.once u
  · intro u hu
    -- a refund comes after the end, a purchase before it
    have := (h.refunded u (by simpa [refundOf] using hu)).2
    have := hb.window.2
    omega

/-- A refund clears a contribution and takes that much from the vault. -/
theorem SolBooks.refund {ctx : ClaimRefund} {v : UserVesting} (h : SolBooks ctx.state deposit tr w st)
    (hr : Refunded ctx w w' st v) :
    SolBooks ctx.state deposit (tr ++ [⟨w, .ok (.claimRefund ctx), w'⟩]) w' st := by
  have hv := vesting_of hr.vesting
  have hrec := vesting_update hr.vestings
  have hflow : ∀ u, refundedFrom ctx.state u ⟨w, .ok (.claimRefund ctx), w'⟩ =
      if ctx.user = u then v.contributedLamports else 0 := by
    intro u; rw [hr.refundedFrom]; simp
  have hcount : ∀ u, refundOf ctx.state u ⟨w, .ok (.claimRefund ctx), w'⟩ = if ctx.user = u then 1 else 0 := by
    intro u; simp [refundOf]
  refine ⟨?_, ?_, ?_, ?_, ?_, ?_⟩
  · intro u
    have := h.users u
    have h0 : paidInto ctx.state u ⟨w, .ok (.claimRefund ctx), w'⟩ = 0 := rfl
    simp only [Runs.total_append, Runs.total_singleton, hflow, h0]
    rw [hrec]
    by_cases hu : ctx.user = u
    · subst hu
      simp only [Function.update_self, if_true]
      rw [hv] at this
      omega
    · rw [Function.update_of_ne (Ne.symm hu), if_neg hu]
      omega
  · have h0 : ∀ u, paidInto ctx.state u ⟨w, .ok (.claimRefund ctx), w'⟩ = 0 := fun _ => rfl
    simp only [Runs.total_append, Runs.total_singleton, h0, Nat.add_zero, h.raised]
  · intro hno
    have hsum := Custody.sum_field (·.contributedLamports) w.vesting ctx.user { v with contributedLamports := 0 }
    have := h.vault (withdrawsFrom_append hno)
    have := hr.sol
    rw [hrec]
    simp only [hv] at hsum ⊢
    omega
  · rintro ⟨x, hx, hxl⟩
    rcases List.mem_append.1 hx with hx | hx
    · exact h.withdrawn ⟨x, hx, hxl⟩
    · obtain rfl := List.mem_singleton.1 hx
      cases hxl
  · intro u
    have := h.once u
    simp only [Runs.total_append, Runs.total_singleton, hcount]
    by_cases hu : ctx.user = u
    · subst hu
      -- an earlier refund would have left nothing to refund
      have hnot : ¬ 0 < Runs.total (refundOf ctx.state ctx.user) tr := by
        intro hpos
        have h0 := (h.refunded ctx.user hpos).1
        have := hr.pos
        rw [hv] at h0
        omega
      simp only [if_true]
      omega
    · rw [if_neg hu]
      omega
  · intro u hu
    constructor
    · simp only [Runs.total_append, Runs.total_singleton, hcount] at hu
      rw [hrec]
      by_cases hcu : ctx.user = u
      · subst hcu; simp
      · rw [if_neg hcu] at hu
        rw [Function.update_of_ne (Ne.symm hcu)]
        exact (h.refunded u (by omega)).1
    · rw [hr.clock]
      exact hr.ended

end

section
variable {ctx : InitializePresale} {args : InitializePresaleArgs} {w₁ w : World} {tr : List Transition}

/-- A step that writes no vesting record is no refund. -/
theorem refundOf_zero {A u : Pubkey} {x : Transition} (h : x.label.writesVesting = none) : refundOf A u x = 0 := by
  obtain ⟨w, l, w'⟩ := x
  cases l with
  | failed => rfl
  | outside => rfl
  | ok c =>
    cases c with
    | claimRefund => cases h
    | _ => rfl

/-- A step leaves the lamports of a presale in order. -/
theorem SolBooks.step {deposit : ℕ} {w' : World} {l : Label} {st st' : PresaleState}
    (h : SolBooks ctx.admin deposit tr w st) (ho : Open ctx args w st) (hstep : Step w l w')
    (hs : SaleStep ctx.admin w l w') (hst' : w'.states ctx.admin = some st') :
    SolBooks ctx.admin deposit (tr ++ [⟨w, l, w'⟩]) w' st' := by
  have hclock := (hstep.frame ho.owned).clock
  have hst := ho.state
  have hkept : w'.vestings = w.vestings → ∀ u, (w'.vesting u).contributedLamports = (w.vesting u).contributedLamports :=
    fun hv u => by rw [vesting_congr hv]
  cases hs with
  | launch hA hl => rw [← hA, hl.fresh] at hst; cases hst
  | buy hA hb =>
    rw [← hA] at hst hst' h ⊢
    rw [hb.state] at hst; cases hst
    rw [hb.states, Function.update_self] at hst'; cases hst'
    exact h.buy hb
  | @claim c _ _ v _ hA hc =>
    rw [hc.states, hst] at hst'; cases hst'
    refine h.keep hstep hst hclock ?_ rfl rfl rfl (fun _ => by rw [hc.lamports]) fun _ => ⟨rfl, rfl, rfl⟩
    intro u
    rw [vesting_update hc.vestings]
    by_cases hu : u = c.user
    · subst hu; simp [vesting_of hc.vesting]
    · rw [Function.update_of_ne hu]
  | refund hA hr =>
    rw [hr.states, hst] at hst'; cases hst'
    rw [← hA] at hst h ⊢
    rw [hr.state] at hst; cases hst
    exact h.refund hr
  | flags hl hf =>
    rw [hf.state] at hst; cases hst
    rw [hf.states, Function.update_self] at hst'; cases hst'
    exact h.keep hstep hf.state hclock (hkept hf.vestings) rfl rfl rfl (fun _ => by rw [hf.lamports]) fun u =>
      ⟨(no_flow hl).2.1, (no_flow hl).2.2.2, refundOf_zero hl⟩
  | withdrawFunds hA hw =>
    rw [hw.states, hst] at hst'; cases hst'
    exact h.keep hstep hst hclock (hkept hw.vestings) rfl rfl rfl (fun hno => absurd (congrArg some hA) hno) fun _ =>
      ⟨rfl, rfl, rfl⟩
  | withdrawUnsold hA hw =>
    rw [hw.states, hst] at hst'; cases hst'
    exact h.keep hstep hst hclock (hkept hw.vestings) rfl rfl rfl (fun _ => by rw [hw.lamports]) fun _ =>
      ⟨rfl, rfl, rfl⟩
  | quiet hl hq =>
    rw [hq.state, hst] at hst'; cases hst'
    exact h.keep hstep hst hclock (hkept hq.vestings) rfl rfl rfl (fun _ => hq.sol) fun u =>
      ⟨(no_flow hl).2.1, (no_flow hl).2.2.2, refundOf_zero hl⟩

/-- The lamports of a presale are in order after every run of it. -/
theorem SaleRun.solBooks (h : SaleRun ctx args w₁ tr w) : ∀ st, w.states ctx.admin = some st →
    SolBooks ctx.admin (w₁.lamports (.solVault ctx.admin)) tr w st := by
  refine h.induct (P := fun _ => True) (J := fun tr w => ∀ st, w.states ctx.admin = some st →
    SolBooks ctx.admin (w₁.lamports (.solVault ctx.admin)) tr w st) (fun _ _ => trivial) ?_ ?_
  · obtain ⟨⟨wₗ, hl⟩, ho, hzero⟩ := h.launched
    intro st hst
    rw [ho.state] at hst
    cases hst
    have h0 : ∀ u, (w₁.vesting u).contributedLamports = 0 := fun u => by rw [hzero u]
    refine ⟨?_, ?_, ?_, ?_, ?_, ?_⟩
    · intro u; simp [h0]
    · simp [InitializePresaleArgs.toState]
    · intro _; simp [h0]
    · rintro ⟨x, hx, -⟩; simp at hx
    · intro u; simp
    · intro u hu; simp at hu
  · intro tr w st l w' ho hstep hsale _ hJ st' hst'
    exact (hJ st ho.state).step ho hstep hsale hst'

/-- Below the soft cap nothing has been withdrawn, so the sol vault covers every contribution. -/
theorem SolBooks.covered {A : Pubkey} {deposit : ℕ} {st : PresaleState} (h : SolBooks A deposit tr w st)
    (hsoft : st.totalRaisedLamports < st.softCapLamports) :
    deposit + ∑ u, (w.vesting u).contributedLamports ≤ w.lamports (.solVault A) := by
  refine h.vault fun x hx hl => ?_
  have := h.withdrawn ⟨x, hx, hl⟩
  omega

/-- A user who was not refunded has had no lamports back. -/
theorem refundedFrom_zero {A u : Pubkey} (h : Runs.total (refundOf A u) tr = 0) :
    Runs.total (refundedFrom A u) tr = 0 := by
  refine Runs.total_zero fun x hx => ?_
  have hx0 := Runs.total_eq_zero h x hx
  obtain ⟨w, l, w'⟩ := x
  cases l with
  | failed => rfl
  | outside => rfl
  | ok c =>
    cases c with
    | claimRefund ctx =>
      simp only [refundOf, refundedFrom] at hx0 ⊢
      split at hx0
      · cases hx0
      · rename_i hne; rw [if_neg hne]
    | _ => rfl

/-- In a presale that ended below its soft cap every contributor can be refunded once, in full, and
in any order. -/
structure RefundsComplete (A : Pubkey) (tr : List Transition) (w : World) (st : PresaleState) : Prop where
  once : ∀ u, Runs.total (refundOf A u) tr ≤ 1
  inFull : ∀ u, Runs.total (refundOf A u) tr = 1 →
    Runs.total (refundedFrom A u) tr = Runs.total (paidInto A u) tr ∧ ∀ w', claimRefund ⟨A, u⟩ w ≠ .ok w'
  available : ∀ u, Runs.total (refundOf A u) tr = 0 → 0 < Runs.total (paidInto A u) tr →
    ∃ w', claimRefund ⟨A, u⟩ w = .ok w' ∧
      w'.lamports (.key u) = w.lamports (.key u) + Runs.total (paidInto A u) tr
  covered : ∀ ctx : ClaimRefund, ctx.state = A → claimRefund ctx w ≠ .error (.runtime .insufficientLamports)
  anyOrder : ∀ us : List Pubkey, us.Nodup →
    (∀ u ∈ us, Runs.total (refundOf A u) tr = 0 ∧ 0 < Runs.total (paidInto A u) tr) →
    ∃ tr' w', Run w tr' w' ∧ tr'.map (·.label) = us.map fun u => .ok (.claimRefund ⟨A, u⟩)
  total : (∀ u, 0 < Runs.total (paidInto A u) tr → Runs.total (refundOf A u) tr = 1) →
    ∑ u, Runs.total (refundedFrom A u) tr = st.totalRaisedLamports

/-- The refund of a contribution that is still there. -/
theorem SaleRun.refund_open (h : SaleRun ctx args w₁ tr w) {st : PresaleState} (hst : w.states ctx.admin = some st)
    (hended : st.endTime < w.clock) (hsoft : st.totalRaisedLamports < st.softCapLamports) {u : Pubkey}
    (hu : 0 < (w.vesting u).contributedLamports) :
    ∃ w', claimRefund ⟨ctx.admin, u⟩ w = .ok w' ∧ Refunded ⟨ctx.admin, u⟩ w w' st (w.vesting u) := by
  have hcov := (h.solBooks st hst).covered hsoft
  have hle := Custody.le_sum (fun u => (w.vesting u).contributedLamports) u
  cases hv : w.vestings u with
  | none => simp [vesting, hv] at hu
  | some v =>
    rw [vesting_of hv] at hu hle ⊢
    have hle' : v.contributedLamports ≤ w.lamports (.solVault ctx.admin) := by omega
    have hex : ∃ w', claimRefund ⟨ctx.admin, u⟩ w = .ok w' := claimRefund_succeeds hst hv hended hsoft hu hle'
    obtain ⟨w', hw'⟩ := hex
    obtain ⟨st', v', hr⟩ := claimRefund_ok hw'
    have hst' := hr.state
    have hv' := hr.vesting
    simp only at hst' hv'
    rw [hst] at hst'; cases hst'
    rw [hv] at hv'; cases hv'
    exact ⟨w', hw', hr⟩

/-- Contributions still there can be refunded one after the other in any order. -/
theorem SaleRun.refund_all (h : SaleRun ctx args w₁ tr w) {st : PresaleState} (hst : w.states ctx.admin = some st)
    (hended : st.endTime < w.clock) (hsoft : st.totalRaisedLamports < st.softCapLamports) :
    ∀ us : List Pubkey, us.Nodup → (∀ u ∈ us, 0 < (w.vesting u).contributedLamports) →
    ∃ tr' w', Run w tr' w' ∧ tr'.map (·.label) = us.map fun u => .ok (.claimRefund ⟨ctx.admin, u⟩) := by
  intro us
  induction us generalizing tr w with
  | nil => intro _ _; exact ⟨[], w, .nil, rfl⟩
  | cons u us ih =>
    intro hnodup hus
    obtain ⟨hnot, hnodup⟩ := List.nodup_cons.1 hnodup
    obtain ⟨w', hok, hr⟩ := h.refund_open hst hended hsoft (hus u (List.mem_cons_self ..))
    have hstep : Step w (.ok (.claimRefund ⟨ctx.admin, u⟩)) w' := .ok trivial hok
    have h' := h.append (.single hstep) (by
      intro x hx
      obtain rfl := List.mem_singleton.1 hx
      intro B hB
      exact (Option.some.inj hB).symm)
    have hst' : w'.states ctx.admin = some st := by rw [hr.states]; exact hst
    obtain ⟨tr', w'', hrun, hlabels⟩ := ih h' hst' (by rw [hr.clock]; exact hended) hnodup (by
      intro x hx
      have hne : x ≠ u := by rintro rfl; exact hnot hx
      have hx' := hus x (List.mem_cons_of_mem _ hx)
      rw [vesting_update hr.vestings]
      simpa [Function.update_of_ne hne] using hx')
    exact ⟨_, w'', (Runs.Run.single hstep).append hrun, by simp [hlabels]⟩

/-- The lamport ledger of a sale: until funds are withdrawn the sol vault holds its deposit and
every contribution, the lamports raised are the contributions and the refunds so far, and below the
soft cap the refunds are complete. -/
theorem saleRun_refunds (h : SaleRun ctx args w₁ tr w) : rentMinimum ≤ w₁.lamports (.solVault ctx.admin) ∧
    ∃ st, w.states ctx.admin = some st ∧
      ((∀ x ∈ tr, x.label.withdrawsFrom ≠ some ctx.admin) →
        w₁.lamports (.solVault ctx.admin) + ∑ u, (w.vesting u).contributedLamports ≤
          w.lamports (.solVault ctx.admin)) ∧
      st.totalRaisedLamports =
        ∑ u, (w.vesting u).contributedLamports + ∑ u, Runs.total (refundedFrom ctx.admin u) tr ∧
      (st.endTime < w.clock → st.totalRaisedLamports < st.softCapLamports → RefundsComplete ctx.admin tr w st) := by
  obtain ⟨st, ho⟩ := h.open
  have hb := h.solBooks st ho.state
  have hsum : st.totalRaisedLamports =
      ∑ u, (w.vesting u).contributedLamports + ∑ u, Runs.total (refundedFrom ctx.admin u) tr := by
    rw [hb.raised, ← Finset.sum_add_distrib]
    exact Finset.sum_congr rfl fun u _ => (hb.users u).symm
  obtain ⟨⟨wₗ, hl⟩, -⟩ := h.launched
  refine ⟨by rw [hl.lamports, Function.update_self]; exact le_max_right _ _, st, ho.state, hb.vault, hsum, ?_⟩
  intro hended hsoft
  -- a user without a refund still has everything paid in
  have hleft : ∀ u, Runs.total (refundOf ctx.admin u) tr = 0 →
      (w.vesting u).contributedLamports = Runs.total (paidInto ctx.admin u) tr := by
    intro u hu
    have := hb.users u
    rw [refundedFrom_zero hu] at this
    exact this
  refine ⟨hb.once, ?_, ?_, ?_, ?_, ?_⟩
  · intro u hu
    obtain ⟨h0, -⟩ := hb.refunded u (by omega)
    constructor
    · have := hb.users u
      omega
    · intro w' hok
      obtain ⟨_, v, hr⟩ := claimRefund_ok hok
      have hpos := hr.pos
      rw [← vesting_of hr.vesting, h0] at hpos
      exact absurd hpos (lt_irrefl 0)
  · intro u hu hpaid
    obtain ⟨w', hok, hr⟩ := h.refund_open ho.state hended hsoft (by rw [hleft u hu]; exact hpaid)
    exact ⟨w', hok, by rw [hr.lamports, movedLamports_target _ _ (by simp), hleft u hu]⟩
  · intro rctx hA herr
    obtain ⟨_, v, _, hv, _, _, hshort⟩ := claimRefund_short herr
    have hcov := hb.covered hsoft
    have hle := Custody.le_sum (fun u => (w.vesting u).contributedLamports) rctx.user
    rw [hA] at hshort
    simp only [vesting_of hv] at hle
    omega
  · intro us hnodup hus
    refine h.refund_all ho.state hended hsoft us hnodup fun u hu => ?_
    obtain ⟨h0, hpos⟩ := hus u hu
    rw [hleft u h0]
    exact hpos
  · intro hall
    have hzero : ∑ u, (w.vesting u).contributedLamports = 0 := by
      refine Finset.sum_eq_zero fun u _ => ?_
      rcases Nat.eq_zero_or_pos (Runs.total (paidInto ctx.admin u) tr) with hp | hp
      · have := hb.users u
        omega
      · exact (hb.refunded u (by rw [hall u hp]; exact Nat.one_pos)).1
    rw [hsum, hzero, Nat.zero_add]

end

/-- A sale that misses its soft cap: three purchases, and one of the two refunds. -/
def sampleRefunds : List Act :=
  [.wait 15, sampleBuy 2 300 none, sampleBuy 3 101 none, sampleBuy 2 50 none, .wait 21, .call (.claimRefund ⟨1, 2⟩)]

theorem sampleRefunds_run : SaleRun sampleCtx (sampleArgs 5000) (sampleLaunched 5000)
    (steps (sampleLaunched 5000) sampleRefunds) (play (sampleLaunched 5000) sampleRefunds) :=
  saleRun_play sampleWorld_genesis (by decide) (by decide +kernel) (by decide +kernel) (by decide +kernel)

theorem saleRun_refunds_sample : ∃ st, (play (sampleLaunched 5000) sampleRefunds).states 1 = some st ∧
    st.totalRaisedLamports = 450 ∧
    RefundsComplete 1 (steps (sampleLaunched 5000) sampleRefunds) (play (sampleLaunched 5000) sampleRefunds) st := by
  obtain ⟨-, st, hst, -, -, hcomplete⟩ := saleRun_refunds sampleRefunds_run
  have hall : ((play (sampleLaunched 5000) sampleRefunds).states 1).all (fun st => decide
      (st.totalRaisedLamports = 450 ∧ st.endTime < (play (sampleLaunched 5000) sampleRefunds).clock ∧
        st.totalRaisedLamports < st.softCapLamports)) = true := by decide +kernel
  have hst' : (play (sampleLaunched 5000) sampleRefunds).states 1 = some st := hst
  rw [hst'] at hall
  obtain ⟨hraised, hended, hsoft⟩ := of_decide_eq_true hall
  exact ⟨st, hst', hraised, hcomplete hended hsoft⟩

end Presale

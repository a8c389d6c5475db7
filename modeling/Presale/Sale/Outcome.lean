/-
The outcome of a sale: once it has ended, the lamports raised decide for good between paying out
and refunding, and whatever is settled is settled after the last purchase and the last funding.
-/
import Presale.Sale.Ledger

namespace Presale

open World

/-! ## The two groups -/

/-- The presale whose success a step acts on: a claim, a withdrawal of funds or a stake. -/
def Label.payout : Label → Option Pubkey
  | .ok (.claimVested ctx) => some ctx.state
  | .ok (.withdrawFunds ctx) => some ctx.state
  | .ok (.stake ctx _) => some ctx.state
  | _ => none

/-- The presale whose failure a step acts on: a refund. -/
def Label.refund : Label → Option Pubkey
  | .ok (.claimRefund ctx) => some ctx.state
  | _ => none

/-- The presale a step settles with a user, the treasury or the administrator. -/
def Label.settles : Label → Option Pubkey
  | .ok (.claimVested ctx) => some ctx.state
  | .ok (.claimRefund ctx) => some ctx.state
  | .ok (.withdrawFunds ctx) => some ctx.state
  | .ok (.withdrawUnsold ctx) => some ctx.state
  | _ => none

/-- The presale a step sells from or funds. -/
def Label.sells : Label → Option Pubkey
  | .ok (.buyTokens ctx _ _) => some ctx.state
  | .ok (.fundPresaleVault ctx _) => some ctx.state
  | _ => none

theorem Label.payout_of_withdraw {l : Label} {A : Pubkey} (h : l.withdrawsFrom = some A) : l.payout = some A := by
  cases l with
  | ok c =>
    cases c with
    | withdrawFunds => exact h
    | _ => cases h
  | _ => cases h

/-! ## What each group needs -/

section
variable {ctx : InitializePresale} {args : InitializePresaleArgs} {w₁ w w' : World} {st : PresaleState} {l : Label}
  {tr : List Transition} {now : ℤ}

theorem Open.softCap (h : Open ctx args w st) : st.softCapLamports = args.softCap := h.books.softCap

/-- A payout finds the sale ended and its soft cap met. -/
theorem Step.payout_met (h : Step w l w') (ho : Open ctx args w st) (ha : args.Accepted now)
    (hl : l.payout = some ctx.admin) : args.endTime < w.clock ∧ args.softCap ≤ st.totalRaisedLamports := by
  have hst := ho.state
  have hend := ho.endTime
  have hcap := ho.softCap
  cases h with
  | failed => cases hl
  | outside => cases hl
  | @ok c _ _ _ h =>
    cases c with
    | claimVested c =>
      obtain ⟨st', v, paid, hc⟩ := claimVested_ok h
      have hA : c.state = ctx.admin := Option.some.inj hl
      have hst' := hc.state
      rw [hA, hst] at hst'; cases hst'
      exact ⟨ho.claim_ended ha hc, hcap ▸ hc.softCap⟩
    | withdrawFunds c =>
      obtain ⟨st', hw⟩ := withdrawFunds_ok h
      have hA : c.state = ctx.admin := Option.some.inj hl
      have hst' := hw.state
      rw [hA, hst] at hst'; cases hst'
      exact ⟨hend ▸ hw.ended, hcap ▸ hw.softCap⟩
    | stake c amount =>
      obtain ⟨st', p, hs⟩ := stake_ok h
      have hA : c.state = ctx.admin := Option.some.inj hl
      have hst' := hs.state
      rw [hA, hst] at hst'; cases hst'
      exact ⟨hend ▸ hs.allowed.ended, hcap ▸ hs.allowed.softCap⟩
    | _ => cases hl

/-- A refund finds the sale ended and its soft cap missed. -/
theorem Step.refund_missed (h : Step w l w') (ho : Open ctx args w st) (hl : l.refund = some ctx.admin) :
    args.endTime < w.clock ∧ st.totalRaisedLamports < args.softCap := by
  have hst := ho.state
  have hend := ho.endTime
  have hcap := ho.softCap
  cases h with
  | failed => cases hl
  | outside => cases hl
  | @ok c _ _ _ h =>
    cases c with
    | claimRefund c =>
      obtain ⟨st', v, hr⟩ := claimRefund_ok h
      have hA : c.state = ctx.admin := Option.some.inj hl
      have hst' := hr.state
      rw [hA, hst] at hst'; cases hst'
      exact ⟨hend ▸ hr.ended, hcap ▸ hr.softCap⟩
    | _ => cases hl

/-- Nothing is settled before the sale has ended. -/
theorem Step.settles_ended (h : Step w l w') (ho : Open ctx args w st) (ha : args.Accepted now)
    (hl : l.settles = some ctx.admin) : args.endTime < w.clock := by
  have hst := ho.state
  have hend := ho.endTime
  cases h with
  | failed => cases hl
  | outside => cases hl
  | ok hin h =>
    rename_i c
    cases c with
    | claimVested c => exact ((Step.ok hin h).payout_met ho ha hl).1
    | claimRefund c => exact ((Step.ok hin h).refund_missed ho hl).1
    | withdrawFunds c => exact ((Step.ok hin h).payout_met ho ha hl).1
    | withdrawUnsold c =>
      obtain ⟨st', amount, hw⟩ := withdrawUnsold_ok h
      have hA : c.state = ctx.admin := Option.some.inj hl
      have hst' := hw.state
      rw [hA, hst] at hst'; cases hst'
      exact hend ▸ hw.ended
    | _ => cases hl

/-- Nothing is sold or funded once the sale has ended. -/
theorem Step.sells_open (h : Step w l w') (ho : Open ctx args w st) (ha : args.Accepted now)
    (hl : l.sells = some ctx.admin) : w.clock ≤ args.endTime := by
  have hst := ho.state
  have hend := ho.endTime
  cases h with
  | failed => cases hl
  | outside => cases hl
  | @ok c _ _ _ h =>
    cases c with
    | buyTokens c =>
      obtain ⟨st', _, _, _, _, hb⟩ := buyTokens_ok h
      have hA : c.state = ctx.admin := Option.some.inj hl
      have hst' := hb.state
      rw [hA, hst] at hst'; cases hst'
      exact hend ▸ hb.window.2
    | fundPresaleVault c =>
      obtain ⟨st', hf⟩ := fundPresaleVault_ok h
      have hA : c.state = ctx.admin := Option.some.inj hl
      have hst' := hf.state
      rw [hA, hst] at hst'; cases hst'
      have hstart := ho.startTime
      have := hf.early
      have := ha.window
      omega
    | _ => cases hl

/-- Once the sale has ended the lamports raised stay as they are. -/
theorem SaleStep.raised_kept {st' : PresaleState} (h : SaleStep ctx.admin w l w') (ho : Open ctx args w st)
    (ho' : Open ctx args w' st') (hended : args.endTime < w.clock) :
    st'.totalRaisedLamports = st.totalRaisedLamports := by
  have hst := ho.state
  have hst' := ho'.state
  have hend := ho.endTime
  cases h with
  | launch hA hl => rw [← hA, hl.fresh] at hst; cases hst
  | buy hA hb =>
    rw [← hA, hb.state] at hst; cases hst
    have := hb.window.2
    omega
  | claim _ hc => rw [hc.states, hst] at hst'; cases hst'; rfl
  | refund _ hr => rw [hr.states, hst] at hst'; cases hst'; rfl
  | flags _ hf =>
    rw [hf.state] at hst; cases hst
    rw [hf.states, Function.update_self] at hst'; cases hst'; rfl
  | withdrawFunds _ hw => rw [hw.states, hst] at hst'; cases hst'; rfl
  | withdrawUnsold _ hw => rw [hw.states, hst] at hst'; cases hst'; rfl
  | quiet _ hq => rw [hq.state, hst] at hst'; cases hst'; rfl

/-! ## The decision -/

/-- What the steps `tr` of a presale say about its state: whatever was settled, the sale has ended;
a payout means the soft cap was met and a refund that it was missed. -/
structure Decided (A : Pubkey) (args : InitializePresaleArgs) (tr : List Transition) (w : World) : Prop where
  settled : (∃ x ∈ tr, x.label.settles = some A) → args.endTime < w.clock
  payout : (∃ x ∈ tr, x.label.payout = some A) →
    args.endTime < w.clock ∧ ∀ st ∈ w.states A, args.softCap ≤ st.totalRaisedLamports
  refund : (∃ x ∈ tr, x.label.refund = some A) →
    args.endTime < w.clock ∧ ∀ st ∈ w.states A, st.totalRaisedLamports < args.softCap

theorem SaleRun.decided (h : SaleRun ctx args w₁ tr w) : Decided ctx.admin args tr w := by
  have ha := h.accepted
  refine h.induct (P := fun _ => True) (J := Decided ctx.admin args) (fun _ _ => trivial) ?_ ?_
  · refine ⟨?_, ?_, ?_⟩ <;> rintro ⟨x, hx, -⟩ <;> simp at hx
  · intro tr w st l w' ho hstep hsale _ hJ
    obtain ⟨st', ho'⟩ := ho.step (hstep.frame ho.owned) hsale
    have hclock := (hstep.frame ho.owned).clock
    -- an outcome reached before or by the step is still the outcome after it
    have hkeep : args.endTime < w.clock →
        args.endTime < w'.clock ∧ ∀ t ∈ w'.states ctx.admin, t.totalRaisedLamports = st.totalRaisedLamports := by
      intro hended
      refine ⟨lt_of_lt_of_le hended hclock, ?_⟩
      intro t ht
      rw [ho'.state] at ht; cases ht
      exact hsale.raised_kept ho ho' hended
    refine ⟨?_, ?_, ?_⟩
    · rintro ⟨x, hx, hxl⟩
      rcases List.mem_append.1 hx with hx | hx
      · exact (hkeep (hJ.settled ⟨x, hx, hxl⟩)).1
      · obtain rfl := List.mem_singleton.1 hx
        exact (hkeep (hstep.settles_ended ho ha hxl)).1
    · rintro ⟨x, hx, hxl⟩
      have hmet : args.endTime < w.clock ∧ args.softCap ≤ st.totalRaisedLamports := by
        rcases List.mem_append.1 hx with hx | hx
        · obtain ⟨hended, hcap⟩ := hJ.payout ⟨x, hx, hxl⟩
          exact ⟨hended, hcap st ho.state⟩
        · obtain rfl := List.mem_singleton.1 hx
          exact hstep.payout_met ho ha hxl
      obtain ⟨hended, hraised⟩ := hkeep hmet.1
      exact ⟨hended, fun t ht => by rw [hraised t ht]; exact hmet.2⟩
    · rintro ⟨x, hx, hxl⟩
      have hmissed : args.endTime < w.clock ∧ st.totalRaisedLamports < args.softCap := by
        rcases List.mem_append.1 hx with hx | hx
        · obtain ⟨hended, hcap⟩ := hJ.refund ⟨x, hx, hxl⟩
          exact ⟨hended, hcap st ho.state⟩
        · obtain rfl := List.mem_singleton.1 hx
          exact hstep.refund_missed ho hxl
      obtain ⟨hended, hraised⟩ := hkeep hmissed.1
      exact ⟨hended, fun t ht => by rw [hraised t ht]; exact hmissed.2⟩

/-- A run of the presale up to one of its steps. -/
theorem SaleRun.before {x : Transition} {tr' : List Transition} (h : SaleRun ctx args w₁ (tr ++ x :: tr') w) :
    SaleRun ctx args w₁ tr x.before ∧ Step x.before x.label x.after := by
  obtain ⟨hrun, hstep, -⟩ := h.run.split
  exact ⟨⟨h.launch, hrun, fun y hy => h.only y (List.mem_append_left _ hy)⟩, hstep⟩

/-- The two groups exclude each other. -/
theorem SaleRun.one_outcome (h : SaleRun ctx args w₁ tr w) :
    ¬ ((∃ x ∈ tr, x.label.payout = some ctx.admin) ∧ ∃ x ∈ tr, x.label.refund = some ctx.admin) := by
  rintro ⟨hp, hr⟩
  obtain ⟨st, ho⟩ := h.open
  have hmet := (h.decided.payout hp).2 st ho.state
  have hmissed := (h.decided.refund hr).2 st ho.state
  omega

theorem claimedFrom_zero {A u : Pubkey} {x : Transition} (h : x.label.payout ≠ some A) : claimedFrom A u x = 0 := by
  obtain ⟨w, l, w'⟩ := x
  cases l with
  | ok c =>
    cases c with
    | claimVested c =>
      simp only [claimedFrom]
      rw [if_neg]
      rintro ⟨hA, -⟩
      exact h (congrArg some hA)
    | _ => rfl
  | _ => rfl

theorem refundedFrom_zero_step {A u : Pubkey} {x : Transition} (h : x.label.refund ≠ some A) :
    refundedFrom A u x = 0 := by
  obtain ⟨w, l, w'⟩ := x
  cases l with
  | ok c =>
    cases c with
    | claimRefund c =>
      simp only [refundedFrom]
      rw [if_neg]
      rintro ⟨hA, -⟩
      exact h (congrArg some hA)
    | _ => rfl
  | _ => rfl

/-- A step that could refund now would be a refund of the run. -/
theorem SaleRun.no_refund (h : SaleRun ctx args w₁ tr w) (hp : ∀ st ∈ w.states ctx.admin, args.softCap ≤ st.totalRaisedLamports)
    {c : ClaimRefund} (hc : c.state = ctx.admin) (w' : World) : claimRefund c w ≠ .ok w' := by
  intro hok
  obtain ⟨st, ho⟩ := h.open
  have hmet := hp st ho.state
  have hmissed := (Step.refund_missed (l := .ok (.claimRefund c)) (.ok trivial hok) ho (congrArg some hc)).2
  omega

/-- The outcome of a sale is decided once: it pays out or it refunds, never both; nothing is sold or
funded after anything was settled; no buyer gets tokens and lamports; and funds are withdrawn only
when no refund is or will be possible. -/
theorem saleRun_outcome (h : SaleRun ctx args w₁ tr w) :
    ¬ ((∃ x ∈ tr, x.label.payout = some ctx.admin) ∧ ∃ x ∈ tr, x.label.refund = some ctx.admin) ∧
    (∀ pre x mid y post, tr = pre ++ x :: mid ++ y :: post → x.label.settles = some ctx.admin →
      y.label.sells ≠ some ctx.admin) ∧
    (∀ u, Runs.total (claimedFrom ctx.admin u) tr = 0 ∨ Runs.total (refundedFrom ctx.admin u) tr = 0) ∧
    ∀ x ∈ tr, x.label.withdrawsFrom = some ctx.admin → ∀ c : ClaimRefund, c.state = ctx.admin →
      (∀ w', claimRefund c x.before ≠ .ok w') ∧ ∀ w', claimRefund c w ≠ .ok w' := by
  have ha := h.accepted
  refine ⟨h.one_outcome, ?_, ?_, ?_⟩
  · rintro pre x mid y post rfl hx hy
    obtain ⟨hpre, hstep⟩ := h.before
    obtain ⟨st, ho⟩ := hpre.open
    have hended := hpre.decided.settled ⟨x, by simp, hx⟩
    have hopen := hstep.sells_open ho ha hy
    omega
  · intro u
    by_cases hp : ∃ x ∈ tr, x.label.payout = some ctx.admin
    · right
      refine Runs.total_zero fun x hx => refundedFrom_zero_step fun hr => ?_
      exact h.one_outcome ⟨hp, x, hx, hr⟩
    · left
      refine Runs.total_zero fun x hx => claimedFrom_zero fun hx' => ?_
      exact hp ⟨x, hx, hx'⟩
  · intro x hx hw c hc
    have hp := Label.payout_of_withdraw hw
    refine ⟨?_, h.no_refund (h.decided.payout ⟨x, hx, hp⟩).2 hc⟩
    obtain ⟨pre, post, rfl⟩ := List.append_of_mem hx
    obtain ⟨hpre, hstep⟩ := h.before
    refine hpre.no_refund ?_ hc
    obtain ⟨st, ho⟩ := hpre.open
    intro t ht
    rw [ho.state] at ht; cases ht
    exact (hstep.payout_met ho ha hp).2

end

theorem saleRun_outcome_sample :
    (∃ x ∈ steps (sampleLaunched 10) sampleSale, x.label.payout = some sampleCtx.admin) ∧
    ¬ ((∃ x ∈ steps (sampleLaunched 10) sampleSale, x.label.payout = some sampleCtx.admin) ∧
      ∃ x ∈ steps (sampleLaunched 10) sampleSale, x.label.refund = some sampleCtx.admin) :=
  ⟨by decide +kernel, (saleRun_outcome sampleSale_run).1⟩

end Presale

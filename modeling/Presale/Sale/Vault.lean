/-
The token vault against what it owes: every buyer is owed the tokens locked and not yet claimed.
After the sale has ended no call of the program lets the vault fall below that; before, only a
referral bonus the vault was not funded for does.
-/
import Presale.Sale.Ledger

namespace Presale

open World Finset Custody

/-! ## What is owed -/

/-- The tokens a record still has to come. -/
def UserVesting.owed (v : UserVesting) : ℕ := v.totalLocked - v.alreadyClaimed

/-- The token vault of `A` covers what is owed to all users. -/
def VaultCovers (A : Pubkey) (w : World) : Prop := Backed (fun u => (w.vesting u).owed) (w.balance (.tokenVault A))

section
variable {A : Pubkey} {w w' : World}

/-- Nothing is owed more and the vault holds no less. -/
theorem VaultCovers.mono (h : VaultCovers A w) (hv : w'.vestings = w.vestings)
    (hb : w.balance (.tokenVault A) ≤ w'.balance (.tokenVault A)) : VaultCovers A w' := by
  refine Backed.mono h (fun u => ?_) hb
  rw [vesting_congr hv]

theorem owed_update {u : Pubkey} {v : UserVesting} (h : w'.vestings = Function.update w.vestings u (some v)) :
    (fun x => (w'.vesting x).owed) = Function.update (fun x => (w.vesting x).owed) u v.owed := by
  rw [vesting_update h]
  funext x
  exact field_update UserVesting.owed w.vesting u v x

/-- A claim takes from the vault what it takes off the record. -/
theorem VaultCovers.claim {ctx : ClaimVested} {st : PresaleState} {v : UserVesting} {paid : ℕ}
    (h : VaultCovers ctx.state w) (hc : Claimed ctx w w' st v paid) : VaultCovers ctx.state w' := by
  unfold VaultCovers
  rw [owed_update hc.vestings]
  refine h.update ctx.user ?_
  have hv := vesting_of hc.vesting
  have := hc.vault
  have := hc.claimed
  have := hc.paidEq
  have := v.vestedAt_le st w.clock
  simp only [UserVesting.owed, hv]
  omega

theorem VaultCovers.refund {ctx : ClaimRefund} {st : PresaleState} {v : UserVesting} (h : VaultCovers ctx.state w)
    (hr : Refunded ctx w w' st v) : VaultCovers ctx.state w' := by
  unfold VaultCovers
  rw [owed_update hr.vestings]
  refine h.update ctx.user ?_
  rw [balance_eq, balance_eq, hr.tokenAccounts, vesting_of hr.vesting]
  exact le_rfl

/-- No claim fails for lack of tokens in a vault that covers what is owed. -/
theorem VaultCovers.claim_covered (h : VaultCovers A w) {ctx : ClaimVested} (hA : ctx.state = A) :
    claimVested ctx w ≠ .error (.runtime .insufficientFunds) := by
  intro herr
  obtain ⟨st, v, _, hv, hshort⟩ := claimVested_short herr
  have howed := h.holder ctx.user
  have := v.vestedAt_le st w.clock
  rw [hA] at hshort
  simp only [UserVesting.owed, vesting_of hv] at howed
  omega

end

/-! ## After the sale -/

section
variable {ctx : InitializePresale} {args : InitializePresaleArgs} {w₁ w w' : World} {st : PresaleState} {l : Label}
  {tr tr' : List Transition}

/-- What is owed is within what was sold. -/
theorem Open.owed_le_sold (h : Open ctx args w st) : ∑ u, (w.vesting u).owed ≤ st.tokensSold := by
  rw [h.books.sold]
  exact Finset.sum_le_sum fun u _ => Nat.sub_le _ _

/-- The vault after a withdrawal of what was not sold. -/
theorem UnsoldWithdrawn.vault {c : AdminWithdraw} {amount : ℕ} (h : UnsoldWithdrawn c w w' st amount) :
    w'.balance (.tokenVault c.state) = st.tokensSold + st.totalReferralBonuses := by
  obtain ⟨f, hready, hmove⟩ := h.tokenAccounts
  have hpos := h.pos
  have hamount := h.amountEq
  rw [balance_eq] at hamount
  rw [balance_eq, hmove.source (by simp), hready.balance]
  omega

/-- After the end of the sale every step keeps the vault covering what is owed. -/
theorem VaultCovers.step (h : VaultCovers ctx.admin w) (ho : Open ctx args w st) (hended : args.endTime < w.clock)
    (hs : SaleStep ctx.admin w l w') : VaultCovers ctx.admin w' := by
  have hst := ho.state
  cases hs with
  | launch hA hl => rw [← hA, hl.fresh] at hst; cases hst
  | buy hA hb =>
    rw [← hA, hb.state] at hst; cases hst
    have := hb.window.2
    have := ho.endTime
    omega
  | claim hA hc => exact hA ▸ VaultCovers.claim (hA ▸ h) hc
  | refund hA hr => exact hA ▸ VaultCovers.refund (hA ▸ h) hr
  | flags _ hf => exact h.mono hf.vestings (by rw [balance_eq, balance_eq, hf.tokenAccounts])
  | withdrawFunds hA hw => exact h.mono hw.vestings (by rw [balance_eq, balance_eq, hw.tokenAccounts])
  | withdrawUnsold hA hw =>
    rw [← hA, hw.state] at hst; cases hst
    have hvault := hw.vault
    rw [hA] at hvault
    unfold VaultCovers Backed vesting
    rw [hw.vestings]
    exact ho.owed_le_sold.trans (by omega)
  | quiet _ hq => exact h.mono hq.vestings hq.vault

/-- After the end of the sale nothing eats into what buyers are owed: a vault that covers it goes on
covering it, and every claim that passes its checks, whatever is called in whatever order. -/
theorem saleRun_owed_covered (h : SaleRun ctx args w₁ tr w) (hended : args.endTime < w.clock)
    (hcovers : ∑ u, ((w.vesting u).totalLocked - (w.vesting u).alreadyClaimed) ≤ w.balance (.tokenVault ctx.admin))
    (h' : Run w tr' w') (honly : ∀ x ∈ tr', x.label.OnlySale ctx.admin) :
    ∑ u, ((w'.vesting u).totalLocked - (w'.vesting u).alreadyClaimed) ≤ w'.balance (.tokenVault ctx.admin) ∧
      ∀ c : ClaimVested, c.state = ctx.admin → claimVested c w' ≠ .error (.runtime .insufficientFunds) := by
  obtain ⟨st, ho⟩ := h.open
  have hkept : VaultCovers ctx.admin w' := by
    refine ho.after_end (P := fun _ => True) h' honly (fun _ _ => trivial) hended hcovers ?_
    intro s st l t ho hend _ hsale _ hcov
    exact hcov.step ho hend hsale
  exact ⟨hkept, fun c hc => hkept.claim_covered hc⟩

end

/-- A fully subscribed, overfunded sale to two buyers that has ended, with one claim made. -/
def sampleEnded : List Act :=
  [sampleFund 2000, .wait 15, sampleBuy 2 400 (some (.key 5)), sampleBuy 3 1200 none, .wait 70,
    .call (.claimVested ⟨1, 2, 100⟩)]

/-- A withdrawal of what was not sold and a further claim of each buyer. -/
def sampleAfter : List Act :=
  [.call (.withdrawUnsold ⟨1, 1, 100⟩), .wait 95, .call (.claimVested ⟨1, 2, 100⟩), .call (.claimVested ⟨1, 3, 100⟩)]

theorem sampleEnded_run : SaleRun sampleCtx (sampleArgs 10) (sampleLaunched 10)
    (steps (sampleLaunched 10) sampleEnded) (play (sampleLaunched 10) sampleEnded) :=
  saleRun_play sampleWorld_genesis (by decide) (by decide +kernel) (by decide +kernel) (by decide +kernel)

theorem saleRun_owed_covered_sample :
    ∑ u, (((play (play (sampleLaunched 10) sampleEnded) sampleAfter).vesting u).totalLocked -
        ((play (play (sampleLaunched 10) sampleEnded) sampleAfter).vesting u).alreadyClaimed) ≤
      (play (play (sampleLaunched 10) sampleEnded) sampleAfter).balance (.tokenVault sampleCtx.admin) ∧
    ∀ c : ClaimVested, c.state = sampleCtx.admin →
      claimVested c (play (play (sampleLaunched 10) sampleEnded) sampleAfter) ≠
        .error (.runtime .insufficientFunds) := by
  refine saleRun_owed_covered sampleEnded_run (by decide +kernel) ?_ (play_run (by decide +kernel))
    (by decide +kernel)
  obtain ⟨st, ho⟩ := sampleEnded_run.open
  have hsold : (play (sampleLaunched 10) sampleEnded).sold sampleCtx.admin = 1000 := by decide +kernel
  have hvault : (play (sampleLaunched 10) sampleEnded).balance (.tokenVault sampleCtx.admin) = 1780 := by decide +kernel
  rw [World.sold, ho.state] at hsold
  have hle := ho.owed_le_sold
  calc _ ≤ st.tokensSold := hle
    _ = 1000 := hsold
    _ ≤ 1780 := by decide
    _ = _ := hvault.symm

/-! ## During the sale -/

/-- The tokens a step funded the token vault of `A` with. -/
def fundedInto (A : Pubkey) (x : Transition) : ℕ :=
  match x.label with
  | .ok (.fundPresaleVault ctx _) =>
    if ctx.state = A then x.after.balance (.tokenVault A) - x.before.balance (.tokenVault A) else 0
  | _ => 0

theorem fundedInto_le (A : Pubkey) (x : Transition) :
    fundedInto A x ≤ x.after.balance (.tokenVault A) - x.before.balance (.tokenVault A) := by
  unfold fundedInto
  split
  · split
    · exact le_rfl
    · exact Nat.zero_le _
  · exact Nat.zero_le _

/-- The presale of a purchase with a referrer. -/
def Label.referredBuy : Label → Option Pubkey
  | .ok (.buyTokens ctx _ (some _)) => some ctx.state
  | _ => none

/-- A purchase with a referrer finds the vault funded for the tokens for sale and for the bonuses on
those not sold yet. -/
def BonusFunded (A : Pubkey) (x : Transition) : Prop :=
  x.label.referredBuy = some A → ∀ st ∈ x.before.states A, st.referralBonusBps = 0 ∨
    st.tokensForSale + st.referralBonusBps * (st.tokensForSale - st.tokensSold) / 10000 ≤
      x.before.balance (.tokenVault A)

instance (A : Pubkey) (x : Transition) : Decidable (BonusFunded A x) := inferInstanceAs (Decidable (_ → _))

section
variable {ctx : InitializePresale} {args : InitializePresaleArgs} {w₁ w w' : World} {st : PresaleState} {l : Label}
  {tr : List Transition}

/-- Funding ends before the sale starts. -/
theorem Step.funded_early (h : Step w l w') (hst : w.states ctx.admin = some st)
    (hf : fundedInto ctx.admin ⟨w, l, w'⟩ ≠ 0) : w.clock < st.startTime := by
  cases h with
  | failed => exact absurd rfl hf
  | outside => exact absurd rfl hf
  | @ok c _ _ _ h =>
    cases c with
    | fundPresaleVault c amount =>
      obtain ⟨st', hfund⟩ := fundPresaleVault_ok h
      simp only [fundedInto] at hf
      split at hf
      · rename_i hA
        have hst' := hfund.state
        rw [hA, hst] at hst'
        cases hst'
        exact hfund.early
      · exact absurd rfl hf
    | _ => exact absurd rfl hf

/-- A purchase the vault is funded for leaves it with the tokens for sale. -/
theorem Bought.keeps_sale {c : BuyTokens} {solAmount : ℕ} {referrer : Option Address} {m : Mint} {wk : Walk}
    {solUsed bonus : ℕ} (h : Bought c solAmount referrer w w' st m wk solUsed bonus)
    (hleft : st.tokensSold + wk.tokens ≤ st.tokensForSale)
    (hf : BonusFunded c.state ⟨w, .ok (.buyTokens c solAmount referrer), w'⟩) (hpos : bonus ≠ 0) :
    st.tokensForSale ≤ w'.balance (.tokenVault c.state) := by
  have hvault := h.vault
  have heq := h.bonusEq
  cases referrer with
  | none => exact absurd (by simp [heq, PresaleState.bonus]) hpos
  | some r =>
    have hb : bonus = wk.tokens * st.referralBonusBps / 10000 := by simp [heq, PresaleState.bonus]
    rcases hf rfl st h.state with h0 | hcov
    · exact absurd (by simp [hb, h0]) hpos
    · have hle : bonus ≤ st.referralBonusBps * (st.tokensForSale - st.tokensSold) / 10000 := by
        rw [hb, Nat.mul_comm]
        exact Nat.div_le_div_right (Nat.mul_le_mul_left _ (by omega))
      simp only at hcov
      omega

/-- The vault of a presale over the steps `tr`: while the sale runs it holds what it was funded with
or the tokens for sale, and once fully funded and ended it covers what is owed. -/
structure FundedVault (A : Pubkey) (args : InitializePresaleArgs) (tr : List Transition) (w : World) : Prop where
  during : w.clock ≤ args.endTime →
    Runs.total (fundedInto A) tr ≤ w.balance (.tokenVault A) ∨ args.tokensForSale ≤ w.balance (.tokenVault A)
  after : args.endTime < w.clock → args.tokensForSale ≤ Runs.total (fundedInto A) tr → VaultCovers A w

/-- While the sale runs a step keeps the vault at what it was funded with or at the tokens for sale. -/
theorem FundedVault.step_during {now : ℤ} (h : FundedVault ctx.admin args tr w) (ho : Open ctx args w st)
    (ha : args.Accepted now) {st' : PresaleState} (ho' : Open ctx args w' st') (hclock : w.clock ≤ args.endTime)
    (hs : SaleStep ctx.admin w l w') (hf : BonusFunded ctx.admin ⟨w, l, w'⟩) :
    Runs.total (fundedInto ctx.admin) (tr ++ [⟨w, l, w'⟩]) ≤ w'.balance (.tokenVault ctx.admin) ∨
      args.tokensForSale ≤ w'.balance (.tokenVault ctx.admin) := by
  have hd := h.during hclock
  have hle := fundedInto_le ctx.admin ⟨w, l, w'⟩
  have hst := ho.state
  have hend := ho.endTime
  -- it is enough that the vault does not lose tokens
  have hkeep : w.balance (.tokenVault ctx.admin) ≤ w'.balance (.tokenVault ctx.admin) →
      Runs.total (fundedInto ctx.admin) (tr ++ [⟨w, l, w'⟩]) ≤ w'.balance (.tokenVault ctx.admin) ∨
        args.tokensForSale ≤ w'.balance (.tokenVault ctx.admin) := by
    intro hb
    rw [Runs.total_append, Runs.total_singleton]
    simp only at hle
    omega
  cases hs with
  | launch hA hl => rw [← hA, hl.fresh] at hst; cases hst
  | @buy c solAmount referrer _ st _ wk solUsed bonus hA hb =>
    rw [← hA, hb.state] at hst; cases hst
    by_cases h0 : bonus = 0
    · apply hkeep
      have := hb.vault
      rw [hA] at this
      omega
    · right
      have hst' := ho'.state
      rw [hb.states, hA, Function.update_self] at hst'
      cases hst'
      have hleft := ho'.books.sold_le ha.supply
      have hsale := ho.books.tokensForSale
      have hkept := hb.keeps_sale hleft (hA ▸ hf) h0
      rw [hA, hsale] at hkept
      exact hkept
  | claim hA hc =>
    rw [← hA, hc.state] at hst; cases hst
    have := ho.claim_ended ha hc
    omega
  | refund hA hr => exact hkeep (by rw [balance_eq, balance_eq, hr.tokenAccounts])
  | flags _ hfl => exact hkeep (by rw [balance_eq, balance_eq, hfl.tokenAccounts])
  | withdrawFunds hA hw => exact hkeep (by rw [balance_eq, balance_eq, hw.tokenAccounts])
  | withdrawUnsold hA hw =>
    rw [← hA, hw.state] at hst; cases hst
    have := hw.ended
    omega
  | quiet _ hq => exact hkeep hq.vault

theorem SaleRun.fundedVault (h : SaleRun ctx args w₁ tr w) (hbonus : ∀ x ∈ tr, BonusFunded ctx.admin x) :
    FundedVault ctx.admin args tr w := by
  have ha := h.accepted
  refine h.induct (P := BonusFunded ctx.admin) (J := FundedVault ctx.admin args) hbonus ?_ ?_
  · constructor
    · intro _
      exact .inl (Nat.zero_le _)
    · intro hend _
      have := ha.start
      have := ha.window
      omega
  · intro tr w st l w' ho hstep hsale hf hJ
    obtain ⟨st', ho'⟩ := ho.step (hstep.frame ho.owned) hsale
    rcases lt_or_ge args.endTime w.clock with hended | hclock
    · constructor
      · intro hle
        have := (hstep.frame ho.owned).clock
        omega
      · -- nothing is funded any more
        intro _ hfunded
        have h0 : fundedInto ctx.admin ⟨w, l, w'⟩ = 0 := by
          by_contra hne
          have hearly := hstep.funded_early ho.state hne
          have hstart := ho.startTime
          have := ha.window
          omega
        rw [Runs.total_append, Runs.total_singleton, h0] at hfunded
        exact (hJ.after hended hfunded).step ho hended hsale
    · have hd := hJ.step_during ho ha ho' hclock hsale hf
      constructor
      · intro _
        exact hd
      · intro _ hfunded
        have hsold := ho'.books.sold_le ha.supply
        have hsaleEq : st'.tokensForSale = args.tokensForSale := ho'.books.tokensForSale
        exact ho'.owed_le_sold.trans (by omega)

/-- A presale funded with the tokens for sale covers what it owes in every state, as long as every
purchase with a referrer finds the vault funded for the bonuses as well. -/
theorem fullyFunded_covered (h : SaleRun ctx args w₁ tr w)
    (hfunded : args.tokensForSale ≤ Runs.total (fundedInto ctx.admin) tr)
    (hbonus : ∀ x ∈ tr, BonusFunded ctx.admin x) :
    ∑ u, ((w.vesting u).totalLocked - (w.vesting u).alreadyClaimed) ≤ w.balance (.tokenVault ctx.admin) ∧
      ∀ c : ClaimVested, c.state = ctx.admin → claimVested c w ≠ .error (.runtime .insufficientFunds) := by
  have hv := h.fundedVault hbonus
  have hcov : VaultCovers ctx.admin w := by
    rcases lt_or_ge args.endTime w.clock with hended | hclock
    · exact hv.after hended hfunded
    · obtain ⟨st, ho⟩ := h.open
      have hsold := ho.books.sold_le h.accepted.supply
      have hsale : st.tokensForSale = args.tokensForSale := ho.books.tokensForSale
      have hd := hv.during hclock
      exact ho.owed_le_sold.trans (by omega)
  exact ⟨hcov, fun c hc => hcov.claim_covered hc⟩

end

theorem fullyFunded_covered_sample :
    ∑ u, (((play (sampleLaunched 10) sampleEnded).vesting u).totalLocked -
        ((play (sampleLaunched 10) sampleEnded).vesting u).alreadyClaimed) ≤
      (play (sampleLaunched 10) sampleEnded).balance (.tokenVault sampleCtx.admin) ∧
    ∀ c : ClaimVested, c.state = sampleCtx.admin →
      claimVested c (play (sampleLaunched 10) sampleEnded) ≠ .error (.runtime .insufficientFunds) :=
  fullyFunded_covered sampleEnded_run (by decide +kernel) (by decide +kernel)

/-- A sale funded with exactly the tokens for sale and bought out with a referrer. -/
def sampleShort : List Act := [sampleFund 1000, .wait 15, sampleBuy 2 1600 (some (.key 5)), .wait 200]

/-- The bonus comes out of the tokens for sale: the vault holds less than the buyer is owed, and the
buyer's claim fails. -/
theorem fullyFunded_short :
    SaleRun sampleCtx (sampleArgs 10) (sampleLaunched 10) (steps (sampleLaunched 10) sampleShort)
      (play (sampleLaunched 10) sampleShort) ∧
    (sampleArgs 10).tokensForSale ≤ Runs.total (fundedInto 1) (steps (sampleLaunched 10) sampleShort) ∧
    (play (sampleLaunched 10) sampleShort).balance (.tokenVault 1) <
      ∑ u, (((play (sampleLaunched 10) sampleShort).vesting u).totalLocked -
        ((play (sampleLaunched 10) sampleShort).vesting u).alreadyClaimed) ∧
    exec (.claimVested ⟨1, 2, 100⟩) (play (sampleLaunched 10) sampleShort) =
      .error (.runtime .insufficientFunds) := by
  refine ⟨saleRun_play sampleWorld_genesis (by decide) (by decide +kernel) (by decide +kernel) (by decide +kernel),
    by decide +kernel, ?_, exec_of_failure (by decide +kernel)⟩
  refine lt_of_lt_of_le ?_ (le_sum _ (2 : Pubkey))
  decide +kernel

end Presale

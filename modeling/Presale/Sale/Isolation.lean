/-
Several presales and one vesting record a user: the record is found by the user's key alone, so it
keeps the presales apart only for users who draw on a presale when the others owe them nothing.
-/
import Presale.Program.Script
import Presale.Sale.Books
import Presale.Sale.Flows

namespace Presale

open World

/-! ## Purchases and draws -/

/-- The presale a step bought in for `u`. -/
def Label.purchaseOf (u : Pubkey) : Label → Option Pubkey
  | .ok (.buyTokens ctx _ _) => if ctx.buyer = u then some ctx.state else none
  | _ => none

/-- The presale a step paid tokens out of by a claim, and the claiming user. -/
def Label.claimIn : Label → Option (Pubkey × Pubkey)
  | .ok (.claimVested ctx) => some (ctx.state, ctx.user)
  | _ => none

/-- The presale a step paid lamports out of by a refund, and the refunded user. -/
def Label.refundIn : Label → Option (Pubkey × Pubkey)
  | .ok (.claimRefund ctx) => some (ctx.state, ctx.user)
  | _ => none

/-- After the steps `tr`, the step `x` pays no user for what was bought in another presale: at a claim
every other presale the user bought in has paid all its tokens out, at a refund it has given all its
lamports back. -/
def DrawsOwn (tr : List Transition) (x : Transition) : Prop :=
  (∀ p ∈ x.label.claimIn, ∀ y ∈ tr, ∀ B ∈ y.label.purchaseOf p.2, B ≠ p.1 →
    Runs.total (claimedFrom B p.2) tr = Runs.total (boughtIn B p.2) tr) ∧
  ∀ p ∈ x.label.refundIn, ∀ y ∈ tr, ∀ B ∈ y.label.purchaseOf p.2, B ≠ p.1 →
    Runs.total (refundedFrom B p.2) tr = Runs.total (paidInto B p.2) tr

instance (tr : List Transition) (x : Transition) : Decidable (DrawsOwn tr x) :=
  decidable_of_iff
    ((x.label.claimIn.all fun p => tr.all fun y => (y.label.purchaseOf p.2).all fun B =>
        decide (B ≠ p.1 → Runs.total (claimedFrom B p.2) tr = Runs.total (boughtIn B p.2) tr)) ∧
      x.label.refundIn.all fun p => tr.all fun y => (y.label.purchaseOf p.2).all fun B =>
        decide (B ≠ p.1 → Runs.total (refundedFrom B p.2) tr = Runs.total (paidInto B p.2) tr)) (by
    simp [DrawsOwn, Option.all_eq_true, or_iff_not_imp_left])

section
variable {A B u : Pubkey} {tr : List Transition} {x : Transition} {w w' : World}

/-- A step that did not buy in `B` for `u` moved nothing from `u` to `B`. -/
theorem no_purchase (h : x.label.purchaseOf u ≠ some B) : boughtIn B u x = 0 ∧ paidInto B u x = 0 := by
  obtain ⟨w, l, w'⟩ := x
  cases l with
  | ok c =>
    cases c with
    | buyTokens c =>
      have hne : ¬ (c.state = B ∧ c.buyer = u) := by
        rintro ⟨rfl, rfl⟩
        exact h (by simp [Label.purchaseOf])
      simp only [boughtIn, paidInto, if_neg hne]
      exact ⟨trivial, trivial⟩
    | _ => exact ⟨rfl, rfl⟩
  | _ => exact ⟨rfl, rfl⟩

/-! ## The record of a user -/

/-- The record of `u` pools what the steps `tr` moved between `u` and all presales, and no presale
paid out more than it took. -/
structure Pooled (u : Pubkey) (tr : List Transition) (v : UserVesting) : Prop where
  locked : v.totalLocked = Runs.pooled (boughtIn · u) tr
  claimed : v.alreadyClaimed = Runs.pooled (claimedFrom · u) tr
  contributed : v.contributedLamports + Runs.pooled (refundedFrom · u) tr = Runs.pooled (paidInto · u) tr
  claims : ∀ A, Runs.total (claimedFrom A u) tr ≤ Runs.total (boughtIn A u) tr
  refunds : ∀ A, Runs.total (refundedFrom A u) tr ≤ Runs.total (paidInto A u) tr

/-- A step without flows of `u` that leaves the record of `u`. -/
theorem Pooled.keep {v : UserVesting} (h : Pooled u tr v)
    (hx : ∀ B, boughtIn B u x = 0 ∧ paidInto B u x = 0 ∧ claimedFrom B u x = 0 ∧ refundedFrom B u x = 0) :
    Pooled u (tr ++ [x]) v := by
  have hb : ∀ B, boughtIn B u x = 0 := fun B => (hx B).1
  have hp : ∀ B, paidInto B u x = 0 := fun B => (hx B).2.1
  have hc : ∀ B, claimedFrom B u x = 0 := fun B => (hx B).2.2.1
  have hr : ∀ B, refundedFrom B u x = 0 := fun B => (hx B).2.2.2
  refine ⟨?_, ?_, ?_, fun A => ?_, fun A => ?_⟩
  · rw [Runs.pooled_skip hb, h.locked]
  · rw [Runs.pooled_skip hc, h.claimed]
  · rw [Runs.pooled_skip hr, Runs.pooled_skip hp, h.contributed]
  · simpa only [Runs.total_append, Runs.total_singleton, hc, hb, Nat.add_zero] using h.claims A
  · simpa only [Runs.total_append, Runs.total_singleton, hr, hp, Nat.add_zero] using h.refunds A

theorem Pooled.buy {ctx : BuyTokens} {solAmount : ℕ} {referrer : Option Address} {st : PresaleState} {m : Mint}
    {wk : Walk} {solUsed bonus : ℕ} (h : Pooled u tr (w.vesting u))
    (hb : Bought ctx solAmount referrer w w' st m wk solUsed bonus) :
    Pooled u (tr ++ [⟨w, .ok (.buyTokens ctx solAmount referrer), w'⟩]) (w'.vesting u) := by
  have hc : ∀ B, claimedFrom B u ⟨w, .ok (.buyTokens ctx solAmount referrer), w'⟩ = 0 := fun _ => rfl
  have hr : ∀ B, refundedFrom B u ⟨w, .ok (.buyTokens ctx solAmount referrer), w'⟩ = 0 := fun _ => rfl
  have hrec : (w'.vesting u).totalLocked = (w.vesting u).totalLocked + (if ctx.buyer = u then wk.tokens else 0) ∧
      (w'.vesting u).alreadyClaimed = (w.vesting u).alreadyClaimed ∧
      (w'.vesting u).contributedLamports =
        (w.vesting u).contributedLamports + if ctx.buyer = u then solUsed else 0 := by
    rw [vesting_update hb.vestings]
    by_cases hu : u = ctx.buyer
    · subst hu; simp [UserVesting.bought]
    · simp [Function.update_of_ne hu, Ne.symm hu]
  obtain ⟨hlocked, hclaimed, hcontrib⟩ := hrec
  refine ⟨?_, ?_, ?_, fun A => ?_, fun A => ?_⟩
  · rw [Runs.pooled_add fun B => hb.boughtIn, hlocked, h.locked]
  · rw [Runs.pooled_skip hc, hclaimed, h.claimed]
  · have := h.contributed
    rw [Runs.pooled_skip hr, Runs.pooled_add fun B => hb.paidInto, hcontrib]
    omega
  · have := h.claims A
    simp only [Runs.total_append, Runs.total_singleton, hc]
    omega
  · have := h.refunds A
    simp only [Runs.total_append, Runs.total_singleton, hr]
    omega

/-- Before a claim on `A` every other presale has paid out what was bought in it. -/
theorem Pooled.claimed_elsewhere {v : UserVesting} (h : Pooled u tr v) (hx : x.label.claimIn = some (A, u))
    (hown : DrawsOwn tr x) : ∀ B, B ≠ A → Runs.total (claimedFrom B u) tr = Runs.total (boughtIn B u) tr := by
  intro B hB
  refine Runs.total_settled (p := fun y => y.label.purchaseOf u = some B) (h.claims B) (fun y hy => (no_purchase hy).1) ?_
  intro y hy he
  exact hown.1 (A, u) hx y hy B he hB

/-- Before a refund from `A` every other presale has given back what was paid into it. -/
theorem Pooled.refunded_elsewhere {v : UserVesting} (h : Pooled u tr v) (hx : x.label.refundIn = some (A, u))
    (hown : DrawsOwn tr x) : ∀ B, B ≠ A → Runs.total (refundedFrom B u) tr = Runs.total (paidInto B u) tr := by
  intro B hB
  refine Runs.total_settled (p := fun y => y.label.purchaseOf u = some B) (h.refunds B) (fun y hy => (no_purchase hy).2) ?_
  intro y hy he
  exact hown.2 (A, u) hx y hy B he hB

/-- A claim of a user whom no other presale owes tokens stays within what was bought there. -/
theorem Pooled.claim {ctx : ClaimVested} {st : PresaleState} {v : UserVesting} {paid : ℕ}
    (h : Pooled u tr (w.vesting u)) (hc : Claimed ctx w w' st v paid)
    (hown : DrawsOwn tr ⟨w, .ok (.claimVested ctx), w'⟩) :
    Pooled u (tr ++ [⟨w, .ok (.claimVested ctx), w'⟩]) (w'.vesting u) := by
  have hb : ∀ B, boughtIn B u ⟨w, .ok (.claimVested ctx), w'⟩ = 0 := fun _ => rfl
  have hp : ∀ B, paidInto B u ⟨w, .ok (.claimVested ctx), w'⟩ = 0 := fun _ => rfl
  have hr : ∀ B, refundedFrom B u ⟨w, .ok (.claimVested ctx), w'⟩ = 0 := fun _ => rfl
  have hrec : (w'.vesting u).totalLocked = (w.vesting u).totalLocked ∧
      (w'.vesting u).alreadyClaimed = (w.vesting u).alreadyClaimed + (if ctx.user = u then paid else 0) ∧
      (w'.vesting u).contributedLamports = (w.vesting u).contributedLamports := by
    rw [vesting_update hc.vestings]
    by_cases hu : u = ctx.user
    · subst hu; simp [vesting_of hc.vesting]
    · simp [Function.update_of_ne hu, Ne.symm hu]
  obtain ⟨hlocked, hclaimed, hcontrib⟩ := hrec
  refine ⟨?_, ?_, ?_, fun A => ?_, fun A => ?_⟩
  · rw [Runs.pooled_skip hb, hlocked, h.locked]
  · rw [Runs.pooled_add fun B => hc.claimedFrom, hclaimed, h.claimed]
  · rw [Runs.pooled_skip hr, Runs.pooled_skip hp, hcontrib, h.contributed]
  · have hle := h.claims A
    simp only [Runs.total_append, Runs.total_singleton, hb, hc.claimedFrom]
    split
    · rename_i hA
      obtain ⟨rfl, rfl⟩ := hA
      -- what the record still owes was bought here
      have hrest := Runs.pooled_differ (f := (claimedFrom · ctx.user)) (g := (boughtIn · ctx.user))
        (h.claimed_elsewhere rfl hown)
      have hlock := h.locked
      have hcl := h.claimed
      have := hc.claimed
      have := hc.paidEq
      have := v.vestedAt_le st w.clock
      rw [vesting_of hc.vesting] at hlock hcl
      omega
    · omega
  · have := h.refunds A
    simp only [Runs.total_append, Runs.total_singleton, hr]
    omega

/-- A refund of a user whom no other presale owes lamports stays within what was paid in there. -/
theorem Pooled.refund {ctx : ClaimRefund} {st : PresaleState} {v : UserVesting} (h : Pooled u tr (w.vesting u))
    (hr : Refunded ctx w w' st v) (hown : DrawsOwn tr ⟨w, .ok (.claimRefund ctx), w'⟩) :
    Pooled u (tr ++ [⟨w, .ok (.claimRefund ctx), w'⟩]) (w'.vesting u) := by
  have hb : ∀ B, boughtIn B u ⟨w, .ok (.claimRefund ctx), w'⟩ = 0 := fun _ => rfl
  have hp : ∀ B, paidInto B u ⟨w, .ok (.claimRefund ctx), w'⟩ = 0 := fun _ => rfl
  have hc : ∀ B, claimedFrom B u ⟨w, .ok (.claimRefund ctx), w'⟩ = 0 := fun _ => rfl
  have hrec : (w'.vesting u).totalLocked = (w.vesting u).totalLocked ∧
      (w'.vesting u).alreadyClaimed = (w.vesting u).alreadyClaimed ∧
      (w'.vesting u).contributedLamports + (if ctx.user = u then v.contributedLamports else 0) =
        (w.vesting u).contributedLamports := by
    rw [vesting_update hr.vestings]
    by_cases hu : u = ctx.user
    · subst hu; simp [vesting_of hr.vesting]
    · simp [Function.update_of_ne hu, Ne.symm hu]
  obtain ⟨hlocked, hclaimed, hcontrib⟩ := hrec
  refine ⟨?_, ?_, ?_, fun A => ?_, fun A => ?_⟩
  · rw [Runs.pooled_skip hb, hlocked, h.locked]
  · rw [Runs.pooled_skip hc, hclaimed, h.claimed]
  · have := h.contributed
    rw [Runs.pooled_add fun B => hr.refundedFrom, Runs.pooled_skip hp]
    omega
  · have := h.claims A
    simp only [Runs.total_append, Runs.total_singleton, hc]
    omega
  · have hle := h.refunds A
    simp only [Runs.total_append, Runs.total_singleton, hp, hr.refundedFrom]
    split
    · rename_i hA
      obtain ⟨rfl, rfl⟩ := hA
      -- what is left of the contribution was paid in here
      have hrest := Runs.pooled_differ (f := (refundedFrom · ctx.user)) (g := (paidInto · ctx.user))
        (h.refunded_elsewhere rfl hown)
      have hcon := h.contributed
      rw [vesting_of hr.vesting] at hcon
      omega
    · omega

/-! ## Runs over any number of presales -/

theorem Run.pooled {w₀ : World} (h0 : Genesis w₀) (h : Run w₀ tr w) (hown : Runs.Along DrawsOwn tr) :
    Owned w.tokenAccounts ∧ ∀ u, Pooled u tr (w.vesting u) := by
  refine Runs.Run.induct_along (P := DrawsOwn)
    (J := fun tr w => Owned w.tokenAccounts ∧ ∀ u, Pooled u tr (w.vesting u)) ?_ ?_ h hown
  · refine ⟨h0.owned, fun u => ?_⟩
    have hzero : w₀.vesting u = {} := by simp [vesting, h0.vestings]
    rw [hzero]
    refine ⟨?_, ?_, ?_, fun _ => le_rfl, fun _ => le_rfl⟩ <;> simp
  · rintro tr w l w' - ⟨ho, hpool⟩ hstep hx
    have hframe := hstep.frame ho
    refine ⟨hframe.evolves.owned ho, fun u => ?_⟩
    cases hl : l.writesVesting with
    | none =>
      rw [vesting_congr (hframe.vestings hl)]
      exact (hpool u).keep fun B => no_flow hl
    | some B =>
      cases hstep with
      | failed => cases hl
      | outside => cases hl
      | @ok c _ _ _ hok =>
        cases c with
        | buyTokens =>
          obtain ⟨_, _, _, _, _, hb⟩ := buyTokens_ok hok
          exact (hpool u).buy hb
        | claimVested =>
          obtain ⟨_, _, _, hc⟩ := claimVested_ok hok
          exact (hpool u).claim hc hx
        | claimRefund =>
          obtain ⟨_, _, hr⟩ := claimRefund_ok hok
          exact (hpool u).refund hr hx
        | _ => cases hl

/-- Presales are isolated from each other in every run in which nobody draws on a presale while another
still owes for a purchase: no presale pays a user more tokens than the user bought in it, nor more
lamports than the user paid into it. -/
theorem presales_isolated {w₀ : World} (h0 : Genesis w₀) (h : Run w₀ tr w) (hown : Runs.Along DrawsOwn tr)
    (A u : Pubkey) :
    Runs.total (claimedFrom A u) tr ≤ Runs.total (boughtIn A u) tr ∧
      Runs.total (refundedFrom A u) tr ≤ Runs.total (paidInto A u) tr :=
  ⟨((h.pooled h0 hown).2 u).claims A, ((h.pooled h0 hown).2 u).refunds A⟩

end

/-- Two presales, the second on sale after the first has vested; wallet `3` buys in the first, claims
all of it, and then buys in the second and claims there. -/
def samplePresalesInTurn : List Act :=
  [.call (.initializePresale sampleCtx (sampleArgs 10)), sampleFund 1000,
    .call (.initializePresale ⟨100, 2, .key 2⟩ { sampleArgs 10 with startTime := 150, endTime := 160 }),
    .call (.fundPresaleVault ⟨2, 2, .ata (.key 2) 100, 100⟩ 1000), .wait 15, sampleBuy 3 300 none,
    .wait 130, .call (.claimVested ⟨1, 3, 100⟩), .wait 155, .call (.buyTokens ⟨2, 3, 100, .key 9⟩ 400 none),
    .wait 300, .call (.claimVested ⟨2, 3, 100⟩)]

theorem presales_isolated_sample :
    Runs.total (claimedFrom 1 3) (steps sampleWorld samplePresalesInTurn) = 300 ∧
    Runs.total (claimedFrom 2 3) (steps sampleWorld samplePresalesInTurn) = 400 ∧
    Runs.total (claimedFrom 2 3) (steps sampleWorld samplePresalesInTurn) ≤
      Runs.total (boughtIn 2 3) (steps sampleWorld samplePresalesInTurn) :=
  ⟨by decide +kernel, by decide +kernel,
    (presales_isolated sampleWorld_genesis (play_run (by decide +kernel)) (by decide +kernel) 2 3).1⟩

/-- Two presales; wallet `3` buys in the first, wallet `2` in its own. -/
def samplePresales : List Act :=
  [.call (.initializePresale sampleCtx (sampleArgs 10)), sampleFund 1000,
    .call (.initializePresale ⟨100, 2, .key 2⟩ (sampleArgs 10)), .wait 15, sampleBuy 3 300 none,
    .call (.buyTokens ⟨2, 2, 100, .key 9⟩ 400 none), .wait 200]

/-- A user who bought only in another presale claims tokens out of the first one's vault. -/
theorem presales_mixed : Genesis sampleWorld ∧
    Run sampleWorld (steps sampleWorld (samplePresales ++ [.call (.claimVested ⟨1, 2, 100⟩)]))
      (play sampleWorld (samplePresales ++ [.call (.claimVested ⟨1, 2, 100⟩)])) ∧
    Runs.total (boughtIn 1 2) (steps sampleWorld (samplePresales ++ [.call (.claimVested ⟨1, 2, 100⟩)])) = 0 ∧
    Runs.total (claimedFrom 1 2) (steps sampleWorld (samplePresales ++ [.call (.claimVested ⟨1, 2, 100⟩)])) = 400 :=
  ⟨sampleWorld_genesis, play_run (by decide +kernel), by decide +kernel, by decide +kernel⟩

end Presale

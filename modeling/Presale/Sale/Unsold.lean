/-
What withdraw_unsold leaves in the token vault. It keeps back all tokens ever sold and all bonuses
ever granted, whatever of them has left the vault before: what it leaves is what the buyers are owed
exactly when nothing has.
-/
import Presale.Sale.Vault

namespace Presale

open World Finset Custody

/-! ## What is owed and what was claimed -/

/-- A withdrawal of `c` leaves no more in the vault than buyers are owed, and finds nothing to
withdraw only in a vault that holds no more. -/
structure RecoversUnsold (c : AdminWithdraw) (w : World) : Prop where
  left : ∀ w', withdrawUnsold c w = .ok w' → w'.balance (.tokenVault c.state) ≤ ∑ u, (w'.vesting u).owed
  nothing : withdrawUnsold c w = .error (.presale .nothingToWithdraw) →
    w.balance (.tokenVault c.state) ≤ ∑ u, (w.vesting u).owed

section
variable {ctx : InitializePresale} {args : InitializePresaleArgs} {w₁ w w' : World} {tr : List Transition}
  {st : PresaleState}

/-- What buyers are owed and what they have claimed is what was sold. -/
theorem Open.owed_add_claimed (h : Open ctx args w st) :
    ∑ u, (w.vesting u).owed + ∑ u, (w.vesting u).alreadyClaimed = st.tokensSold := by
  rw [h.books.sold]
  exact sum_sub_add h.books.claimed

/-- All that was sold is owed as long as nothing was claimed. -/
theorem Open.owed_eq_sold_iff (h : Open ctx args w st) :
    st.tokensSold ≤ ∑ u, (w.vesting u).owed ↔ ∀ u, (w.vesting u).alreadyClaimed = 0 := by
  have hsum := h.owed_add_claimed
  generalize ∑ u, (w.vesting u).owed = owed at hsum ⊢
  constructor
  · intro hle
    have hzero : ∑ u, (w.vesting u).alreadyClaimed = 0 := by omega
    intro u
    exact (Finset.sum_eq_zero_iff.1 hzero) u (Finset.mem_univ u)
  · intro hnone
    have hzero : ∑ u, (w.vesting u).alreadyClaimed = 0 := Finset.sum_eq_zero fun u _ => hnone u
    omega

/-- In every state of a presale a withdrawal of what was not sold recovers all that is not owed, and
fails for lack of it only when there is none, if and only if no bonus was paid and nothing claimed
before, or the vault holds no more than was sold and not claimed. -/
theorem withdrawUnsold_recovers_iff (h : SaleRun ctx args w₁ tr w) {c : AdminWithdraw} (hc : c.state = ctx.admin)
    (hcall : (∃ w', withdrawUnsold c w = .ok w') ∨ withdrawUnsold c w = .error (.presale .nothingToWithdraw)) :
    ∃ st, w.states ctx.admin = some st ∧
      (RecoversUnsold c w ↔ (st.totalReferralBonuses = 0 ∧ ∀ u, (w.vesting u).alreadyClaimed = 0) ∨
        w.balance (.tokenVault ctx.admin) + ∑ u, (w.vesting u).alreadyClaimed ≤ st.tokensSold) := by
  obtain ⟨st, ho⟩ := h.open
  have hall := ho.owed_eq_sold_iff
  have hsum := ho.owed_add_claimed
  have hle := ho.owed_le_sold
  refine ⟨st, ho.state, ?_⟩
  rcases hcall with ⟨w', hok⟩ | hnone
  · obtain ⟨st', amount, hw⟩ := withdrawUnsold_ok hok
    have hst := hw.state
    rw [hc, ho.state] at hst; cases hst
    have hvault := hw.vault
    have hamount := hw.amountEq
    have hpos := hw.pos
    rw [hc] at hvault hamount
    -- the withdrawal leaves what it keeps back
    have hleft : RecoversUnsold c w ↔ st.tokensSold + st.totalReferralBonuses ≤ ∑ u, (w.vesting u).owed := by
      constructor
      · intro hr
        have hl := hr.left w' hok
        rw [hc, hvault] at hl
        rwa [vesting_congr hw.vestings] at hl
      · intro hkeep
        constructor
        · intro w'' hok'
          rw [hok] at hok'; cases hok'
          rwa [hc, hvault, vesting_congr hw.vestings]
        · intro herr
          rw [hok] at herr; cases herr
    rw [hleft, ← hall]
    generalize ∑ u, (w.vesting u).owed = owed at hle hsum ⊢
    omega
  · obtain ⟨st', hst, hkeep⟩ := withdrawUnsold_nothing hnone
    rw [hc] at hst hkeep
    rw [ho.state] at hst; cases hst
    have hnothing : RecoversUnsold c w ↔ w.balance (.tokenVault ctx.admin) ≤ ∑ u, (w.vesting u).owed := by
      constructor
      · intro hr
        rw [← hc]
        exact hr.nothing hnone
      · intro hheld
        constructor
        · intro w' hok
          rw [hnone] at hok; cases hok
        · intro _
          rw [hc]
          exact hheld
    rw [hnothing, ← hall]
    generalize ∑ u, (w.vesting u).owed = owed at hle hsum ⊢
    omega

end

/-- A sale that met its soft cap, funded with what it sold, and a claim halfway to the end of vesting. -/
def sampleTight : List Act := [sampleFund 300, .wait 15, sampleBuy 2 300 none, .wait 60, .call (.claimVested ⟨1, 2, 100⟩)]

/-- A sale that met its soft cap, overfunded, with a bonus paid on its only purchase. -/
def sampleReferred : List Act := [sampleFund 2000, .wait 15, sampleBuy 2 1600 (some (.key 5)), .wait 21]

def sampleWithdraw : Act := .call (.withdrawUnsold ⟨1, 1, 100⟩)

theorem sampleTight_run : SaleRun sampleCtx (sampleArgs 10) (sampleLaunched 10)
    (steps (sampleLaunched 10) sampleTight) (play (sampleLaunched 10) sampleTight) :=
  saleRun_play sampleWorld_genesis (by decide) (by decide +kernel) (by decide +kernel) (by decide +kernel)

theorem sampleReferred_run : SaleRun sampleCtx (sampleArgs 10) (sampleLaunched 10)
    (steps (sampleLaunched 10) sampleReferred) (play (sampleLaunched 10) sampleReferred) :=
  saleRun_play sampleWorld_genesis (by decide) (by decide +kernel) (by decide +kernel) (by decide +kernel)

/-- After a claim the vault of the tight sale holds what is owed and nothing can be withdrawn; after a
bonus a withdrawal leaves more than is owed. -/
theorem withdrawUnsold_recovers_iff_sample :
    RecoversUnsold ⟨1, 1, 100⟩ (play (sampleLaunched 10) sampleTight) ∧
      0 < ((play (sampleLaunched 10) sampleTight).vesting 2).alreadyClaimed ∧
      ¬ RecoversUnsold ⟨1, 1, 100⟩ (play (sampleLaunched 10) sampleReferred) := by
  refine ⟨?_, by decide +kernel, ?_⟩
  · obtain ⟨st, hst, hiff⟩ := withdrawUnsold_recovers_iff (c := ⟨1, 1, 100⟩) sampleTight_run rfl
      (.inr (exec_of_failure (c := .withdrawUnsold ⟨1, 1, 100⟩) (by decide +kernel)))
    obtain ⟨st', ho⟩ := sampleTight_run.open
    obtain rfl := Option.some.inj (hst.symm.trans ho.state)
    refine hiff.2 (.inr ?_)
    have hvault : (play (sampleLaunched 10) sampleTight).balance (.tokenVault sampleCtx.admin) = 180 := by decide +kernel
    have howed : 180 ≤ ∑ u, ((play (sampleLaunched 10) sampleTight).vesting u).owed :=
      le_trans (by decide +kernel) (le_sum _ (2 : Pubkey))
    have hsum := ho.owed_add_claimed
    omega
  · obtain ⟨st, hst, hiff⟩ := withdrawUnsold_recovers_iff (c := ⟨1, 1, 100⟩) sampleReferred_run rfl
      (.inl ⟨_, exec_of_play (c := .withdrawUnsold ⟨1, 1, 100⟩) (by decide +kernel)⟩)
    have hbonus : ((play (sampleLaunched 10) sampleReferred).states 1).map (·.totalReferralBonuses) = some 50 := by
      decide +kernel
    have hsold : ((play (sampleLaunched 10) sampleReferred).states 1).map (·.tokensSold) = some 1000 := by
      decide +kernel
    have hvault : (play (sampleLaunched 10) sampleReferred).balance (.tokenVault sampleCtx.admin) = 1950 := by
      decide +kernel
    rw [show sampleCtx.admin = 1 from rfl] at hst
    rw [hst] at hbonus hsold
    have hfifty : st.totalReferralBonuses = 50 := Option.some.inj hbonus
    have hthousand : st.tokensSold = 1000 := Option.some.inj hsold
    intro hrecovers
    rcases hiff.1 hrecovers with ⟨hnone, -⟩ | hle
    · omega
    · omega

/-- The bonus has left the vault and is kept back once more: the withdrawal leaves fifty tokens more
than the buyer is owed, and a second one finds nothing to withdraw. -/
theorem withdrawUnsold_leaves :
    SaleRun sampleCtx (sampleArgs 10) (sampleLaunched 10) (steps (sampleLaunched 10) sampleReferred)
      (play (sampleLaunched 10) sampleReferred) ∧
    (sampleArgs 10).endTime < (play (sampleLaunched 10) sampleReferred).clock ∧
    (∀ st ∈ (play (sampleLaunched 10) sampleReferred).states 1, st.softCapLamports ≤ st.totalRaisedLamports) ∧
    exec (.withdrawUnsold ⟨1, 1, 100⟩) (play (sampleLaunched 10) sampleReferred) =
      .ok (play (play (sampleLaunched 10) sampleReferred) [sampleWithdraw]) ∧
    ∑ u, ((play (play (sampleLaunched 10) sampleReferred) [sampleWithdraw]).vesting u).owed <
      (play (play (sampleLaunched 10) sampleReferred) [sampleWithdraw]).balance (.tokenVault 1) ∧
    exec (.withdrawUnsold ⟨1, 1, 100⟩) (play (play (sampleLaunched 10) sampleReferred) [sampleWithdraw]) =
      .error (.presale .nothingToWithdraw) := by
  have hcall : exec (.withdrawUnsold ⟨1, 1, 100⟩) (play (sampleLaunched 10) sampleReferred) =
      .ok (play (play (sampleLaunched 10) sampleReferred) [sampleWithdraw]) := exec_of_play (by decide +kernel)
  refine ⟨sampleReferred_run, by decide +kernel, by decide +kernel, hcall, ?_, exec_of_failure (by decide +kernel)⟩
  obtain ⟨st, ho⟩ := sampleReferred_run.open
  obtain ⟨st', amount, hw⟩ := withdrawUnsold_ok hcall
  have hsold : (play (sampleLaunched 10) sampleReferred).sold sampleCtx.admin = 1000 := by decide +kernel
  have hleft : (play (play (sampleLaunched 10) sampleReferred) [sampleWithdraw]).balance (.tokenVault 1) = 1050 := by
    decide +kernel
  rw [World.sold, ho.state] at hsold
  have hle := ho.owed_le_sold
  rw [vesting_congr hw.vestings, hleft]
  refine lt_of_le_of_lt hle ?_
  show st.tokensSold < 1050
  have hst : st.tokensSold = 1000 := hsold
  omega

end Presale

/-
Calls side by side: what a call is given of the accounts decides what it does, and calls that do not
meet in an account either of them may write can be made in any order.
-/
import Presale.Effects.Access
import Presale.Program.Script

namespace Presale

open Footprint

/-! ## One call -/

/-- A call looks at the accounts of its context and at nothing else, and changes only those it was given
as mutable: in two worlds that agree on them it fails with the same error, or succeeds in both with the
same effect on them and the same events. -/
theorem exec_accounts (c : Call) {w v : World} (hagree : ∀ i, c.access.Covers i → w.cell i = v.cell i) :
    (∀ e, exec c w = .error e ↔ exec c v = .error e) ∧
    ∀ w', exec c w = .ok w' → (∀ i, i ∉ c.access.writes → w'.cell i = w.cell i) ∧
      ∃ v' es, exec c v = .ok v' ∧ (∀ i, c.access.Covers i → w'.cell i = v'.cell i) ∧
        w'.log = w.log ++ es ∧ v'.log = v.log ++ es := by
  have hrel := exec_confined c w v hagree
  rcases hw : exec c w with e | w₁ <;> rcases hv : exec c v with e' | v₁ <;> rw [hw, hv] at hrel
  · obtain rfl : e = e' := hrel
    exact ⟨fun _ => Iff.rfl, nofun⟩
  · exact hrel.elim
  · exact hrel.elim
  · refine ⟨fun e => ⟨nofun, nofun⟩, fun w' h => ?_⟩
    cases h
    obtain ⟨es, hlw, hlv⟩ := hrel.logged
    exact ⟨hrel.left, v₁, es, rfl, hrel.agree, hlw, hlv⟩

/-- A presale under way, after the wallet `3` has bought. -/
def sampleOnSale : World := play (sampleLaunched 10) [sampleFund 1000, .wait 15, sampleBuy 3 300 none]

/-- A purchase by the wallet `2`. -/
def samplePurchase : Call := .buyTokens ⟨1, 2, 100, .ata (.key 5) 100⟩ 50 none

/-- What the wallet `4` holds does not matter to it. -/
theorem exec_accounts_sample : ∃ w' v' es, exec samplePurchase sampleOnSale = .ok w' ∧
    exec samplePurchase (sampleOnSale.setLamports (.key 4) 7) = .ok v' ∧
    (∀ i, samplePurchase.access.Covers i → w'.cell i = v'.cell i) ∧ v'.log = sampleOnSale.log ++ es := by
  have hagree : ∀ i, samplePurchase.access.Covers i → sampleOnSale.cell i = (sampleOnSale.setLamports (.key 4) 7).cell i :=
    fun i hi => (cell_setLamports fun he => by subst he; revert hi; decide).symm
  have hok := exec_of_play (w := sampleOnSale) (c := samplePurchase) (by decide +kernel)
  obtain ⟨-, v', es, hv, hsame, -, hlog⟩ := (exec_accounts samplePurchase hagree).2 _ hok
  exact ⟨_, v', es, hok, hv, hsame, hlog⟩

/-! ## Schedules -/

/-- Neither call may write an account the other one is given. -/
def Call.Apart (c d : Call) : Prop := c.access.Apart d.access

instance (c d : Call) : Decidable (c.Apart d) := inferInstanceAs (Decidable (c.access.Apart d.access))

/-- A call with how it turned out. -/
def Label.of : Call × Option Error → Label
  | (c, none) => .ok c
  | (c, some e) => .failed c e

section
variable {cs cs' xs ys zs : List Call} {w v : World}

theorem perform_call (w : World) (c : Call) :
    Act.perform w (.call c) = (Label.of (c, outcome (exec c) w), after (exec c) w) := by
  rcases h : exec c w with e | w'
  · simp only [Act.perform, outcome, after, h, Label.of]
  · simp only [Act.perform, outcome, after, h, Label.of]

theorem leadsTo_eq (w : World) (cs : List Call) : leadsTo w cs = final exec cs w := by
  induction cs generalizing w with
  | nil => rfl
  | cons c cs ih =>
    show play (Act.perform w (.call c)).2 (cs.map Act.call) = _
    rw [perform_call]
    exact ih _

theorem turnsOut_eq (w : World) (cs : List Call) : turnsOut w cs = (outcomes exec cs w).map Label.of := by
  induction cs generalizing w with
  | nil => rfl
  | cons c cs ih =>
    show (Act.perform w (.call c)).1 :: turnsOut (Act.perform w (.call c)).2 cs = _
    rw [perform_call]
    exact congrArg (List.cons _) (ih _)

/-- Worlds that hold the same in every account differ in their logs at most. -/
theorem eq_of_alike (h : Alike World.cell w v) : { w with log := [] } = { v with log := [] } := by
  obtain ⟨clock, states, vestings, pools, userStakes, mints, tokenAccounts, lamports, log⟩ := w
  obtain ⟨clock', states', vestings', pools', userStakes', mints', tokenAccounts', lamports', log'⟩ := v
  simp only [World.mk.injEq, and_true]
  exact ⟨h .clock, funext fun A => h (.state A), funext fun u => h (.vesting u), funext fun A => h (.pool A),
    funext fun u => h (.userStake u), funext fun k => h (.mint k), funext fun a => h (.tokens a),
    funext fun a => h (.lamports a)⟩

/-- Two schedules of the same calls, one made from the other by swapping neighbours that are apart: every
call turns out the same, failures included, the accounts end up the same, and the logs have the same
entries. -/
theorem schedules_agree (h : Reordered Call.Apart cs cs') (w : World) :
    (turnsOut w cs).Perm (turnsOut w cs') ∧
    { leadsTo w cs with log := [] } = { leadsTo w cs' with log := [] } ∧
    (leadsTo w cs).log.Perm (leadsTo w cs').log := by
  obtain ⟨houts, halike, hlog⟩ := h.schedule exec_confined w
  rw [turnsOut_eq, turnsOut_eq, leadsTo_eq, leadsTo_eq]
  exact ⟨houts.map _, eq_of_alike halike, hlog⟩

/-- The wallet `4` announces a presale of its own. -/
def sampleLaunch : Call :=
  .initializePresale ⟨100, 4, .key 4⟩ { sampleArgs 10 with startTime := 30, endTime := 40 }

/-- A purchase in the one presale and the launch of another one, in either order. -/
theorem schedules_agree_sample : failure sampleOnSale samplePurchase = none ∧ failure sampleOnSale sampleLaunch = none ∧
    (turnsOut sampleOnSale [samplePurchase, sampleLaunch]).Perm (turnsOut sampleOnSale [sampleLaunch, samplePurchase]) ∧
    { leadsTo sampleOnSale [samplePurchase, sampleLaunch] with log := [] } =
      { leadsTo sampleOnSale [sampleLaunch, samplePurchase] with log := [] } ∧
    (leadsTo sampleOnSale [samplePurchase, sampleLaunch]).log.Perm
      (leadsTo sampleOnSale [sampleLaunch, samplePurchase]).log :=
  ⟨by decide +kernel, by decide +kernel, schedules_agree (.swap [] [] (by decide +kernel) .refl) sampleOnSale⟩

/-- Two sessions none of whose calls meet, merged in any way, each in its own order: every call turns out
as it does when its session is made alone, and every account is left as the one session leaves it, if the
calls of the other one may not write it. -/
theorem sessions_apart (h : Merged xs ys zs) (hapart : ∀ x ∈ xs, ∀ y ∈ ys, x.Apart y) (w : World) :
    Merged (turnsOut w xs) (turnsOut w ys) (turnsOut w zs) ∧
    (∀ i, (∀ y ∈ ys, i ∉ y.access.writes) → (leadsTo w zs).cell i = (leadsTo w xs).cell i) ∧
    ∀ i, (∀ x ∈ xs, i ∉ x.access.writes) → (leadsTo w zs).cell i = (leadsTo w ys).cell i := by
  obtain ⟨houts, hleft⟩ := h.schedule exec_confined hapart w
  obtain ⟨-, hright⟩ := h.symm.schedule exec_confined (fun y hy x hx => (hapart x hx y hy).symm) w
  simp only [turnsOut_eq, leadsTo_eq]
  exact ⟨houts.map _, hleft, hright⟩

end

/-- Two purchases around the launch of another presale: what the buyer's record holds does not depend on it. -/
theorem sessions_apart_sample :
    Merged (turnsOut sampleOnSale [samplePurchase, samplePurchase]) (turnsOut sampleOnSale [sampleLaunch])
      (turnsOut sampleOnSale [samplePurchase, sampleLaunch, samplePurchase]) ∧
    (leadsTo sampleOnSale [samplePurchase, sampleLaunch, samplePurchase]).vestings 2 =
      (leadsTo sampleOnSale [samplePurchase, samplePurchase]).vestings 2 ∧
    (leadsTo sampleOnSale [samplePurchase, sampleLaunch, samplePurchase]).states 4 =
      (leadsTo sampleOnSale [sampleLaunch]).states 4 := by
  have hmerged : Merged [samplePurchase, samplePurchase] [sampleLaunch] [samplePurchase, sampleLaunch, samplePurchase] :=
    .left (.right (.left .nil))
  obtain ⟨houts, hleft, hright⟩ := sessions_apart hmerged (by decide +kernel) sampleOnSale
  exact ⟨houts, hleft (.vesting 2) (by decide +kernel), hright (.state 4) (by decide +kernel)⟩

end Presale

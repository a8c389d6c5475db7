/-
What every journal keeps: the totals over all presales and pools are what their users have together.
The program's records inherit it, whatever presales and pools its users deal with.
-/
import Presale.System.Journal

namespace Presale

open World EventLog

/-! ## Balanced journals -/

/-- What all users have together. -/
@[irreducible] def together (g : Position → ℕ) (f : Pubkey → Position) : ℕ := ∑ u, g (f u)

/-- The lamports an event pays back. -/
def Event.refund : Event → ℕ
  | .refundClaimed _ amountSol => amountSol
  | _ => 0

/-- The lamports a log pays back. -/
def refunds (log : List Event) : ℕ := (log.map Event.refund).sum

structure Journal.Balanced (log : List Event) (j : Journal) : Prop where
  sold : j.sold = together (·.locked) j.positions
  raised : j.raised = together (·.contributed) j.positions + refunds log
  staked : j.staked = together (·.staked) j.positions
  claimed : ∀ u, (j.positions u).claimed ≤ (j.positions u).locked
  rates : ∀ A rate, j.rates A = some rate → rate ≤ maxRewardRatePerSecond ∧ j.listings A ≠ none

section
variable {f : Pubkey → Position} {u : Pubkey} {p : Position} {log : List Event} {j : Journal}

/-- One user's position changes. -/
theorem together_update (g : Position → ℕ) (f : Pubkey → Position) (u : Pubkey) (p : Position) :
    together g (Function.update f u p) + g (f u) = together g f + g p := by
  unfold together
  exact Custody.sum_field g f u p

theorem le_together (g : Position → ℕ) (f : Pubkey → Position) (u : Pubkey) : g (f u) ≤ together g f := by
  unfold together
  exact Custody.le_sum (fun u => g (f u)) u

theorem refunds_append (e : Event) : refunds (log ++ [e]) = refunds log + e.refund := by
  simp [refunds]

/-- All positions but one are as they were. -/
theorem claimed_update (h : ∀ x, (f x).claimed ≤ (f x).locked) (hp : p.claimed ≤ p.locked) (x : Pubkey) :
    (Function.update f u p x).claimed ≤ (Function.update f u p x).locked := by
  by_cases hx : x = u
  · subst hx; simpa using hp
  · simpa [Function.update_of_ne hx] using h x

/-- An event that moves no balance. -/
theorem Journal.Balanced.keep {j' : Journal} {e : Event} (h : j.Balanced log) (he : e.refund = 0)
    (hpos : j'.positions = j.positions) (hrates : j'.rates = j.rates)
    (hlistings : ∀ A, j.listings A ≠ none → j'.listings A ≠ none)
    (htotals : j'.sold = j.sold ∧ j'.raised = j.raised ∧ j'.staked = j.staked) : j'.Balanced (log ++ [e]) := by
  obtain ⟨hsold, hraised, hstaked⟩ := htotals
  refine ⟨?_, ?_, ?_, ?_, ?_⟩
  · rw [hsold, hpos]; exact h.sold
  · rw [hraised, hpos, refunds_append, he, Nat.add_zero]; exact h.raised
  · rw [hstaked, hpos]; exact h.staked
  · rw [hpos]; exact h.claimed
  · intro A rate hA
    rw [hrates] at hA
    exact ⟨(h.rates A rate hA).1, hlistings A (h.rates A rate hA).2⟩

theorem listings_update {g : Pubkey → Option Listing} {A : Pubkey} {o : Option Listing} (ho : o ≠ none) :
    ∀ B, g B ≠ none → Function.update g A o B ≠ none := by
  intro B hB
  by_cases hBA : B = A
  · subst hBA; simpa using ho
  · simpa [Function.update_of_ne hBA] using hB

/-- An event that changes one user's position, and the totals by as much. -/
theorem Journal.Balanced.settle {j' : Journal} {e : Event} (h : j.Balanced log)
    (hpos : j'.positions = Function.update j.positions u p) (hclaimed : p.claimed ≤ p.locked)
    (hsold : j'.sold + (j.positions u).locked = j.sold + p.locked)
    (hraised : j'.raised + (j.positions u).contributed = j.raised + p.contributed + e.refund)
    (hstaked : j'.staked + (j.positions u).staked = j.staked + p.staked)
    (hterms : j'.rates = j.rates ∧ j'.listings = j.listings) : j'.Balanced (log ++ [e]) := by
  obtain ⟨hrates, hlistings⟩ := hterms
  have hlocked := together_update (·.locked) j.positions u p
  have hcontributed := together_update (·.contributed) j.positions u p
  have hstake := together_update (·.staked) j.positions u p
  refine ⟨?_, ?_, ?_, ?_, ?_⟩
  · have := h.sold
    rw [hpos]
    omega
  · have := h.raised
    rw [hpos, refunds_append]
    omega
  · have := h.staked
    rw [hpos]
    omega
  · rw [hpos]; exact claimed_update h.claimed hclaimed
  · rw [hrates, hlistings]; exact h.rates

/-- What is staked back comes off the total, which holds at least as much. -/
theorem Journal.Balanced.unstake {user : Pubkey} {amount reward : ℕ} (h : j.Balanced log)
    (hok : j.Admits (.unstaked user amount reward)) :
    (j.apply (.unstaked user amount reward)).Balanced (log ++ [.unstaked user amount reward]) := by
  obtain ⟨-, hle⟩ := hok
  have htotal := le_together (·.staked) j.positions user
  have hstaked := h.staked
  refine h.settle rfl (h.claimed user) rfl rfl ?_ ⟨rfl, rfl⟩
  simp only [Journal.apply, Journal.setPosition] at htotal ⊢
  omega

/-- Every admitted event keeps the balance. -/
theorem Journal.Balanced.step {e : Event} (h : j.Balanced log) (hok : j.Admits e) :
    (j.apply e).Balanced (log ++ [e]) := by
  cases e with
  | presaleInitialized => exact h.keep rfl rfl rfl (listings_update (by simp)) ⟨rfl, rfl, rfl⟩
  | adminActionsLockSet admin =>
    exact h.keep rfl rfl rfl (listings_update (by simpa using (show j.listings admin ≠ none from hok))) ⟨rfl, rfl, rfl⟩
  | tokensPurchased buyer amountSol tokensReceived =>
    refine h.settle rfl ((h.claimed buyer).trans (Nat.le_add_right _ _)) ?_ ?_ rfl ⟨rfl, rfl⟩
    · simp only [Journal.apply, Journal.setPosition]
      omega
    · simp only [Journal.apply, Journal.setPosition, Event.refund]
      omega
  | tokensClaimed => exact h.settle rfl hok.2 rfl rfl rfl ⟨rfl, rfl⟩
  | refundClaimed user amountSol =>
    refine h.settle rfl (h.claimed user) rfl ?_ rfl ⟨rfl, rfl⟩
    have := hok.2
    simp only [Journal.apply, Journal.setPosition, Event.refund]
    omega
  | stakingInitialized admin rate =>
    obtain ⟨hlisted, -, hrate⟩ := hok
    obtain ⟨hsold, hraised, hstaked, hclaimed, hrates⟩ := h
    refine ⟨hsold, by rw [refunds_append]; exact hraised, hstaked, hclaimed, ?_⟩
    intro A r hA
    by_cases hAA : A = admin
    · subst hAA
      simp only [Journal.apply, Function.update_self, Option.some.injEq] at hA
      exact ⟨hA ▸ hrate, hlisted⟩
    · simp only [Journal.apply, Function.update_of_ne hAA] at hA
      exact hrates A r hA
  | staked user amount =>
    refine h.settle rfl (h.claimed user) rfl rfl ?_ ⟨rfl, rfl⟩
    simp only [Journal.apply, Journal.setPosition]
    omega
  | unstaked => exact h.unstake hok
  | _ => exact h.keep rfl rfl rfl (fun _ hA => hA) ⟨rfl, rfl, rfl⟩

theorem together_zero {g : Position → ℕ} (h : ∀ u, g (f u) = 0) : together g f = 0 := by
  unfold together
  exact Finset.sum_eq_zero fun u _ => h u

/-- Every log a journal admits leaves it balanced. -/
theorem journal_balanced (h : Admitted Journal.apply Journal.Admits Journal.empty log) :
    (replay Journal.apply Journal.empty log).Balanced log := by
  refine admitted_induct (J := Journal.Balanced) ?_ (fun es j e hj hok => hj.step hok) h
  refine ⟨?_, ?_, ?_, fun _ => le_rfl, nofun⟩
  · exact (together_zero fun _ => rfl).symm
  · rw [together_zero fun _ => rfl]; rfl
  · exact (together_zero fun _ => rfl).symm

end

/-! ## The program's totals -/

/-- In every reachable world, over all presales and pools together: the tokens sold are the tokens locked
to users, the lamports raised are the contributions still on record and the refunds paid, the pools'
totals are what users have staked, nobody has claimed more than was locked to them, and every pool
belongs to a presale and keeps to the highest rate. -/
theorem reachable_totals {w : World} (h : Reachable w) :
    ∑ A, counted (·.tokensSold) (w.states A) = ∑ u, (w.vesting u).totalLocked ∧
    ∑ A, counted (·.totalRaisedLamports) (w.states A) = ∑ u, (w.vesting u).contributedLamports + refunds w.log ∧
    ∑ A, counted (·.totalStaked) (w.pools A) = ∑ u, (w.userStake u).amount ∧
    (∀ u, (w.vesting u).alreadyClaimed ≤ (w.vesting u).totalLocked) ∧
    ∀ A p, w.pools A = some p → p.rewardRatePerSecond ≤ maxRewardRatePerSecond ∧ w.states A ≠ none := by
  obtain ⟨w₀, tr, h0, hrun⟩ := h
  obtain ⟨hok, hreplay⟩ := hrun.replayed h0
  have hbal := journal_balanced hok
  rw [← hreplay] at hbal
  obtain ⟨hsold, hraised, hstaked, hclaimed, hrates⟩ := hbal
  simp only [World.journal, overall, together] at hsold hraised hstaked
  refine ⟨hsold, hraised, hstaked, hclaimed, ?_⟩
  intro A p hp
  obtain ⟨hrate, hlisted⟩ := hrates A p.rewardRatePerSecond (by simp [World.journal, hp])
  refine ⟨hrate, ?_⟩
  rintro hnone
  simp [World.journal, hnone] at hlisted

theorem reachable_totals_sample :
    ∑ A, counted (·.tokensSold) ((play sampleWorld sampleStaking).states A) =
      ∑ u, ((play sampleWorld sampleStaking).vesting u).totalLocked ∧
    ∑ A, counted (·.totalRaisedLamports) ((play sampleWorld sampleStaking).states A) =
      ∑ u, ((play sampleWorld sampleStaking).vesting u).contributedLamports ∧
    ∑ A, counted (·.totalStaked) ((play sampleWorld sampleStaking).pools A) =
      ∑ u, ((play sampleWorld sampleStaking).userStake u).amount ∧
    (play sampleWorld sampleStaking).states 1 ≠ none := by
  obtain ⟨hsold, hraised, hstaked, -, hpools⟩ :=
    reachable_totals (w := play sampleWorld sampleStaking) ⟨sampleWorld, _, sampleWorld_genesis, play_run (by decide +kernel)⟩
  have hnone : refunds (play sampleWorld sampleStaking).log = 0 := by decide +kernel
  have hsome : (play sampleWorld sampleStaking).pools 1 ≠ none := by decide +kernel
  obtain ⟨p, hp⟩ := Option.ne_none_iff_exists'.1 hsome
  exact ⟨hsold, by rw [hraised, hnone, Nat.add_zero], hstaked, (hpools 1 p hp).2⟩

end Presale

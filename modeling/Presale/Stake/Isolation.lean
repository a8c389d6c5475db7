/-
Several pools and one stake record a user: the record is found by the user's key alone, so it keeps
the pools apart only for users who leave one pool before they enter another.
-/
import Presale.Stake.Commute

namespace Presale

open World

/-! ## Stakes and returns -/

/-- The tokens a stake of `u` put into the stake vault of `A`. -/
def stakedInto (A u : Pubkey) (x : Transition) : ℕ :=
  match x.label with
  | .ok (.stake ctx _) =>
    if ctx.state = A ∧ ctx.user = u then x.after.balance (.stakeVault A) - x.before.balance (.stakeVault A) else 0
  | _ => 0

/-- The tokens an unstake of `u` took out of the stake vault of `A`. -/
def returnedFrom (A u : Pubkey) (x : Transition) : ℕ :=
  match x.label with
  | .ok (.unstake ctx _) =>
    if ctx.state = A ∧ ctx.user = u then x.before.balance (.stakeVault A) - x.after.balance (.stakeVault A) else 0
  | _ => 0

/-- The pool a step staked in for `u`. -/
def Label.stakeOf (u : Pubkey) : Label → Option Pubkey
  | .ok (.stake ctx _) => if ctx.user = u then some ctx.state else none
  | _ => none

/-- After the steps `tr`, the step `x` settles the record of a user who has nothing left in any other
pool staked in before. -/
def KeepsPool (tr : List Transition) (x : Transition) : Prop :=
  ∀ p ∈ x.label.staker, ∀ y ∈ tr, ∀ B ∈ y.label.stakeOf p.2, B ≠ p.1 →
    Runs.total (returnedFrom B p.2) tr = Runs.total (stakedInto B p.2) tr

instance (tr : List Transition) (x : Transition) : Decidable (KeepsPool tr x) :=
  decidable_of_iff (x.label.staker.all fun p => tr.all fun y => (y.label.stakeOf p.2).all fun B =>
      decide (B ≠ p.1 → Runs.total (returnedFrom B p.2) tr = Runs.total (stakedInto B p.2) tr)) (by
    simp [KeepsPool, Option.all_eq_true, or_iff_not_imp_left])

section
variable {A B u : Pubkey} {tr : List Transition} {x : Transition} {w w' : World}

theorem Staked.stakedInto {ctx : Stake} {amount : ℕ} {st : PresaleState} {p : StakePool} (ho : Owned w.tokenAccounts)
    (h : Staked ctx amount w w' st p) :
    stakedInto A u ⟨w, .ok (.stake ctx amount), w'⟩ = if ctx.state = A ∧ ctx.user = u then amount else 0 := by
  simp only [Presale.stakedInto]
  split
  · rename_i hA
    have hvault := h.stakeVault ho
    rw [← hA.1]
    omega
  · rfl

theorem Unstaked.returnedFrom {ctx : Unstake} {amount : ℕ} {st : PresaleState} {p : StakePool} {s : UserStake}
    {paid : ℕ} (ho : Owned w.tokenAccounts) (h : Unstaked ctx amount w w' st p s paid) :
    returnedFrom A u ⟨w, .ok (.unstake ctx amount), w'⟩ = if ctx.state = A ∧ ctx.user = u then amount else 0 := by
  simp only [Presale.returnedFrom]
  split
  · rename_i hA
    have hvault := h.stakeVault ho
    rw [← hA.1]
    omega
  · rfl

/-- A step that did not stake in `B` for `u` put nothing there. -/
theorem stakedInto_zero (h : x.label.stakeOf u ≠ some B) : stakedInto B u x = 0 := by
  obtain ⟨w, l, w'⟩ := x
  cases l with
  | ok c =>
    cases c with
    | stake c =>
      have hne : ¬ (c.state = B ∧ c.user = u) := by
        rintro ⟨rfl, rfl⟩
        exact h (by simp [Label.stakeOf])
      simp only [stakedInto, if_neg hne]
    | _ => rfl
  | _ => rfl

/-- A step that settles no record of `u` in `A` moves nothing between `u` and `A`. -/
theorem no_stake_flow (h : x.label.staker ≠ some (A, u)) : stakedInto A u x = 0 ∧ returnedFrom A u x = 0 := by
  obtain ⟨w, l, w'⟩ := x
  cases l with
  | ok c =>
    cases c with
    | stake c =>
      have hne : ¬ (c.state = A ∧ c.user = u) := by rintro ⟨rfl, rfl⟩; exact h rfl
      simp only [stakedInto, returnedFrom, if_neg hne, and_self]
    | unstake c =>
      have hne : ¬ (c.state = A ∧ c.user = u) := by rintro ⟨rfl, rfl⟩; exact h rfl
      simp only [stakedInto, returnedFrom, if_neg hne, and_self]
    | _ => exact ⟨rfl, rfl⟩
  | _ => exact ⟨rfl, rfl⟩

/-! ## The record of a user -/

/-- The record of `u` is the stake of `u` in `A`, and every other pool has returned all that `u`
staked in it. -/
structure StakeHome (u : Pubkey) (tr : List Transition) (s : UserStake) (A : Pubkey) : Prop where
  held : s.amount + Runs.total (returnedFrom A u) tr = Runs.total (stakedInto A u) tr
  others : ∀ B, B ≠ A → Runs.total (returnedFrom B u) tr = Runs.total (stakedInto B u) tr

/-- No pool returns more than was staked in it. -/
theorem StakeHome.returned_le {s : UserStake} (h : StakeHome u tr s A) (B : Pubkey) :
    Runs.total (returnedFrom B u) tr ≤ Runs.total (stakedInto B u) tr := by
  by_cases hB : B = A
  · have := h.held
    subst hB
    omega
  · exact (h.others B hB).le

/-- The home of a record with something left in `A` is `A`. -/
theorem StakeHome.eq_of_lt {s : UserStake} (h : StakeHome u tr s B)
    (hlt : Runs.total (returnedFrom A u) tr < Runs.total (stakedInto A u) tr) : B = A := by
  by_contra hne
  exact absurd (h.others A (Ne.symm hne)) hlt.ne

/-- A step that settles no record of `u` leaves the home of the record. -/
theorem StakeHome.keep {s : UserStake} (h : StakeHome u tr s A) (hx : ∀ B, x.label.staker ≠ some (B, u)) :
    StakeHome u (tr ++ [x]) s A := by
  have hs : ∀ B, stakedInto B u x = 0 := fun B => (no_stake_flow (hx B)).1
  have hr : ∀ B, returnedFrom B u x = 0 := fun B => (no_stake_flow (hx B)).2
  constructor
  · simpa only [Runs.total_append, Runs.total_singleton, hs, hr, Nat.add_zero] using h.held
  · intro B hB
    simpa only [Runs.total_append, Runs.total_singleton, hs, hr, Nat.add_zero] using h.others B hB

/-- A user who has left every other pool is at home in `A`. -/
theorem StakeHome.move {s : UserStake} (h : StakeHome u tr s B) (hx : x.label.staker = some (A, u))
    (hkeep : KeepsPool tr x) : StakeHome u tr s A := by
  have hothers : ∀ C, C ≠ A → Runs.total (returnedFrom C u) tr = Runs.total (stakedInto C u) tr := by
    intro C hC
    refine Runs.total_settled (p := fun y => y.label.stakeOf u = some C) (h.returned_le C) (fun y => stakedInto_zero) ?_
    intro y hy hl
    exact hkeep (A, u) hx y hy C hl hC
  refine ⟨?_, hothers⟩
  by_cases hB : B = A
  · exact hB ▸ h.held
  · -- what was left in the old home is gone, and nothing is left in the new one
    have hheld := h.held
    have hold := hothers B hB
    have hnew := h.others A (Ne.symm hB)
    omega

/-- A settlement in its home keeps the record at home. -/
theorem StakeHome.settle {l : Label} (h : StakeHome u tr (w.userStake u) A) (ho : Owned w.tokenAccounts)
    (hstep : Step w l w') (hl : l.staker = some (A, u)) : StakeHome u (tr ++ [⟨w, l, w'⟩]) (w'.userStake u) A := by
  have hheld := h.held
  have hzero : ∀ B, B ≠ A → stakedInto B u ⟨w, l, w'⟩ = 0 ∧ returnedFrom B u ⟨w, l, w'⟩ = 0 := fun B hB =>
    no_stake_flow fun he => hB (Prod.mk.inj (Option.some.inj (he.symm.trans hl))).1
  constructor
  · rw [Runs.total_append, Runs.total_append, Runs.total_singleton, Runs.total_singleton]
    cases hstep with
    | failed => cases hl
    | outside => cases hl
    | @ok c _ _ _ hok =>
      cases c with
      | stake c amount =>
        obtain ⟨rfl, rfl⟩ := Prod.mk.inj (Option.some.inj hl)
        obtain ⟨_, _, hs⟩ := stake_ok hok
        have hret : returnedFrom c.state c.user ⟨w, .ok (.stake c amount), w'⟩ = 0 := rfl
        rw [hs.stakedInto ho, if_pos ⟨rfl, rfl⟩, hret, userStake_update hs.userStakes, Function.update_self]
        show (w.userStake c.user).amount + amount + _ = _
        omega
      | unstake c amount =>
        obtain ⟨rfl, rfl⟩ := Prod.mk.inj (Option.some.inj hl)
        obtain ⟨_, _, s, _, hu⟩ := unstake_ok hok
        have hst : stakedInto c.state c.user ⟨w, .ok (.unstake c amount), w'⟩ = 0 := rfl
        have hle := hu.amountLe
        rw [userStake_of hu.record] at hheld
        rw [hu.returnedFrom ho, if_pos ⟨rfl, rfl⟩, hst, userStake_update hu.userStakes, Function.update_self]
        show s.amount - amount + _ = _
        omega
      | claimRewards c =>
        obtain ⟨rfl, rfl⟩ := Prod.mk.inj (Option.some.inj hl)
        obtain ⟨_, _, s, _, hc⟩ := claimRewards_ok hok
        have hst : stakedInto c.state c.user ⟨w, .ok (.claimRewards c), w'⟩ = 0 := rfl
        have hret : returnedFrom c.state c.user ⟨w, .ok (.claimRewards c), w'⟩ = 0 := rfl
        rw [userStake_of hc.record] at hheld
        rw [hst, hret, userStake_update hc.userStakes, Function.update_self]
        exact hheld
      | _ => cases hl
  · intro B hB
    simpa only [Runs.total_append, Runs.total_singleton, hzero B hB, Nat.add_zero] using h.others B hB

/-! ## Steps of others -/

/-- A step that settles no record of `u` leaves the record of `u`. -/
theorem Step.userStake_kept {l : Label} (ho : Owned w.tokenAccounts) (h : Step w l w')
    (hl : ∀ B, l.staker ≠ some (B, u)) : w'.userStake u = w.userStake u := by
  have hquiet : l.writesStake = none → w'.userStake u = w.userStake u := by
    intro hl
    rw [userStake_congr ((h.frame ho).userStakes hl)]
  cases h with
  | failed => exact hquiet rfl
  | outside => exact hquiet rfl
  | @ok c _ _ _ hok =>
    cases c with
    | stake c =>
      have hu : u ≠ c.user := by rintro rfl; exact hl _ rfl
      obtain ⟨_, _, hs⟩ := stake_ok hok
      rw [userStake_update hs.userStakes, Function.update_of_ne hu]
    | unstake c =>
      have hu : u ≠ c.user := by rintro rfl; exact hl _ rfl
      obtain ⟨_, _, _, _, hu'⟩ := unstake_ok hok
      rw [userStake_update hu'.userStakes, Function.update_of_ne hu]
    | claimRewards c =>
      have hu : u ≠ c.user := by rintro rfl; exact hl _ rfl
      obtain ⟨_, _, _, _, hc⟩ := claimRewards_ok hok
      rw [userStake_update hc.userStakes, Function.update_of_ne hu]
    | _ => exact hquiet rfl

/-- Only steps that write a pool take from its vaults. -/
theorem Label.spends_own {l : Label} (h : l.writesPool ≠ some A) :
    .stakeVault A ∉ l.spends ∧ .rewardVault A ∉ l.spends := by
  cases l with
  | ok c =>
    cases c with
    | unstake c =>
      have hA : A ≠ c.state := by rintro rfl; exact h rfl
      simp [Label.spends, Label.footprint, Call.spends, hA]
    | claimRewards c =>
      have hA : A ≠ c.state := by rintro rfl; exact h rfl
      simp [Label.spends, Label.footprint, Call.spends, hA]
    | _ => simp [Label.spends, Label.footprint, Call.spends]
  | _ => simp [Label.spends, Label.footprint]

/-- The record a step settles is one for the pool it writes. -/
theorem Label.writesPool_of_staker {l : Label} (h : l.staker = some (B, u)) : l.writesPool = some B := by
  cases l with
  | ok c =>
    cases c with
    | stake | unstake | claimRewards => obtain ⟨rfl, rfl⟩ := Prod.mk.inj (Option.some.inj h); rfl
    | _ => cases h
  | _ => cases h

/-! ## Runs over any number of pools -/

theorem Run.stakeHome {w₀ : World} (h0 : Genesis w₀) (h : Run w₀ tr w) (hkeep : Runs.Along KeepsPool tr) :
    Owned w.tokenAccounts ∧ ∀ u, ∃ A, StakeHome u tr (w.userStake u) A := by
  refine Runs.Run.induct_along (P := KeepsPool)
    (J := fun tr w => Owned w.tokenAccounts ∧ ∀ u, ∃ A, StakeHome u tr (w.userStake u) A) ?_ ?_ h hkeep
  · refine ⟨h0.owned, fun u => ⟨u, ?_, fun B _ => rfl⟩⟩
    simp [userStake, h0.userStakes]
  · rintro tr w l w' - ⟨ho, hhome⟩ hstep hk
    have hframe := hstep.frame ho
    refine ⟨hframe.evolves.owned ho, fun u => ?_⟩
    obtain ⟨A, hA⟩ := hhome u
    by_cases hl : ∃ B, l.staker = some (B, u)
    · obtain ⟨B, hB⟩ := hl
      exact ⟨B, (hA.move hB hk).settle ho hstep hB⟩
    · rw [hstep.userStake_kept ho fun B hB => hl ⟨B, hB⟩]
      exact ⟨A, hA.keep fun B hB => hl ⟨B, hB⟩⟩

end

/-! ## What a user can take -/

/-- The pool and the user a call takes principal or rewards out for. -/
def Call.takesOut : Call → Option (Pubkey × Pubkey)
  | .unstake ctx _ => some (ctx.state, ctx.user)
  | .claimRewards ctx => some (ctx.state, ctx.user)
  | _ => none

/-- The principal and the reward that the call `c` takes for `u` out of the pool of `A` in `w`, after
the steps `tr`: none unless it is an unstake or a claim of `u` there that succeeds and meets the
condition. -/
def takes (A u : Pubkey) (c : Call) (tr : List Transition) (w : World) : Option (ℕ × ℕ) :=
  match exec c w with
  | .ok w' =>
    if c.takesOut = some (A, u) ∧ KeepsPool tr ⟨w, .ok c, w'⟩ then
      some (returnedFrom A u ⟨w, .ok c, w'⟩, rewardedFrom A u ⟨w, .ok c, w'⟩)
    else none
  | .error _ => none

/-- To an unstake or a claim of `u` in the pool of `A` the world `x` looks like `w`. -/
structure Undisturbed (A u : Pubkey) (w x : World) : Prop where
  clock : x.clock = w.clock
  states : x.states = w.states
  mints : x.mints = w.mints
  record : x.userStakes u = w.userStakes u
  accounts : SameOwn A u w.tokenAccounts x.tokenAccounts
  pool : x.pools A = w.pools A
  stakeVault : x.balance (.stakeVault A) = w.balance (.stakeVault A)
  rewardVault : x.balance (.rewardVault A) = w.balance (.rewardVault A)

section
variable {A B u : Pubkey} {tr : List Transition} {w w' x : World} {c d : Call} {l : Label}

theorem takes_eq_some {r : ℕ × ℕ} : takes A u c tr w = some r ↔ c.takesOut = some (A, u) ∧
    ∃ w', exec c w = .ok w' ∧ KeepsPool tr ⟨w, .ok c, w'⟩ ∧
      (returnedFrom A u ⟨w, .ok c, w'⟩, rewardedFrom A u ⟨w, .ok c, w'⟩) = r := by
  unfold takes
  cases hok : exec c w with
  | error e => simp
  | ok w' =>
    simp only [Option.ite_none_right_eq_some, Option.some.injEq, Except.ok.injEq, exists_eq_left']
    exact and_assoc

theorem Call.staker_of_takesOut (h : c.takesOut = some (A, u)) : c.staker = some (A, u) := by
  cases c with
  | unstake | claimRewards => exact h
  | _ => cases h

/-- What a call takes out is what its settlement pays. -/
theorem takesOut_settled (ho : Owned w.tokenAccounts) (h : exec c w = .ok w') (hc : c.takesOut = some (A, u)) :
    ∃ p t, c.settlement (w.userStake u) (p.updated w.clock).accruedPerShare = some t ∧ Settled A u t w w' p ∧
      t.staked = 0 ∧ returnedFrom A u ⟨w, .ok c, w'⟩ = t.returned ∧ rewardedFrom A u ⟨w, .ok c, w'⟩ = t.paid := by
  have hstaker := Call.staker_of_takesOut hc
  obtain ⟨p, t, ht, hs⟩ := exec_settled ho h hstaker
  have hstake := hs.stakeVault
  have hreward := hs.rewardVault
  have hpaid : rewardedFrom A u ⟨w, .ok c, w'⟩ = t.paid := by
    have hlabel : (Label.ok c).staker = some (A, u) := hstaker
    simp only [rewardedFrom, hlabel, if_true]
    omega
  refine ⟨p, t, ht, hs, ?_, ?_, hpaid⟩
  · cases c with
    | unstake | claimRewards => cases ht; rfl
    | _ => cases hc
  · cases c with
    | unstake ctx amount =>
      obtain ⟨rfl, rfl⟩ := Prod.mk.inj (Option.some.inj hc)
      cases ht
      have hvault : w'.balance (.stakeVault ctx.state) + amount = w.balance (.stakeVault ctx.state) := hstake
      simp only [returnedFrom, and_self, if_true]
      exact Nat.sub_eq_of_eq_add' hvault.symm
    | claimRewards => cases ht; rfl
    | _ => cases hc

theorem Undisturbed.sameFor {p : StakePool} (h : Undisturbed A u w x) (hp : w.pools A = some p)
    (hupdate : updatePool p w.clock = .ok (p.updated w.clock)) : SameFor A u w x :=
  ⟨h.clock, h.states, h.mints, h.record, h.accounts, p, p, hp, h.pool.trans hp, by rw [h.clock]; exact hupdate,
    by rw [h.clock]⟩

/-- What is taken out succeeds where the world looks the same. -/
theorem Undisturbed.replay (hx : Undisturbed A u w x) (ho : Owned w.tokenAccounts) (h : exec c w = .ok w')
    (hc : c.takesOut = some (A, u)) : ∃ x', exec c x = .ok x' := by
  obtain ⟨p, t, ht, hs, hstaked, -, -⟩ := takesOut_settled ho h hc
  have hsame := hx.sameFor hs.pool hs.updated
  obtain ⟨total, htotal, -⟩ := hs.pools
  have hstake := hs.stakeVault
  have hreward := hs.rewardVault
  have hpool := hx.pool.trans hs.pool
  rw [← hx.stakeVault] at hstake
  rw [← hx.rewardVault] at hreward
  cases c with
  | unstake ctx amount =>
    obtain ⟨rfl, rfl⟩ := Prod.mk.inj (Option.some.inj hc)
    cases ht
    have hamount : total + amount = p.totalStaked := htotal
    simp only at hstake hreward
    refine unstake_replay h hsame (by omega) ?_ ?_
    · rw [hs.pool]
      rintro _ ⟨⟩
      exact Nat.le_of_add_left_le hreward.le
    · rw [hpool]
      rintro _ ⟨⟩
      exact Nat.le_of_add_left_le hamount.le
  | claimRewards ctx =>
    obtain ⟨rfl, rfl⟩ := Prod.mk.inj (Option.some.inj hc)
    cases ht
    simp only at hreward
    refine claimRewards_replay h hsame ?_
    rw [hs.pool]
    rintro _ ⟨⟩
    exact Nat.le_of_add_left_le hreward.le
  | _ => cases hc

end

section
variable {A B u : Pubkey} {tr : List Transition} {w₀ w w' : World} {c d : Call} {l : Label}

/-- Where the world looks the same, the condition is the same and the balances of others are in order,
the same is taken out. -/
theorem Undisturbed.takes {tr' : List Transition} {x : World} {r : ℕ × ℕ} (hx : Undisturbed A u w x)
    (ho : Owned w.tokenAccounts) (hox : Owned x.tokenAccounts)
    (hkeep : c.takesOut = some (A, u) → KeepsPool tr ⟨w, .ok c, w⟩ → KeepsPool tr' ⟨x, .ok c, x⟩)
    (h : takes A u c tr w = some r) : Presale.takes A u c tr' x = some r := by
  obtain ⟨hc, w', hok, hk, rfl⟩ := takes_eq_some.1 h
  obtain ⟨x', hx'⟩ := hx.replay ho hok hc
  obtain ⟨p, t, ht, hs, -, hreturned, hpaid⟩ := takesOut_settled ho hok hc
  obtain ⟨q, t', ht', hs', -, hreturned', hpaid'⟩ := takesOut_settled hox hx' hc
  rw [(hx.sameFor hs.pool hs.updated).settlement c hs.pool hs'.pool, ht] at ht'
  cases ht'
  exact takes_eq_some.2 ⟨hc, x', hx', hkeep hc hk, by rw [hreturned, hpaid, hreturned', hpaid']⟩

/-- Nothing is taken out of an empty record. -/
theorem takes_empty (hzero : (w.userStake u).amount = 0) : takes A u c tr w = none := by
  rw [Option.eq_none_iff_forall_ne_some]
  intro r h
  obtain ⟨hc, w', hok, -, -⟩ := takes_eq_some.1 h
  cases c with
  | unstake ctx amount =>
    obtain ⟨rfl, rfl⟩ := Prod.mk.inj (Option.some.inj hc)
    obtain ⟨_, _, _, _, hu⟩ := unstake_ok hok
    have := hu.pos
    have := hu.amountLe
    rw [userStake_of hu.record] at hzero
    omega
  | claimRewards ctx =>
    obtain ⟨rfl, rfl⟩ := Prod.mk.inj (Option.some.inj hc)
    obtain ⟨_, _, _, _, hr⟩ := claimRewards_ok hok
    have hpos := hr.pos
    rw [userStake_of hr.record] at hzero
    rw [hr.paidEq, UserStake.pending, hzero, Nat.zero_mul, Nat.zero_div, Nat.zero_sub] at hpos
    exact absurd hpos (lt_irrefl 0)
  | _ => cases hc

/-- A record at home in two pools is empty. -/
theorem StakeHome.empty {s : UserStake} (h : StakeHome u tr s A) (h' : StakeHome u tr s B) (hne : B ≠ A) :
    s.amount = 0 := by
  have := h.others B hne
  have := h'.held
  omega

/-- A step that settles no record of `u` leaves the condition of the calls of `u`. -/
theorem keepsPool_snoc {x : Transition} {y : Transition} (hx : ∀ B, x.label.staker ≠ some (B, u))
    (hy : y.label.staker = some (A, u)) : KeepsPool (tr ++ [x]) y ↔ KeepsPool tr y := by
  have hflow : ∀ B, Runs.total (returnedFrom B u) (tr ++ [x]) = Runs.total (returnedFrom B u) tr ∧
      Runs.total (stakedInto B u) (tr ++ [x]) = Runs.total (stakedInto B u) tr := by
    intro B
    obtain ⟨hs, hr⟩ := no_stake_flow (hx B)
    simp [hs, hr]
  have hno : x.label.stakeOf u = none := by
    rcases x with ⟨s, l, t⟩
    cases l with
    | ok c =>
      cases c with
      | stake c =>
        have hu : c.user ≠ u := by
          rintro rfl
          exact hx c.state rfl
        exact if_neg hu
      | _ => rfl
    | _ => rfl
  simp only [KeepsPool, hy, Option.mem_some_iff, forall_eq', List.mem_append, List.mem_singleton, (hflow _).1, (hflow _).2]
  constructor
  · exact fun h z hz => h z (.inl hz)
  · rintro h z (hz | rfl)
    · exact h z hz
    · intro B hB
      rw [hno] at hB
      cases hB

/-- What leaves the sale, the pool of `A` with its vaults and the record of `u`, and at most changes
balances elsewhere, disturbs no unstake and no claim of `u`. -/
theorem SaleKept.undisturbed (hk : SaleKept w w') (hpool : w'.pools A = w.pools A)
    (hrecord : w'.userStakes u = w.userStakes u) (hforth : SameOwn A u w.tokenAccounts w'.tokenAccounts)
    (hback : SameOwn A u w'.tokenAccounts w.tokenAccounts)
    (hstake : w'.tokenAccounts (.stakeVault A) = w.tokenAccounts (.stakeVault A))
    (hreward : w'.tokenAccounts (.rewardVault A) = w.tokenAccounts (.rewardVault A)) :
    Undisturbed A u w w' ∧ Undisturbed A u w' w := by
  have hs : w'.balance (.stakeVault A) = w.balance (.stakeVault A) := by
    unfold World.balance
    rw [hstake]
  have hr : w'.balance (.rewardVault A) = w.balance (.rewardVault A) := by
    unfold World.balance
    rw [hreward]
  constructor
  · exact ⟨hk.clock, hk.states, hk.mints, hrecord, hforth, hpool, hs, hr⟩
  · exact ⟨hk.clock.symm, hk.states.symm, hk.mints.symm, hrecord.symm, hback, hpool.symm, hs.symm, hr.symm⟩

theorem PoolOpened.undisturbed {ctx : InitializeStaking} {rate : ℕ} {st : PresaleState}
    (h : PoolOpened ctx rate w w' st) (hne : ctx.state ≠ A) : Undisturbed A u w w' ∧ Undisturbed A u w' w := by
  have hother : ∀ a, a ≠ .stakeVault ctx.state → a ≠ .rewardVault ctx.state →
      w'.tokenAccounts a = w.tokenAccounts a := by
    intro a hs hr
    rw [h.tokenAccounts, Function.update_of_ne hr, Function.update_of_ne hs]
  refine h.kept.undisturbed ?_ (by rw [h.userStakes]) ?_ ?_ (hother _ (by simp [hne.symm]) (by simp))
    (hother _ (by simp) (by simp [hne.symm]))
  · rw [h.pools, Function.update_of_ne hne.symm]
  · -- no account was there before
    rintro a t ht -
    refine ⟨t.amount, ?_⟩
    rw [hother a ?_ ?_, ht]
    · rintro rfl
      rw [h.noStakeVault] at ht
      cases ht
    · rintro rfl
      rw [h.noRewardVault] at ht
      cases ht
  · -- the new vaults belong to the program
    rintro a t ht hown
    refine ⟨t.amount, ?_⟩
    rw [← hother a ?_ ?_, ht]
    · rintro rfl
      rw [h.tokenAccounts, Function.update_of_ne (by simp), Function.update_self] at ht
      cases ht
      simp [hne] at hown
    · rintro rfl
      rw [h.tokenAccounts, Function.update_self] at ht
      cases ht
      simp [hne] at hown

theorem RewardsFunded.undisturbed {ctx : FundRewardVault} {amount : ℕ} {st : PresaleState} {p : StakePool}
    (h : RewardsFunded ctx amount w w' st p) (ho : Owned w.tokenAccounts) (hne : ctx.state ≠ A) :
    Undisturbed A u w w' ∧ Undisturbed A u w' w := by
  refine h.kept.undisturbed ?_ (by rw [h.userStakes]) h.move.sameAccounts.own h.move.sameAccounts.symm.own ?_ ?_
  · rw [h.pools, Function.update_of_ne hne.symm]
  · exact h.move.other _ (ho.ne_source (isVault_stakeVault A) h.source) (by simp)
  · exact h.move.other _ (ho.ne_source (isVault_rewardVault A) h.source) (by simp [hne.symm])

theorem Settled.undisturbed {v : Pubkey} {t : Settlement} {p : StakePool} (h : Settled B v t w w' p)
    (ho : Owned w.tokenAccounts) (hne : B ≠ A) (hv : u ≠ v) : Undisturbed A u w w' ∧ Undisturbed A u w' w := by
  obtain ⟨total, -, hpools⟩ := h.pools
  refine h.kept.undisturbed ?_ ?_ h.accounts.own h.accounts.symm.own ?_ ?_
  · rw [hpools, Function.update_of_ne hne.symm]
  · rw [h.userStakes, Function.update_of_ne hv]
  · exact h.other _ (ho.ne_source (isVault_stakeVault A) h.target) (by simp [hne.symm]) (by simp)
  · exact h.other _ (ho.ne_source (isVault_rewardVault A) h.target) (by simp) (by simp [hne.symm])

/-- A call of another user on another pool disturbs no unstake and no claim of `u`. -/
theorem exec_undisturbed (ho : Owned w.tokenAccounts) (h : exec d w = .ok w') (hB : d.writesPool = some B) (hne : B ≠ A)
    (hu : ∀ C, d.staker ≠ some (C, u)) : Undisturbed A u w w' ∧ Undisturbed A u w' w := by
  have hsettle : ∀ v, d.staker = some (B, v) → Undisturbed A u w w' ∧ Undisturbed A u w' w := by
    intro v hv
    obtain ⟨p, t, -, hs⟩ := exec_settled ho h hv
    refine hs.undisturbed ho hne ?_
    rintro rfl
    exact hu B hv
  cases d with
  | initializeStaking ctx rate =>
    obtain rfl : ctx.state = B := Option.some.inj hB
    obtain ⟨_, hp⟩ := initializeStaking_ok h
    exact hp.undisturbed hne
  | fundRewardVault ctx amount =>
    obtain rfl : ctx.state = B := Option.some.inj hB
    obtain ⟨_, _, hf⟩ := fundRewardVault_ok h
    exact hf.undisturbed ho hne
  | stake ctx =>
    obtain rfl : ctx.state = B := Option.some.inj hB
    exact hsettle _ rfl
  | unstake ctx =>
    obtain rfl : ctx.state = B := Option.some.inj hB
    exact hsettle _ rfl
  | claimRewards ctx =>
    obtain rfl : ctx.state = B := Option.some.inj hB
    exact hsettle _ rfl
  | _ => cases hB

/-- A user at home in `B` takes nothing out of another pool under the condition. -/
theorem StakeHome.takes_none (h : StakeHome u tr (w.userStake u) B) (hne : B ≠ A) : takes A u c tr w = none := by
  rw [Option.eq_none_iff_forall_ne_some]
  intro r hr
  obtain ⟨hc, v, -, hkeep, -⟩ := takes_eq_some.1 hr
  have hthere := h.move (x := ⟨w, .ok c, v⟩) (Call.staker_of_takesOut hc) hkeep
  rw [takes_empty (hthere.empty h hne)] at hr
  cases hr

/-- An operation on another pool leaves what a call of `u` takes. -/
theorem Step.takes_kept {H : Pubkey} (ho : Owned w.tokenAccounts) (hH : StakeHome u tr (w.userStake u) H)
    (h : Step w l w') (hkeep : KeepsPool tr ⟨w, l, w'⟩) (hB : l.writesPool = some B) (hne : B ≠ A) :
    takes A u c (tr ++ [⟨w, l, w'⟩]) w' = takes A u c tr w := by
  by_cases hu : ∃ C, l.staker = some (C, u)
  · -- `u` settles with `B`: nothing of `u` is in `A`, before and after
    obtain ⟨C, hC⟩ := hu
    obtain rfl : C = B := Option.some.inj ((Label.writesPool_of_staker hC).symm.trans hB)
    have hbefore := hH.move hC hkeep
    have hafter := hbefore.settle ho h hC
    rw [hbefore.takes_none hne, hafter.takes_none hne]
  · have hother : ∀ C, l.staker ≠ some (C, u) := fun C hC => hu ⟨C, hC⟩
    have ho' := (h.frame ho).evolves.owned ho
    cases h with
    | failed => cases hB
    | outside => cases hB
    | @ok d _ _ _ hok =>
      obtain ⟨hforth, hback⟩ := exec_undisturbed ho hok hB hne hother
      have hcondition : ∀ {v v'}, c.takesOut = some (A, u) →
          (KeepsPool (tr ++ [⟨w, .ok d, w'⟩]) ⟨v, .ok c, v'⟩ ↔ KeepsPool tr ⟨v, .ok c, v'⟩) :=
        fun hc => keepsPool_snoc hother (Call.staker_of_takesOut hc)
      ext r
      constructor
      · intro hr
        exact hback.takes ho' ho (fun hc hk => (hcondition hc).1 hk) hr
      · intro hr
        exact hforth.takes ho ho' (fun hc hk => (hcondition hc).2 hk) hr

/-- Pools are isolated from each other in every run in which nobody settles with a pool before all
that was staked in another is returned: no pool returns a user more than the user staked in it, what
is left is the amount of the user's record, a step outside the pool leaves the pool and its vaults, and
an operation on another pool leaves what each unstake and each claim of any user takes. -/
theorem pools_isolated (h0 : Genesis w₀) (h : Run w₀ tr w) (hkeep : Runs.Along KeepsPool tr) (A u : Pubkey) :
    Runs.total (returnedFrom A u) tr ≤ Runs.total (stakedInto A u) tr ∧
      (Runs.total (returnedFrom A u) tr < Runs.total (stakedInto A u) tr →
        (w.userStake u).amount + Runs.total (returnedFrom A u) tr = Runs.total (stakedInto A u) tr) ∧
      ∀ l w', Step w l w' → KeepsPool tr ⟨w, l, w'⟩ →
        (l.writesPool ≠ some A → w'.pools A = w.pools A ∧ w.balance (.stakeVault A) ≤ w'.balance (.stakeVault A) ∧
          w.balance (.rewardVault A) ≤ w'.balance (.rewardVault A)) ∧
        ∀ B, l.writesPool = some B → B ≠ A → ∀ c, takes A u c (tr ++ [⟨w, l, w'⟩]) w' = takes A u c tr w := by
  obtain ⟨ho, hhome⟩ := h.stakeHome h0 hkeep
  obtain ⟨H, hH⟩ := hhome u
  refine ⟨hH.returned_le A, ?_, fun l w' hstep hk => ⟨fun hl => ?_, fun B hB hne c => ?_⟩⟩
  · intro hlt
    obtain rfl := hH.eq_of_lt hlt
    exact hH.held
  · have hframe := hstep.frame ho
    obtain ⟨hstake, hreward⟩ := Label.spends_own hl
    exact ⟨hframe.pools A hl, hframe.balance _ (isVault_stakeVault A) hstake,
      hframe.balance _ (isVault_rewardVault A) hreward⟩
  · exact hstep.takes_kept ho hH hk hB hne

end

/-- Two presales with a pool each. -/
def samplePools : List Act :=
  [.call (.initializePresale sampleCtx (sampleArgs 10)), sampleFund 1000,
    .call (.initializePresale ⟨100, 2, .key 2⟩ (sampleArgs 10)), .wait 15, sampleBuy 3 300 none,
    .call (.buyTokens ⟨2, 2, 100, .key 9⟩ 400 none), .wait 21, .call (.finalizePresale ⟨1, 1⟩),
    .call (.finalizePresale ⟨2, 2⟩), .call (.initializeStaking samplePool 2),
    .call (.initializeStaking ⟨2, 2, 100⟩ 2)]

/-- Wallet `3` stakes in the first pool and leaves it, then stakes in the second. -/
def sampleMoves : List Act :=
  samplePools ++ [sampleStake 3 10, sampleUnstake 3 10, .call (.stake ⟨2, 3, 100, .ata (.key 3) 100⟩ 20)]

/-- Wallet `3` stakes in the first pool and wallet `4` in the second, out of which `3` unstakes. -/
def sampleMixed : List Act :=
  samplePools ++ [sampleStake 3 10, .call (.stake ⟨2, 4, 100, .ata (.key 4) 100⟩ 10),
    .call (.unstake ⟨2, 3, 100, .ata (.key 3) 100⟩ 10)]

/-- Then the second pool is funded, and time passes. -/
def sampleNeighbours : List Act :=
  sampleMoves ++ [.call (.fundRewardVault ⟨2, 2, 100, .ata (.key 2) 100⟩ 50), .wait 40]

/-- Wallet `4` stakes in the first pool. -/
def sampleArrival : Call := .stake ⟨1, 4, 100, .ata (.key 4) 100⟩ 10

/-- Wallet `3` takes its stake out of the second pool. -/
def sampleLeaving : Call := .unstake ⟨2, 3, 100, .ata (.key 3) 100⟩ 20

theorem pools_isolated_sample :
    Runs.total (returnedFrom 1 3) (steps sampleWorld sampleNeighbours) ≤
      Runs.total (stakedInto 1 3) (steps sampleWorld sampleNeighbours) ∧
    ((play sampleWorld sampleNeighbours).userStake 3).amount +
        Runs.total (returnedFrom 2 3) (steps sampleWorld sampleNeighbours) =
      Runs.total (stakedInto 2 3) (steps sampleWorld sampleNeighbours) ∧
    takes 2 3 sampleLeaving (steps sampleWorld sampleNeighbours ++ [⟨play sampleWorld sampleNeighbours,
        .ok sampleArrival, play (play sampleWorld sampleNeighbours) [.call sampleArrival]⟩])
        (play (play sampleWorld sampleNeighbours) [.call sampleArrival]) =
      takes 2 3 sampleLeaving (steps sampleWorld sampleNeighbours) (play sampleWorld sampleNeighbours) ∧
    takes 2 3 sampleLeaving (steps sampleWorld sampleNeighbours) (play sampleWorld sampleNeighbours) = some (20, 38) := by
  have hrun : Run sampleWorld (steps sampleWorld sampleNeighbours) (play sampleWorld sampleNeighbours) :=
    play_run (by decide +kernel)
  have hkeep : Runs.Along KeepsPool (steps sampleWorld sampleNeighbours) := by decide +kernel
  have harrives : Step (play sampleWorld sampleNeighbours) (.ok sampleArrival)
      (play (play sampleWorld sampleNeighbours) [.call sampleArrival]) := .ok (by decide) (exec_of_play (by decide +kernel))
  obtain ⟨-, hleft, htakes⟩ := pools_isolated sampleWorld_genesis hrun hkeep 2 3
  refine ⟨(pools_isolated sampleWorld_genesis hrun hkeep 1 3).1, hleft (by decide +kernel), ?_, by decide +kernel⟩
  exact (htakes _ _ harrives (by decide +kernel)).2 1 rfl (by decide) sampleLeaving

/-- A user who staked nothing in the second pool is returned another user's stake out of it. -/
theorem pools_mixed : Genesis sampleWorld ∧
    Run sampleWorld (steps sampleWorld sampleMixed) (play sampleWorld sampleMixed) ∧
    Runs.total (stakedInto 2 3) (steps sampleWorld sampleMixed) = 0 ∧
    Runs.total (returnedFrom 2 3) (steps sampleWorld sampleMixed) = 10 :=
  ⟨sampleWorld_genesis, play_run (by decide +kernel), by decide +kernel, by decide +kernel⟩

end Presale

/-
The life of a presale: the calls on it come in phases that are never gone back to, each after what it
needs; and while it is paused nothing is sold, claimed or staked in it.
-/
import Presale.Lib.Order
import Presale.System.Authority
import Presale.System.Ranges

namespace Presale

open World

/-! ## Phases -/

/-- The phases of a presale. -/
inductive Phase where
  | launch | funding | sale | settlement
  deriving DecidableEq

def Phase.rank : Phase → ℕ
  | .launch => 0
  | .funding => 1
  | .sale => 2
  | .settlement => 3

/-- What may happen after what: a later phase or the same one, and a launch only once. -/
def Phase.next (p q : Phase) : Prop := p.rank ≤ q.rank ∧ q ≠ .launch

/-- The presale a call belongs to, and the phase it belongs in. Claims come whenever their buyer's
schedule lets them; pauses, locks and what the admin does about the pool have no phase. -/
def Call.phase : Call → Option (Pubkey × Phase)
  | .initializePresale ctx _ => some (ctx.admin, .launch)
  | .fundPresaleVault ctx _ => some (ctx.state, .funding)
  | .buyTokens ctx _ _ => some (ctx.state, .sale)
  | .claimRefund ctx => some (ctx.state, .settlement)
  | .finalizePresale ctx => some (ctx.state, .settlement)
  | .withdrawFunds ctx => some (ctx.state, .settlement)
  | .withdrawUnsold ctx => some (ctx.state, .settlement)
  | .stake ctx _ => some (ctx.state, .settlement)
  | .unstake ctx _ => some (ctx.state, .settlement)
  | .claimRewards ctx => some (ctx.state, .settlement)
  | _ => none

/-- The phase in the presale of `A` of the call a step makes. -/
def Label.phase (A : Pubkey) (l : Label) : Option Phase :=
  match l.footprint Call.phase none with
  | some (B, p) => if B = A then some p else none
  | none => none

/-- When a phase of the presale of `A` has been reached. -/
def Phase.Reached (A : Pubkey) : Phase → World → Prop
  | .launch, w => ∃ st, w.states A = some st
  | .funding, w => ∃ st, w.states A = some st
  | .sale, w => ∃ st, w.states A = some st ∧ st.startTime ≤ w.clock
  | .settlement, w => ∃ st, w.states A = some st ∧ st.endTime < w.clock

/-- The presale a call finalizes. -/
def Call.finalizes : Call → Option Pubkey
  | .finalizePresale ctx => some ctx.state
  | _ => none

/-- The presale a call pauses or unpauses. -/
def Call.pauses : Call → Option (Pubkey × Bool)
  | .togglePause ctx paused => some (ctx.state, paused)
  | _ => none

def Label.finalizes (l : Label) : Option Pubkey := l.footprint Call.finalizes none
def Label.pauses (l : Label) : Option (Pubkey × Bool) := l.footprint Call.pauses none

section
variable {A : Pubkey} {w w' : World} {l : Label} {p : Phase} {st : PresaleState}

theorem Label.phase_eq (h : l.phase A = some p) : ∃ c, l = .ok c ∧ c.phase = some (A, p) := by
  cases l with
  | ok c =>
    unfold Label.phase Label.footprint at h
    simp only at h
    split at h
    · rename_i B q hc
      split at h
      · rename_i hB
        cases h
        exact ⟨c, rfl, hB ▸ hc⟩
      · cases h
    · cases h
  | failed => cases h
  | outside => cases h

/-- What a call of a phase finds: the launch nothing, the others the presale, at their time. -/
theorem exec_phase {c : Call} (h : exec c w = .ok w') (hc : c.phase = some (A, p)) :
    (p = .launch ∧ w.states A = none ∧ ∃ st, w'.states A = some st) ∨
    ∃ st, w.states A = some st ∧ (p = .funding ∧ w.clock < st.startTime ∨
      p = .sale ∧ st.startTime ≤ w.clock ∧ w.clock ≤ st.endTime ∨ p = .settlement ∧ st.endTime < w.clock) := by
  cases c with
  | initializePresale =>
    obtain ⟨rfl, rfl⟩ := Prod.mk.inj (Option.some.inj hc)
    have hl := initializePresale_ok h
    exact .inl ⟨rfl, hl.fresh, _, by rw [hl.states, Function.update_self]⟩
  | fundPresaleVault =>
    obtain ⟨rfl, rfl⟩ := Prod.mk.inj (Option.some.inj hc)
    obtain ⟨st, hf⟩ := fundPresaleVault_ok h
    exact .inr ⟨st, hf.state, .inl ⟨rfl, hf.early⟩⟩
  | buyTokens =>
    obtain ⟨rfl, rfl⟩ := Prod.mk.inj (Option.some.inj hc)
    obtain ⟨st, _, _, _, _, hb⟩ := buyTokens_ok h
    exact .inr ⟨st, hb.state, .inr (.inl ⟨rfl, hb.window⟩)⟩
  | claimRefund =>
    obtain ⟨rfl, rfl⟩ := Prod.mk.inj (Option.some.inj hc)
    obtain ⟨st, _, hr⟩ := claimRefund_ok h
    exact .inr ⟨st, hr.state, .inr (.inr ⟨rfl, hr.ended⟩)⟩
  | finalizePresale =>
    obtain ⟨rfl, rfl⟩ := Prod.mk.inj (Option.some.inj hc)
    obtain ⟨st, hs, -, -, hended⟩ := finalizePresale_ok h
    exact .inr ⟨st, hs.state, .inr (.inr ⟨rfl, hended⟩)⟩
  | withdrawFunds =>
    obtain ⟨rfl, rfl⟩ := Prod.mk.inj (Option.some.inj hc)
    obtain ⟨st, hw⟩ := withdrawFunds_ok h
    exact .inr ⟨st, hw.state, .inr (.inr ⟨rfl, hw.ended⟩)⟩
  | withdrawUnsold =>
    obtain ⟨rfl, rfl⟩ := Prod.mk.inj (Option.some.inj hc)
    obtain ⟨st, _, hu⟩ := withdrawUnsold_ok h
    exact .inr ⟨st, hu.state, .inr (.inr ⟨rfl, hu.ended⟩)⟩
  | stake =>
    obtain ⟨rfl, rfl⟩ := Prod.mk.inj (Option.some.inj hc)
    obtain ⟨st, _, hs⟩ := stake_ok h
    exact .inr ⟨st, hs.state, .inr (.inr ⟨rfl, hs.allowed.ended⟩)⟩
  | unstake =>
    obtain ⟨rfl, rfl⟩ := Prod.mk.inj (Option.some.inj hc)
    obtain ⟨st, _, _, _, hu⟩ := unstake_ok h
    exact .inr ⟨st, hu.state, .inr (.inr ⟨rfl, hu.allowed.ended⟩)⟩
  | claimRewards =>
    obtain ⟨rfl, rfl⟩ := Prod.mk.inj (Option.some.inj hc)
    obtain ⟨st, _, _, _, hcl⟩ := claimRewards_ok h
    exact .inr ⟨st, hcl.state, .inr (.inr ⟨rfl, hcl.allowed.ended⟩)⟩
  | _ => cases hc

/-- A presale keeps its window; only `finalize_presale` ends it, and only `toggle_pause` pauses it. -/
theorem Step.flags (ho : Owned w.tokenAccounts) (h : Step w l w') (hst : w.states A = some st) :
    ∃ st', w'.states A = some st' ∧ st'.startTime = st.startTime ∧ st'.endTime = st.endTime ∧
      (st'.isActive = st.isActive ∨ l.finalizes = some A) ∧
      (st'.isPaused = st.isPaused ∨ l.pauses = some (A, st'.isPaused)) := by
  by_cases hl : l.writesState = some A
  · cases h with
    | failed => cases hl
    | outside => cases hl
    | @ok c _ _ _ hok =>
      cases c with
      | initializePresale ctx args =>
        obtain rfl : ctx.admin = A := Option.some.inj hl
        rw [(initializePresale_ok hok).fresh] at hst
        cases hst
      | buyTokens ctx =>
        obtain rfl : ctx.state = A := Option.some.inj hl
        obtain ⟨st₁, _, wk, solUsed, bonus, hb⟩ := buyTokens_ok hok
        obtain rfl : st₁ = st := Option.some.inj (hb.state.symm.trans hst)
        exact ⟨st₁.bought wk solUsed bonus, by rw [hb.states, Function.update_self], rfl, rfl, .inl rfl, .inl rfl⟩
      | togglePause ctx paused =>
        obtain rfl : ctx.state = A := Option.some.inj hl
        obtain ⟨st₁, hf, -⟩ := togglePause_ok hok
        obtain rfl : st₁ = st := Option.some.inj (hf.state.symm.trans hst)
        exact ⟨st₁.withFlags st₁.isActive paused st₁.adminActionsLockedUntil, by rw [hf.states, Function.update_self], rfl,
          rfl, .inl rfl, .inr rfl⟩
      | finalizePresale ctx =>
        obtain rfl : ctx.state = A := Option.some.inj hl
        obtain ⟨st₁, hf, -⟩ := finalizePresale_ok hok
        obtain rfl : st₁ = st := Option.some.inj (hf.state.symm.trans hst)
        exact ⟨st₁.withFlags false st₁.isPaused st₁.adminActionsLockedUntil, by rw [hf.states, Function.update_self], rfl,
          rfl, .inr rfl, .inl rfl⟩
      | setAdminActionsLock ctx lock =>
        obtain rfl : ctx.state = A := Option.some.inj hl
        obtain ⟨st₁, hf, -⟩ := setAdminActionsLock_ok hok
        obtain rfl : st₁ = st := Option.some.inj (hf.state.symm.trans hst)
        exact ⟨st₁.withFlags st₁.isActive st₁.isPaused lock, by rw [hf.states, Function.update_self], rfl, rfl, .inl rfl, .inl rfl⟩
      | _ => cases hl
  · exact ⟨st, ((h.frame ho).states A hl).trans hst, rfl, rfl, .inl rfl, .inl rfl⟩

/-- Staking in the pool of a presale succeeds when the presale allows it. -/
theorem Step.stakingAllowed (h : Step w l w') (hl : l.writesStake = some A) :
    ∃ st, w.states A = some st ∧ st.StakingAllowed w.clock := by
  cases h with
  | failed => cases hl
  | outside => cases hl
  | @ok c _ _ _ hok =>
    cases c with
    | stake =>
      obtain ⟨st, _, hs⟩ := stake_ok hok
      exact ⟨st, Option.some.inj hl ▸ hs.state, hs.allowed⟩
    | unstake =>
      obtain ⟨st, _, _, _, hu⟩ := unstake_ok hok
      exact ⟨st, Option.some.inj hl ▸ hu.state, hu.allowed⟩
    | claimRewards =>
      obtain ⟨st, _, _, _, hc⟩ := claimRewards_ok hok
      exact ⟨st, Option.some.inj hl ▸ hc.state, hc.allowed⟩
    | _ => cases hl

/-- A presale goes through its phases. -/
theorem phased (A : Pubkey) : Runs.Phased Step (fun w => Owned w.tokenAccounts ∧ w.WF) (Label.phase A)
    (Phase.Reached A) Phase.next := by
  have hkept : ∀ {w l w'} {st : PresaleState}, Owned w.tokenAccounts → Step w l w' → w.states A = some st →
      ∃ st', w'.states A = some st' ∧ st'.startTime = st.startTime ∧ st'.endTime = st.endTime := by
    intro w l w' st ho hs hst
    obtain ⟨st', hst', hstart, hend, -⟩ := hs.flags ho hst
    exact ⟨st', hst', hstart, hend⟩
  constructor
  · rintro w l w' ⟨ho, hwf⟩ hs
    exact ⟨(hs.frame ho).evolves.owned ho, hwf.step hs⟩
  · rintro w l w' p ⟨ho, -⟩ hs hp
    obtain ⟨c, rfl, hc⟩ := Label.phase_eq hp
    have hclock := (hs.frame ho).clock
    cases hs with
    | ok hr hok =>
      rcases exec_phase hok hc with ⟨rfl, -, hst'⟩ | ⟨st, hst, hphase⟩
      · exact hst'
      · obtain ⟨st', hst', hstart, hend⟩ := hkept ho (.ok hr hok) hst
        rcases hphase with ⟨rfl, -⟩ | ⟨rfl, hopen, -⟩ | ⟨rfl, hended⟩
        · exact ⟨st', hst'⟩
        · exact ⟨st', hst', by omega⟩
        · exact ⟨st', hst', by omega⟩
  · rintro w l w' p ⟨ho, -⟩ hs hreached
    have hclock := (hs.frame ho).clock
    cases p with
    | launch | funding =>
      obtain ⟨st, hst⟩ := hreached
      obtain ⟨st', hst', -⟩ := hkept ho hs hst
      exact ⟨st', hst'⟩
    | sale | settlement =>
      obtain ⟨st, hst, htime⟩ := hreached
      obtain ⟨st', hst', hstart, hend⟩ := hkept ho hs hst
      exact ⟨st', hst', by omega⟩
  · rintro w l w' p q ⟨-, hwf⟩ hs hreached hq
    obtain ⟨c, rfl, hc⟩ := Label.phase_eq hq
    have hsome : ∃ st, w.states A = some st := by
      cases p with
      | launch | funding => exact hreached
      | sale | settlement =>
        obtain ⟨st, hst, -⟩ := hreached
        exact ⟨st, hst⟩
    obtain ⟨st, hst⟩ := hsome
    have hwindow := (hwf.states A st hst).window.2.2
    cases hs with
    | ok hr hok =>
      rcases exec_phase hok hc with ⟨-, hnone, -⟩ | ⟨st', hst', hphase⟩
      · rw [hnone] at hst; cases hst
      obtain rfl := Option.some.inj (hst.symm.trans hst')
      -- the time of the event against that of the phase reached
      cases p with
      | launch | funding =>
        rcases hphase with ⟨rfl, -⟩ | ⟨rfl, -⟩ | ⟨rfl, -⟩ <;> exact ⟨by simp [Phase.rank], by simp⟩
      | sale =>
        obtain ⟨st', hst', htime⟩ := hreached
        obtain rfl := Option.some.inj (hst.symm.trans hst')
        rcases hphase with ⟨rfl, hearly⟩ | ⟨rfl, -⟩ | ⟨rfl, -⟩
        · omega
        all_goals exact ⟨by simp [Phase.rank], by simp⟩
      | settlement =>
        obtain ⟨st', hst', htime⟩ := hreached
        obtain rfl := Option.some.inj (hst.symm.trans hst')
        rcases hphase with ⟨rfl, hearly⟩ | ⟨rfl, -, hopen⟩ | ⟨rfl, -⟩
        · omega
        · omega
        · exact ⟨le_rfl, by simp⟩

/-- A presale that is there has been launched. -/
theorem launched_before {w₀ : World} {tr : List Transition} (h0 : Genesis w₀) (h : Run w₀ tr w)
    (hst : ∃ st, w.states A = some st) : ∃ x ∈ tr, x.label.phase A = some .launch := by
  refine Runs.Run.caused (I := fun w => Owned w.tokenAccounts) (D := fun w => ∃ st, w.states A = some st)
    (C := fun l => l.phase A = some .launch) h h0.owned ?_ ?_ ?_ hst
  · rintro ⟨st, hst⟩
    rw [h0.states A] at hst
    cases hst
  · intro w l w' ho hs
    exact (hs.frame ho).evolves.owned ho
  · rintro w l w' ho hs ⟨st', hst'⟩
    cases hs.stateStep ho A with
    | launch hA => exact .inr (by simp [Label.phase, Label.footprint, Call.phase, hA])
    | buy hA hb => exact .inl ⟨_, hA ▸ hb.state⟩
    | flags hf => exact .inl ⟨_, hf.state⟩
    | kept hk => exact .inl ⟨st', hk ▸ hst'⟩

/-- A presale that is not active has been finalized. -/
theorem finalized_before {w₀ : World} {tr : List Transition} (h0 : Genesis w₀) (h : Run w₀ tr w)
    (hst : ∃ st, w.states A = some st ∧ ¬ st.isActive) : ∃ x ∈ tr, x.label.finalizes = some A := by
  refine Runs.Run.caused (I := fun w => Owned w.tokenAccounts)
    (D := fun w => ∃ st, w.states A = some st ∧ ¬ st.isActive) (C := fun l => l.finalizes = some A) h h0.owned
    ?_ ?_ ?_ hst
  · rintro ⟨st, hst, -⟩
    rw [h0.states A] at hst
    cases hst
  · intro w l w' ho hs
    exact (hs.frame ho).evolves.owned ho
  · rintro w l w' ho hs ⟨st', hst', hactive⟩
    rcases hw : w.states A with _ | st
    · -- a launch leaves the presale active
      cases hs.stateStep ho A with
      | launch hA hl =>
        rw [hl.states, hA, Function.update_self] at hst'
        cases hst'
        exact absurd rfl hactive
      | buy hA hb => rw [← hA, hb.state] at hw; cases hw
      | flags hf => rw [hf.state] at hw; cases hw
      | kept hk => rw [hk, hw] at hst'; cases hst'
    · obtain ⟨st'', hst'', -, -, hsame | hfin, -⟩ := hs.flags ho hw
      · obtain rfl := Option.some.inj (hst''.symm.trans hst')
        exact .inl ⟨st, rfl, by rwa [← hsame]⟩
      · exact .inr hfin

/-- In every run the calls that succeed on a presale come in the order of its phases: the launch, once,
then fundings of its vault, then purchases, then refunds, withdrawals, its finalization and staking; each
of them after the launch, and staking after a finalization. -/
theorem run_in_phases {w₀ : World} {tr : List Transition} (h0 : Genesis w₀) (h : Run w₀ tr w) (A : Pubkey) :
    (tr.filterMap fun x => x.label.phase A).Pairwise Phase.next ∧
    ∀ pre x post, tr = pre ++ x :: post →
      (∀ p ∈ x.label.phase A, p ≠ .launch → ∃ y ∈ pre, y.label.phase A = some .launch) ∧
      (x.label.writesStake = some A → ∃ y ∈ pre, y.label.finalizes = some A) := by
  constructor
  · have hwf : Owned w₀.tokenAccounts ∧ w₀.WF := ⟨h0.owned, h0.wf⟩
    exact (phased A).pairwise h hwf
  · rintro pre x post rfl
    obtain ⟨hpre, hstep, -⟩ := h.split
    constructor
    · intro p hp hne
      obtain ⟨c, hl, hc⟩ := Label.phase_eq hp
      rw [hl] at hstep
      cases hstep with
      | ok _ hok =>
        rcases exec_phase hok hc with ⟨rfl, -⟩ | ⟨st, hst, -⟩
        · exact absurd rfl hne
        · exact launched_before h0 hpre ⟨st, hst⟩
    · intro hstake
      obtain ⟨st, hst, hallowed⟩ := hstep.stakingAllowed hstake
      exact finalized_before h0 hpre ⟨st, hst, hallowed.finalized⟩

end

/-- The small presale, to its end and into the use of its pool. -/
theorem run_in_phases_sample :
    ((steps sampleWorld sampleStaking).filterMap fun x => x.label.phase 1).Pairwise Phase.next ∧
    ∃ pre x, steps sampleWorld sampleStaking = pre ++ [x] ∧ x.label.writesStake = some 1 ∧
      (∃ y ∈ pre, y.label.phase 1 = some .launch) ∧ ∃ y ∈ pre, y.label.finalizes = some 1 := by
  have hrun : Run sampleWorld (steps sampleWorld sampleStaking) (play sampleWorld sampleStaking) :=
    play_run (by decide +kernel)
  obtain ⟨horder, hafter⟩ := run_in_phases sampleWorld_genesis hrun 1
  have hlast : (steps sampleWorld sampleStaking).getLast?.any (fun x => decide (x.label.writesStake = some 1 ∧
      x.label.phase 1 = some .settlement)) = true := by decide +kernel
  obtain ⟨x, hx, hlabel⟩ := (Option.any_eq_true _ _).1 hlast
  obtain ⟨hstake, hphase⟩ := of_decide_eq_true hlabel
  have hsplit := (List.dropLast_append_getLast? x hx).symm
  obtain ⟨hlaunch, hfinal⟩ := hafter _ x [] hsplit
  exact ⟨horder, _, x, hsplit, hstake, hlaunch _ hphase nofun, hfinal hstake⟩

/-! ## Pauses -/

/-- The presale a call buys from, claims from or stakes with. -/
def Call.serves : Call → Option Pubkey
  | .buyTokens ctx _ _ => some ctx.state
  | .claimVested ctx => some ctx.state
  | .stake ctx _ => some ctx.state
  | .unstake ctx _ => some ctx.state
  | .claimRewards ctx => some ctx.state
  | _ => none

def Label.serves (l : Label) : Option Pubkey := l.footprint Call.serves none

/-- What a pause lets happen to the pool of `A`: its rewards can be funded, and nothing leaves it. -/
structure Untouched (A : Pubkey) (w w' : World) : Prop where
  stakeVault : w.balance (.stakeVault A) ≤ w'.balance (.stakeVault A)
  rewardVault : w.balance (.rewardVault A) ≤ w'.balance (.rewardVault A)
  pool : ∀ p ∈ w.pools A, ∃ more, w'.pools A = some { p with remainingRewards := p.remainingRewards + more }

section
variable {A : Pubkey} {w w' w'' : World} {l : Label} {st : PresaleState} {tr : List Transition}

theorem Untouched.refl (A : Pubkey) (w : World) : Untouched A w w := ⟨le_rfl, le_rfl, fun _ hp => ⟨0, hp⟩⟩

theorem Untouched.trans (h : Untouched A w w') (h' : Untouched A w' w'') : Untouched A w w'' := by
  refine ⟨h.stakeVault.trans h'.stakeVault, h.rewardVault.trans h'.rewardVault, fun p hp => ?_⟩
  obtain ⟨n, hn⟩ := h.pool p hp
  obtain ⟨k, hk⟩ := h'.pool _ hn
  exact ⟨n + k, by rw [hk, Nat.add_assoc]⟩

/-- Nobody is served while the presale is paused. -/
theorem Step.serves_unpaused (h : Step w l w') (hl : l.serves = some A) : ∃ st, w.states A = some st ∧ ¬ st.isPaused := by
  cases h with
  | failed => cases hl
  | outside => cases hl
  | @ok c _ _ hr hok =>
    cases c with
    | buyTokens =>
      obtain ⟨st, _, _, _, _, hb⟩ := buyTokens_ok hok
      exact ⟨st, Option.some.inj hl ▸ hb.state, hb.active.2⟩
    | claimVested =>
      obtain ⟨st, _, _, hc⟩ := claimVested_ok hok
      exact ⟨st, Option.some.inj hl ▸ hc.state, hc.notPaused⟩
    | stake | unstake | claimRewards =>
      obtain ⟨st, hst, hallowed⟩ := Step.stakingAllowed (A := A) (.ok hr hok) hl
      exact ⟨st, hst, hallowed.notPaused⟩
    | _ => cases hl

/-- A step with a paused presale serves nobody in it, sets no more than its flags, leaves its pool alone,
and takes tokens from its vault only as unsold ones. -/
theorem Step.paused (ho : Owned w.tokenAccounts) (h : Step w l w') (hst : w.states A = some st) (hpaused : st.isPaused) :
    l.serves ≠ some A ∧ (∃ active paused lock, w'.states A = some (st.withFlags active paused lock)) ∧
      Untouched A w w' ∧ (w'.balance (.tokenVault A) < w.balance (.tokenVault A) →
        ∃ ctx, l = .ok (.withdrawUnsold ctx) ∧ ctx.state = A) := by
  have hf := h.frame ho
  have hnobody : l.serves ≠ some A := by
    intro hl
    obtain ⟨st', hst', hopen⟩ := h.serves_unpaused hl
    obtain rfl := Option.some.inj (hst.symm.trans hst')
    exact hopen hpaused
  refine ⟨hnobody, ?_, ⟨?_, ?_, ?_⟩, ?_⟩
  · cases h.stateStep ho A with
    | launch hA hl => rw [← hA, hl.fresh] at hst; cases hst
    | buy hA hb => exact absurd (congrArg some hA) hnobody
    | @flags _ _ st' active paused lock hs _ =>
      obtain rfl := Option.some.inj (hst.symm.trans hs.state)
      exact ⟨active, paused, lock, by rw [hs.states, Function.update_self]⟩
    | kept hk => exact ⟨st.isActive, st.isPaused, st.adminActionsLockedUntil, hk.trans hst⟩
  · by_contra hlt
    obtain ⟨c, rfl, hc⟩ := hf.spends (isVault_stakeVault A) (Nat.lt_of_not_le hlt)
    obtain ⟨ctx, amount, rfl, rfl⟩ := spends_stakeVault hc
    exact hnobody rfl
  · by_contra hlt
    obtain ⟨c, rfl, hc⟩ := hf.spends (isVault_rewardVault A) (Nat.lt_of_not_le hlt)
    rcases spends_rewardVault hc with ⟨ctx, amount, rfl, rfl⟩ | ⟨ctx, rfl, rfl⟩ <;> exact hnobody rfl
  · intro p hp
    rw [Option.mem_def] at hp
    cases h.poolChange ho A with
    | opened hA hopened => rw [← hA, hopened.fresh] at hp; cases hp
    | @fund ctx amount _ _ q hA hfund =>
      obtain rfl := Option.some.inj (hp.symm.trans (hA ▸ hfund.pool))
      exact ⟨amount, by rw [hfund.pools, hA, Function.update_self]⟩
    | settled hl =>
      obtain ⟨st', hst', hallowed⟩ := h.stakingAllowed hl
      obtain rfl := Option.some.inj (hst.symm.trans hst')
      exact absurd hpaused hallowed.notPaused
    | kept _ hk => exact ⟨0, hk.trans hp⟩
  · intro hlt
    obtain ⟨c, rfl, hc⟩ := hf.spends (isVault_tokenVault A) hlt
    rcases spends_tokenVault hc with ⟨ctx, rfl, rfl⟩ | ⟨ctx, n, r, rfl, rfl⟩ | ⟨ctx, rfl, rfl⟩
    · exact absurd rfl hnobody
    · exact absurd rfl hnobody
    · exact ⟨ctx, rfl, rfl⟩

/-- From a pause until someone lifts it, whatever is called, the presale keeps its record but for the
admin's flags, nobody buys, claims, stakes or unstakes in it, nothing leaves its stake and reward vaults,
only funding changes its pool's record, and tokens leave its token vault only as unsold ones. The rewards of
the paused span are released by the first call after it. -/
theorem run_paused {w₀ : World} {pre : List Transition} (h0 : Genesis w₀) (hpre : Run w₀ pre w)
    (hst : w.states A = some st) (hpaused : st.isPaused) (h : Run w tr w')
    (hkeep : ∀ x ∈ tr, x.label.pauses ≠ some (A, false)) :
    (∃ active lock, w'.states A = some (st.withFlags active true lock)) ∧ Untouched A w w' ∧
      ∀ x ∈ tr, x.label.serves ≠ some A ∧ (x.after.balance (.tokenVault A) < x.before.balance (.tokenVault A) →
        ∃ ctx, x.label = .ok (.withdrawUnsold ctx) ∧ ctx.state = A) := by
  have ho := hpre.owned h0.owned
  refine (Runs.Run.induct (P := fun x => x.label.pauses ≠ some (A, false))
    (J := fun tr w' => Owned w'.tokenAccounts ∧ (∃ active lock, w'.states A = some (st.withFlags active true lock)) ∧
      Untouched A w w' ∧ ∀ x ∈ tr, x.label.serves ≠ some A ∧
        (x.after.balance (.tokenVault A) < x.before.balance (.tokenVault A) →
          ∃ ctx, x.label = .ok (.withdrawUnsold ctx) ∧ ctx.state = A))
    ⟨ho, ?_, .refl A w, fun x hx => absurd hx List.not_mem_nil⟩ ?_ h hkeep).2
  · refine ⟨st.isActive, st.adminActionsLockedUntil, ?_⟩
    rw [hst, ← hpaused]
    rfl
  · rintro tr s l t - ⟨ho, ⟨active, lock, hs⟩, huntouched, hsteps⟩ hstep hl
    obtain ⟨hnobody, ⟨active', paused', lock', ht⟩, hnext, htokens⟩ := hstep.paused ho hs rfl
    have hstill : paused' = true := by
      obtain ⟨st', hst', -, -, -, hsame | hset⟩ := hstep.flags ho hs
      · obtain rfl := Option.some.inj (ht.symm.trans hst')
        exact hsame
      · obtain rfl := Option.some.inj (ht.symm.trans hst')
        cases paused' with
        | true => rfl
        | false => exact absurd hset hl
    subst hstill
    refine ⟨(hstep.frame ho).evolves.owned ho, ⟨active', lock', ht⟩, huntouched.trans hnext, fun x hx => ?_⟩
    rcases List.mem_append.1 hx with hx | hx
    · exact hsteps x hx
    · rw [List.mem_singleton.1 hx]
      exact ⟨hnobody, htokens⟩

end

/-- The pool of wallet `1` is in use when it pauses the presale. -/
def samplePaused : List Act := sampleStaking ++ [.call (.togglePause ⟨1, 1⟩ true)]

/-- A staker and a buyer are turned away; the pool is funded and the unsold tokens go. -/
def sampleHeld : List Act :=
  [.wait 60, sampleClaim 2, sampleUnstake 2 5, .call (.claimVested ⟨1, 3, 100⟩), sampleReward 50,
    .call (.withdrawUnsold ⟨1, 1, 100⟩)]

theorem run_paused_sample :
    Untouched 1 (play sampleWorld samplePaused) (play (play sampleWorld samplePaused) sampleHeld) ∧
    ∀ x ∈ steps (play sampleWorld samplePaused) sampleHeld, x.label.serves ≠ some 1 := by
  have hsome : ((play sampleWorld samplePaused).states 1).any (fun st => decide st.isPaused) = true := by decide +kernel
  obtain ⟨st, hst, hpaused⟩ := (Option.any_eq_true _ _).1 hsome
  have hheld : Run (play sampleWorld samplePaused) (steps (play sampleWorld samplePaused) sampleHeld)
      (play (play sampleWorld samplePaused) sampleHeld) := play_run (by decide +kernel)
  obtain ⟨-, huntouched, hsteps⟩ := run_paused sampleWorld_genesis (play_run (by decide +kernel)) hst
    (of_decide_eq_true hpaused) hheld
    (by decide +kernel)
  exact ⟨huntouched, fun x hx => (hsteps x hx).1⟩

end Presale

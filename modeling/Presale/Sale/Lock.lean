/-
The administrator's time lock: the four calls it gates read one stored timestamp, which a later
lock call may set to another moment, earlier or later, as long as that is still to come.
-/
import Presale.Program.Script
import Presale.Steps.Sale

namespace Presale

open World

/-! ## The gate -/

/-- The presale of a call that the action lock gates. -/
def Label.gated : Label → Option Pubkey
  | .ok (.togglePause ctx _) => some ctx.state
  | .ok (.finalizePresale ctx) => some ctx.state
  | .ok (.withdrawFunds ctx) => some ctx.state
  | .ok (.withdrawUnsold ctx) => some ctx.state
  | _ => none

/-- The actions of `A` are locked until `T` at least. -/
def LockedUntil (A : Pubkey) (T : ℤ) (w : World) : Prop := ∃ st, w.states A = some st ∧ T ≤ st.adminActionsLockedUntil

/-- A lock call on `A` names `T` or a later moment. -/
def LocksFrom (A : Pubkey) (T : ℤ) (x : Transition) : Prop := ∀ c ∈ x.label.setsLock, c.1 = A → T ≤ c.2

instance (A : Pubkey) (T : ℤ) (x : Transition) : Decidable (LocksFrom A T x) :=
  inferInstanceAs (Decidable (∀ c ∈ x.label.setsLock, c.1 = A → T ≤ c.2))

section
variable {A : Pubkey} {T : ℤ} {w w' : World} {l : Label}

/-- A gated call finds the stored moment passed. -/
theorem Step.gated_unlocked (h : Step w l w') (hl : l.gated = some A) :
    ∃ st, w.states A = some st ∧ st.adminActionsLockedUntil ≤ w.clock := by
  cases h with
  | failed => cases hl
  | outside => cases hl
  | @ok c _ _ _ h =>
    cases c with
    | togglePause ctx paused =>
      obtain ⟨st, hset, hlock, -⟩ := togglePause_ok h
      exact ⟨st, Option.some.inj hl ▸ hset.state, hlock⟩
    | finalizePresale ctx =>
      obtain ⟨st, hset, hlock, -⟩ := finalizePresale_ok h
      exact ⟨st, Option.some.inj hl ▸ hset.state, hlock⟩
    | withdrawFunds ctx =>
      obtain ⟨st, hw⟩ := withdrawFunds_ok h
      exact ⟨st, Option.some.inj hl ▸ hw.state, hw.unlocked⟩
    | withdrawUnsold ctx =>
      obtain ⟨st, amount, hw⟩ := withdrawUnsold_ok h
      exact ⟨st, Option.some.inj hl ▸ hw.state, hw.unlocked⟩
    | _ => cases hl

/-- A lock call stores the moment it names. -/
theorem Step.lock_set (h : Step w l w') (hl : l.setsLock = some (A, T)) : LockedUntil A T w' := by
  cases h with
  | failed => cases hl
  | outside => cases hl
  | @ok c _ _ _ h =>
    cases c with
    | setAdminActionsLock ctx t =>
      obtain ⟨rfl, rfl⟩ := Prod.mk.inj (Option.some.inj hl)
      obtain ⟨st, hset, -⟩ := setAdminActionsLock_ok h
      exact ⟨_, by rw [hset.states, Function.update_self], le_rfl⟩
    | _ => cases hl

/-- Only a lock call moves the stored moment. -/
theorem LockedUntil.step (h : LockedUntil A T w) (hs : StateStep A w l w') (hl : LocksFrom A T ⟨w, l, w'⟩) :
    LockedUntil A T w' := by
  obtain ⟨st, hst, hT⟩ := h
  cases hs with
  | launch hA hl => rw [← hA, hl.fresh] at hst; cases hst
  | @buy c _ _ _ st _ wk solUsed bonus hA hb =>
    rw [← hA, hb.state] at hst; cases hst
    exact ⟨st.bought wk solUsed bonus, by rw [hb.states, hA, Function.update_self], hT⟩
  | flags hset hlock =>
    rw [hset.state] at hst; cases hst
    refine ⟨_, by rw [hset.states, Function.update_self], ?_⟩
    show T ≤ _
    rcases hlock with rfl | hlock
    · exact hT
    · exact hl _ hlock rfl
  | kept hk => exact ⟨st, hk.trans hst, hT⟩

theorem Run.lockedUntil {w₀ : World} {tr : List Transition} (h : Run w₀ tr w) (ho : Owned w₀.tokenAccounts)
    (h0 : LockedUntil A T w₀) (hl : ∀ x ∈ tr, LocksFrom A T x) : LockedUntil A T w := by
  refine (Runs.Run.invariant (I := fun w => Owned w.tokenAccounts ∧ LockedUntil A T w) ⟨ho, h0⟩ ?_ h hl).2
  rintro s l t ⟨ho, hlock⟩ hstep hx
  exact ⟨(hstep.frame ho).evolves.owned ho, hlock.step (hstep.stateStep ho A) hx⟩

end

/-- A lock binds until its date as long as no later lock call names an earlier one: no gated call on
the presale succeeds below the date, whatever else is called in between. -/
theorem lock_binds {w₀ s s' t t' : World} {pre mid : List Transition} {l l' : Label} {A : Pubkey} {T : ℤ}
    (h0 : Genesis w₀) (hpre : Run w₀ pre s) (hlock : Step s l s') (hl : l.setsLock = some (A, T)) (hmid : Run s' mid t)
    (hkept : ∀ x ∈ mid, LocksFrom A T x) (hgated : Step t l' t')
    (hl' : l'.gated = some A) : T ≤ t.clock := by
  have hown := hpre.owned h0.owned
  have hown' := (hlock.frame hown).evolves.owned hown
  obtain ⟨st, hst, hT⟩ := hmid.lockedUntil hown' (hlock.lock_set hl) hkept
  obtain ⟨st', hst', hle⟩ := hgated.gated_unlocked hl'
  rw [hst] at hst'; cases hst'
  exact hT.trans hle

def sampleLock (unlockTimestamp : ℤ) : Act := .call (.setAdminActionsLock ⟨1, 1⟩ unlockTimestamp)

def samplePause : Act := .call (.togglePause ⟨1, 1⟩ true)

/-- The lock is extended and its date waited for. -/
def sampleExtended : List Act := [sampleLock 1500, .wait 1500]

theorem lock_binds_sample : (1000 : ℤ) ≤ (play (play (sampleLaunched 10) [sampleLock 1000]) sampleExtended).clock := by
  have hlaunch : Playable sampleWorld [.call (.initializePresale sampleCtx (sampleArgs 10))] := by decide +kernel
  have hlock := Step.ok (c := .setAdminActionsLock ⟨1, 1⟩ 1000) (by decide)
    (exec_of_play (w := sampleLaunched 10) (by decide +kernel))
  have hpause := Step.ok (c := .togglePause ⟨1, 1⟩ true) trivial
    (exec_of_play (w := play (play (sampleLaunched 10) [sampleLock 1000]) sampleExtended) (by decide +kernel))
  exact lock_binds (A := 1) sampleWorld_genesis (play_run hlaunch) hlock rfl (play_run (by decide +kernel))
    (by decide +kernel) hpause rfl

/-- A second lock call brings the date forward to the next moment, and the presale is paused then. -/
theorem lock_lowered :
    Genesis sampleWorld ∧
    Run sampleWorld (steps sampleWorld [.call (.initializePresale sampleCtx (sampleArgs 10))]) (sampleLaunched 10) ∧
    Step (sampleLaunched 10) (.ok (.setAdminActionsLock ⟨1, 1⟩ 1000)) (play (sampleLaunched 10) [sampleLock 1000]) ∧
    Run (play (sampleLaunched 10) [sampleLock 1000])
      (steps (play (sampleLaunched 10) [sampleLock 1000]) [sampleLock 1, .wait 1])
      (play (play (sampleLaunched 10) [sampleLock 1000]) [sampleLock 1, .wait 1]) ∧
    Step (play (play (sampleLaunched 10) [sampleLock 1000]) [sampleLock 1, .wait 1]) (.ok (.togglePause ⟨1, 1⟩ true))
      (play (play (play (sampleLaunched 10) [sampleLock 1000]) [sampleLock 1, .wait 1]) [samplePause]) ∧
    (play (play (sampleLaunched 10) [sampleLock 1000]) [sampleLock 1, .wait 1]).clock < 1000 :=
  ⟨sampleWorld_genesis, play_run (by decide +kernel), .ok (by decide) (exec_of_play (by decide +kernel)),
    play_run (by decide +kernel), .ok trivial (exec_of_play (by decide +kernel)), by decide +kernel⟩

end Presale

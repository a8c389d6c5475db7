/-
Who can do what: a wallet that signs no call loses nothing, whatever everyone else does; and without its
admin's signature a presale keeps its flags and configuration, and its vaults pay only investors.
-/
import Presale.Effects.Tokens
import Presale.Program.Script
import Presale.Sale.Books
import Presale.System.Totals

namespace Presale

open Checked World Tokens

/-! ## A wallet -/

/-- The wallet that signs a step. -/
def Label.signer : Label → Option Pubkey
  | .ok c => some c.signer
  | .failed _ _ => none
  | .outside => none

/-- From `w` to `w'` the wallet `u` keeps its token accounts and loses neither tokens nor lamports. -/
structure Spares (u : Pubkey) (w w' : World) : Prop where
  accounts : ∀ a t, w.tokenAccounts a = some t → t.owner = .key u →
    ∃ n, t.amount ≤ n ∧ w'.tokenAccounts a = some { t with amount := n }
  lamports : w.lamports (.key u) ≤ w'.lamports (.key u)

/-- The records of the wallet `u` are as they were. -/
structure KeepsRecords (u : Pubkey) (w w' : World) : Prop where
  vesting : w'.vestings u = w.vestings u
  userStake : w'.userStakes u = w.userStakes u

section
variable {u : Pubkey} {w w' w'' : World} {tr : List Transition}

theorem Spares.refl (u : Pubkey) (w : World) : Spares u w w := ⟨fun _ t ht _ => ⟨t.amount, le_rfl, ht⟩, le_rfl⟩

theorem Spares.trans (h : Spares u w w') (h' : Spares u w' w'') : Spares u w w'' := by
  refine ⟨fun a t ht howner => ?_, h.lamports.trans h'.lamports⟩
  obtain ⟨n, hn, ht'⟩ := h.accounts a t ht howner
  obtain ⟨n', hn', ht''⟩ := h'.accounts a _ ht' howner
  exact ⟨n', hn.trans hn', ht''⟩

theorem signs_key {c : Call} : c.signs (.key u) ↔ c.signer = u := by
  constructor
  · rintro (h | ⟨A, -, h⟩)
    · cases h; rfl
    · cases h
  · rintro rfl
    exact .inl rfl

theorem tokenAccounts_of_holdings {a : Address} {x : Holding Pubkey Address} (h : w.holdings a = some x) :
    w.tokenAccounts a = some ⟨x.mint, x.owner, x.amount⟩ := by
  unfold World.holdings at h
  obtain ⟨t, ht, rfl⟩ := Option.map_eq_some_iff.1 h
  exact ht

/-- An account whose owner does not sign a call loses nothing in it. -/
theorem exec_account_kept {c : Call} {a : Address} {t : TokenAccount} (h : exec c w = .ok w')
    (ht : w.tokenAccounts a = some t) (ho : ¬ c.signs t.owner) :
    ∃ n, t.amount ≤ n ∧ w'.tokenAccounts a = some { t with amount := n } := by
  obtain ⟨n, hn, hx⟩ := (exec_ops h).kept (holdings_of ht) ho
  exact ⟨n, hn, tokenAccounts_of_holdings hx⟩

/-- A call moves lamports out of its signer's wallet or out of a sol vault. -/
theorem exec_lamports {c : Call} (h : exec c w = .ok w') (hu : c.signer ≠ u) : w.lamports (.key u) ≤ w'.lamports (.key u) := by
  cases c with
  | createToken => rw [(createToken_ok h).lamports]
  | initializePresale => rw [(initializePresale_ok h).lamports, Function.update_of_ne (by simp)]
  | fundPresaleVault =>
    obtain ⟨_, hf⟩ := fundPresaleVault_ok h
    rw [hf.lamports]
  | buyTokens ctx =>
    obtain ⟨_, _, _, _, _, hb⟩ := buyTokens_ok h
    rw [hb.lamports]
    have hne : u ≠ ctx.buyer := Ne.symm hu
    exact le_movedLamports _ _ (by simpa using hne)
  | claimVested =>
    obtain ⟨_, _, _, hc⟩ := claimVested_ok h
    rw [hc.lamports]
  | claimRefund =>
    obtain ⟨_, _, hr⟩ := claimRefund_ok h
    rw [hr.lamports]
    exact le_movedLamports _ _ (by simp)
  | togglePause =>
    obtain ⟨_, hf, -⟩ := togglePause_ok h
    rw [hf.lamports]
  | finalizePresale =>
    obtain ⟨_, hf, -⟩ := finalizePresale_ok h
    rw [hf.lamports]
  | withdrawFunds =>
    obtain ⟨_, hw⟩ := withdrawFunds_ok h
    rw [hw.lamports]
    exact le_movedLamports _ _ (by simp)
  | withdrawUnsold =>
    obtain ⟨_, _, hw⟩ := withdrawUnsold_ok h
    rw [hw.lamports]
  | initializeStaking =>
    obtain ⟨_, hp⟩ := initializeStaking_ok h
    rw [hp.kept.lamports]
  | fundRewardVault =>
    obtain ⟨_, _, hf⟩ := fundRewardVault_ok h
    rw [hf.kept.lamports]
  | stake =>
    obtain ⟨_, _, hs⟩ := stake_ok h
    rw [hs.kept.lamports]
  | unstake =>
    obtain ⟨_, _, _, _, hu⟩ := unstake_ok h
    rw [hu.kept.lamports]
  | claimRewards =>
    obtain ⟨_, _, _, _, hc⟩ := claimRewards_ok h
    rw [hc.kept.lamports]
  | setAdminActionsLock =>
    obtain ⟨_, hf, -⟩ := setAdminActionsLock_ok h
    rw [hf.lamports]

/-- A call writes the records of its signer alone. -/
theorem exec_records {c : Call} (h : exec c w = .ok w') (hu : c.signer ≠ u) : KeepsRecords u w w' := by
  cases c with
  | createToken =>
    have hc := createToken_ok h
    exact ⟨congrFun hc.vestings u, congrFun hc.userStakes u⟩
  | initializePresale =>
    have hl := initializePresale_ok h
    exact ⟨congrFun hl.vestings u, congrFun hl.userStakes u⟩
  | fundPresaleVault =>
    obtain ⟨_, hf⟩ := fundPresaleVault_ok h
    exact ⟨congrFun hf.vestings u, congrFun hf.userStakes u⟩
  | buyTokens ctx =>
    have hne : u ≠ ctx.buyer := Ne.symm hu
    obtain ⟨_, _, _, _, _, hb⟩ := buyTokens_ok h
    exact ⟨by rw [hb.vestings, Function.update_of_ne hne], congrFun hb.userStakes u⟩
  | claimVested ctx =>
    have hne : u ≠ ctx.user := Ne.symm hu
    obtain ⟨_, _, _, hc⟩ := claimVested_ok h
    exact ⟨by rw [hc.vestings, Function.update_of_ne hne], congrFun hc.userStakes u⟩
  | claimRefund ctx =>
    have hne : u ≠ ctx.user := Ne.symm hu
    obtain ⟨_, _, hr⟩ := claimRefund_ok h
    exact ⟨by rw [hr.vestings, Function.update_of_ne hne], congrFun hr.userStakes u⟩
  | togglePause =>
    obtain ⟨_, hf, -⟩ := togglePause_ok h
    exact ⟨congrFun hf.vestings u, congrFun hf.userStakes u⟩
  | finalizePresale =>
    obtain ⟨_, hf, -⟩ := finalizePresale_ok h
    exact ⟨congrFun hf.vestings u, congrFun hf.userStakes u⟩
  | withdrawFunds =>
    obtain ⟨_, hw⟩ := withdrawFunds_ok h
    exact ⟨congrFun hw.vestings u, congrFun hw.userStakes u⟩
  | withdrawUnsold =>
    obtain ⟨_, _, hw⟩ := withdrawUnsold_ok h
    exact ⟨congrFun hw.vestings u, congrFun hw.userStakes u⟩
  | initializeStaking =>
    obtain ⟨_, hp⟩ := initializeStaking_ok h
    exact ⟨congrFun hp.kept.vestings u, congrFun hp.userStakes u⟩
  | fundRewardVault =>
    obtain ⟨_, _, hf⟩ := fundRewardVault_ok h
    exact ⟨congrFun hf.kept.vestings u, congrFun hf.userStakes u⟩
  | stake ctx =>
    have hne : u ≠ ctx.user := Ne.symm hu
    obtain ⟨_, _, hs⟩ := stake_ok h
    exact ⟨congrFun hs.kept.vestings u, by rw [hs.userStakes, Function.update_of_ne hne]⟩
  | unstake ctx =>
    have hne : u ≠ ctx.user := Ne.symm hu
    obtain ⟨_, _, _, _, hun⟩ := unstake_ok h
    exact ⟨congrFun hun.kept.vestings u, by rw [hun.userStakes, Function.update_of_ne hne]⟩
  | claimRewards ctx =>
    have hne : u ≠ ctx.user := Ne.symm hu
    obtain ⟨_, _, _, _, hc⟩ := claimRewards_ok h
    exact ⟨congrFun hc.kept.vestings u, by rw [hc.userStakes, Function.update_of_ne hne]⟩
  | setAdminActionsLock =>
    obtain ⟨_, hf, -⟩ := setAdminActionsLock_ok h
    exact ⟨congrFun hf.vestings u, congrFun hf.userStakes u⟩

/-- A wallet that signs no successful call, and that nothing outside the program takes from, keeps its
token accounts with all they hold, its lamports, its vesting record and its stake record, whatever calls
everyone else makes in whatever order. -/
theorem run_absent (h : Run w tr w') (habsent : ∀ x ∈ tr, x.label.signer ≠ some u)
    (hout : ∀ x ∈ tr, x.label = .outside → Spares u x.before x.after) : Spares u w w' ∧ KeepsRecords u w w' := by
  refine Runs.Run.invariant (P := fun x => x.label.signer ≠ some u ∧ (x.label = .outside → Spares u x.before x.after))
    (I := fun w' => Spares u w w' ∧ KeepsRecords u w w') ⟨.refl u w, rfl, rfl⟩ ?_ h fun x hx => ⟨habsent x hx, hout x hx⟩
  rintro s l t ⟨hspares, hrecords⟩ hstep ⟨hsigner, hspare⟩
  cases hstep with
  | failed => exact ⟨hspares, hrecords⟩
  | outside ho =>
    refine ⟨hspares.trans (hspare rfl), ?_, ?_⟩
    · rw [ho.vestings]; exact hrecords.vesting
    · rw [ho.userStakes]; exact hrecords.userStake
  | @ok c _ _ _ hok =>
    have hne : c.signer ≠ u := fun he => hsigner (congrArg some he)
    obtain ⟨hv, hs⟩ := exec_records hok hne
    refine ⟨hspares.trans ⟨?_, exec_lamports hok hne⟩, hv.trans hrecords.vesting, hs.trans hrecords.userStake⟩
    intro a x hx howner
    refine exec_account_kept hok hx ?_
    rw [howner, signs_key]
    exact hne

end

theorem steps_spares {u : Pubkey} {w : World} {acts : List Act} : ∀ x ∈ steps w acts, x.label = .outside →
    Spares u x.before x.after := by
  intro x hx hlabel
  obtain ⟨t, ht⟩ := steps_outside x hx hlabel
  rw [ht]
  exact ⟨fun _ t ht _ => ⟨t.amount, le_rfl, ht⟩, le_rfl⟩

theorem run_absent_sample : Spares 4 sampleWorld (play sampleWorld sampleStaking) ∧
    KeepsRecords 4 sampleWorld (play sampleWorld sampleStaking) :=
  run_absent (play_run (by decide +kernel)) (by decide +kernel) steps_spares

/-! ## An administrator -/

/-- What a step may take out of the vaults of `A` without the signature of `A`. -/
structure PaysInvestors (A : Pubkey) (w : World) (l : Label) (w' : World) : Prop where
  sol : w'.lamports (.solVault A) < w.lamports (.solVault A) → ∃ ctx, l = .ok (.claimRefund ctx) ∧ ctx.state = A
  token : w'.balance (.tokenVault A) < w.balance (.tokenVault A) →
    (∃ ctx, l = .ok (.claimVested ctx) ∧ ctx.state = A) ∨
      ∃ ctx solAmount refKey, l = .ok (.buyTokens ctx solAmount (some refKey)) ∧ ctx.state = A
  stake : w'.balance (.stakeVault A) < w.balance (.stakeVault A) →
    ∃ ctx amount, l = .ok (.unstake ctx amount) ∧ ctx.state = A
  reward : w'.balance (.rewardVault A) < w.balance (.rewardVault A) →
    (∃ ctx amount, l = .ok (.unstake ctx amount) ∧ ctx.state = A) ∨
      ∃ ctx, l = .ok (.claimRewards ctx) ∧ ctx.state = A

section
variable {A : Pubkey} {w w' : World} {l : Label} {tr : List Transition}

theorem Label.mem_spends {x : Address} (h : x ∈ l.spends) : ∃ c, l = .ok c ∧ x ∈ c.spends := by
  cases l with
  | ok c => exact ⟨c, rfl, h⟩
  | _ => exact absurd h List.not_mem_nil

theorem spends_solVault {c : Call} (h : .solVault A ∈ c.spends) :
    (∃ ctx, c = .claimRefund ctx ∧ ctx.state = A) ∨ ∃ ctx, c = .withdrawFunds ctx ∧ ctx.state = A := by
  cases c with
  | claimRefund ctx => exact .inl ⟨ctx, rfl, by simpa [Call.spends, eq_comm] using h⟩
  | withdrawFunds ctx => exact .inr ⟨ctx, rfl, by simpa [Call.spends, eq_comm] using h⟩
  | _ => simp [Call.spends] at h

theorem spends_tokenVault {c : Call} (h : .tokenVault A ∈ c.spends) :
    (∃ ctx, c = .claimVested ctx ∧ ctx.state = A) ∨ (∃ ctx n r, c = .buyTokens ctx n r ∧ ctx.state = A) ∨
      ∃ ctx, c = .withdrawUnsold ctx ∧ ctx.state = A := by
  cases c with
  | claimVested ctx => exact .inl ⟨ctx, rfl, by simpa [Call.spends, eq_comm] using h⟩
  | buyTokens ctx n r => exact .inr (.inl ⟨ctx, n, r, rfl, by simpa [Call.spends, eq_comm] using h⟩)
  | withdrawUnsold ctx => exact .inr (.inr ⟨ctx, rfl, by simpa [Call.spends, eq_comm] using h⟩)
  | _ => simp [Call.spends] at h

theorem spends_stakeVault {c : Call} (h : .stakeVault A ∈ c.spends) :
    ∃ ctx amount, c = .unstake ctx amount ∧ ctx.state = A := by
  cases c with
  | unstake ctx amount => exact ⟨ctx, amount, rfl, by simpa [Call.spends, eq_comm] using h⟩
  | _ => simp [Call.spends] at h

theorem spends_rewardVault {c : Call} (h : .rewardVault A ∈ c.spends) :
    (∃ ctx amount, c = .unstake ctx amount ∧ ctx.state = A) ∨ ∃ ctx, c = .claimRewards ctx ∧ ctx.state = A := by
  cases c with
  | unstake ctx amount => exact .inl ⟨ctx, amount, rfl, by simpa [Call.spends, eq_comm] using h⟩
  | claimRewards ctx => exact .inr ⟨ctx, rfl, by simpa [Call.spends, eq_comm] using h⟩
  | _ => simp [Call.spends] at h

/-- A vault that loses something is one the call spends. -/
theorem Frame.spends (h : Frame w l w') {x : Address} (hx : x.IsVault) (hlt : w'.balance x < w.balance x) :
    ∃ c, l = .ok c ∧ x ∈ c.spends := by
  apply Label.mem_spends
  by_contra hnot
  have := h.balance x hx hnot
  omega

theorem Frame.spends_sol (h : Frame w l w') (hlt : w'.lamports (.solVault A) < w.lamports (.solVault A)) :
    ∃ c, l = .ok c ∧ .solVault A ∈ c.spends := by
  apply Label.mem_spends
  by_contra hnot
  have := h.lamports A hnot
  omega

/-- A purchase without a referrer takes nothing from the token vault. -/
theorem buyTokens_alone {ctx : BuyTokens} {solAmount : ℕ} (h : buyTokens ctx solAmount none w = .ok w') :
    w'.tokenAccounts = w.tokenAccounts := by
  obtain ⟨_, _, _, _, _, hb⟩ := buyTokens_ok h
  rcases hb.tokenAccounts with ⟨-, hsame⟩ | ⟨-, _, _, hno, -⟩
  · exact hsame
  · cases hno

/-- Only investors are paid without the admin's signature. -/
theorem Step.paysInvestors (hk : KeyedByAdmin w) (ho : Owned w.tokenAccounts) (h : Step w l w')
    (hsigner : l.signer ≠ some A) : PaysInvestors A w l w' := by
  have hf := h.frame ho
  constructor
  · intro hlt
    obtain ⟨c, rfl, hc⟩ := hf.spends_sol hlt
    rcases spends_solVault hc with ⟨ctx, rfl, rfl⟩ | ⟨ctx, rfl, rfl⟩
    · exact ⟨ctx, rfl, rfl⟩
    · cases h with
      | ok _ hok =>
        obtain ⟨st, hw⟩ := withdrawFunds_ok hok
        exact absurd (congrArg some (hw.admin.trans (hk _ _ hw.state))) hsigner
  · intro hlt
    obtain ⟨c, rfl, hc⟩ := hf.spends (isVault_tokenVault A) hlt
    rcases spends_tokenVault hc with ⟨ctx, rfl, rfl⟩ | ⟨ctx, n, referrer, rfl, rfl⟩ | ⟨ctx, rfl, rfl⟩
    · exact .inl ⟨ctx, rfl, rfl⟩
    · cases referrer with
      | some refKey => exact .inr ⟨ctx, n, refKey, rfl, rfl⟩
      | none =>
        cases h with
        | ok _ hok =>
          rw [balance_eq, balance_eq, buyTokens_alone hok] at hlt
          omega
    · cases h with
      | ok _ hok =>
        obtain ⟨st, _, hw⟩ := withdrawUnsold_ok hok
        exact absurd (congrArg some (hw.admin.trans (hk _ _ hw.state))) hsigner
  · intro hlt
    obtain ⟨c, rfl, hc⟩ := hf.spends (isVault_stakeVault A) hlt
    obtain ⟨ctx, amount, rfl, rfl⟩ := spends_stakeVault hc
    exact ⟨ctx, amount, rfl, rfl⟩
  · intro hlt
    obtain ⟨c, rfl, hc⟩ := hf.spends (isVault_rewardVault A) hlt
    rcases spends_rewardVault hc with ⟨ctx, amount, rfl, rfl⟩ | ⟨ctx, rfl, rfl⟩
    · exact .inl ⟨ctx, amount, rfl, rfl⟩
    · exact .inr ⟨ctx, rfl, rfl⟩

/-- The terms of a presale and the flags its admin sets. -/
def PresaleState.terms (st : PresaleState) : PresaleState :=
  st.config.withFlags st.isActive st.isPaused st.adminActionsLockedUntil

/-- Terms and flags are set by the admin's signature alone. -/
theorem Step.terms {st : PresaleState} (hk : KeyedByAdmin w) (ho : Owned w.tokenAccounts) (h : Step w l w')
    (hsigner : l.signer ≠ some A) (hst : w.states A = some st) :
    ∃ st', w'.states A = some st' ∧ st'.terms = st.terms := by
  by_cases hl : l.writesState = some A
  · cases h with
    | failed => cases hl
    | outside => cases hl
    | @ok c _ _ _ hok =>
      cases c with
      | initializePresale ctx args =>
        obtain rfl : ctx.admin = A := Option.some.inj hl
        exact absurd rfl hsigner
      | buyTokens ctx =>
        obtain rfl : ctx.state = A := Option.some.inj hl
        obtain ⟨st₁, _, wk, solUsed, bonus, hb⟩ := buyTokens_ok hok
        obtain rfl : st₁ = st := Option.some.inj (hb.state.symm.trans hst)
        exact ⟨st₁.bought wk solUsed bonus, by rw [hb.states, Function.update_self], rfl⟩
      | togglePause ctx =>
        obtain rfl : ctx.state = A := Option.some.inj hl
        obtain ⟨st₁, hf, -, hadmin⟩ := togglePause_ok hok
        exact absurd (congrArg some (hadmin.trans (hk _ _ hf.state))) hsigner
      | finalizePresale ctx =>
        obtain rfl : ctx.state = A := Option.some.inj hl
        obtain ⟨st₁, hf, -, hadmin, -⟩ := finalizePresale_ok hok
        exact absurd (congrArg some (hadmin.trans (hk _ _ hf.state))) hsigner
      | setAdminActionsLock ctx =>
        obtain rfl : ctx.state = A := Option.some.inj hl
        obtain ⟨st₁, hf, hadmin, -⟩ := setAdminActionsLock_ok hok
        exact absurd (congrArg some (hadmin.trans (hk _ _ hf.state))) hsigner
      | _ => cases hl
  · exact ⟨st, ((h.frame ho).states A hl).trans hst, rfl⟩

/-- While the admin of a presale signs nothing, whatever everyone else does, the presale keeps its terms
and its flags; lamports leave its sol vault only for refunds, tokens its token vault only for claims and
referral bonuses, its stake vault only for unstakes, and its reward vault only for rewards. -/
theorem run_without_admin {w₀ : World} {pre : List Transition} {st : PresaleState} (h0 : Genesis w₀)
    (hpre : Run w₀ pre w) (hst : w.states A = some st) (h : Run w tr w') (habsent : ∀ x ∈ tr, x.label.signer ≠ some A) :
    (∃ st', w'.states A = some st' ∧ st'.terms = st.terms) ∧
    ∀ x ∈ tr, PaysInvestors A x.before x.label x.after := by
  obtain ⟨⟨ho, hk⟩, -⟩ := hpre.journalled h0.owned h0.keyedByAdmin
  refine (Runs.Run.induct (P := fun x => x.label.signer ≠ some A)
    (J := fun tr w' => (Owned w'.tokenAccounts ∧ KeyedByAdmin w') ∧
      (∃ st', w'.states A = some st' ∧ st'.terms = st.terms) ∧ ∀ x ∈ tr, PaysInvestors A x.before x.label x.after)
    ⟨⟨ho, hk⟩, ⟨st, hst, rfl⟩, fun x hx => absurd hx List.not_mem_nil⟩ ?_ h habsent).2
  rintro tr s l t - ⟨⟨ho, hk⟩, ⟨st', hst', hterms⟩, hpays⟩ hstep hsigner
  obtain ⟨st'', hst'', hterms'⟩ := hstep.terms hk ho hsigner hst'
  refine ⟨⟨(hstep.frame ho).evolves.owned ho, hk.step ho hstep⟩, ⟨st'', hst'', hterms'.trans hterms⟩, fun x hx => ?_⟩
  rcases List.mem_append.1 hx with hx | hx
  · exact hpays x hx
  · rw [List.mem_singleton.1 hx]
    exact hstep.paysInvestors hk ho hsigner

end

/-- Buyers and stakers go on while wallet `1` is away. -/
def sampleAway : List Act := [.wait 60, sampleStake 3 20, .wait 70, sampleClaim 2, .call (.claimVested ⟨1, 3, 100⟩)]

theorem run_without_admin_sample : ∃ st, (play sampleWorld sampleStaking).states 1 = some st ∧
    (∃ st', (play (play sampleWorld sampleStaking) sampleAway).states 1 = some st' ∧ st'.terms = st.terms) ∧
    ∀ x ∈ steps (play sampleWorld sampleStaking) sampleAway, PaysInvestors 1 x.before x.label x.after := by
  have hsome : ((play sampleWorld sampleStaking).states 1).isSome = true := by decide +kernel
  obtain ⟨st, hst⟩ := Option.isSome_iff_exists.1 hsome
  exact ⟨st, hst, run_without_admin sampleWorld_genesis (play_run (by decide +kernel)) hst
    (play_run (by decide +kernel)) (by decide +kernel)⟩

end Presale

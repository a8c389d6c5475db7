/-
The accounts of the program belong together: whatever is called in whatever order, a presale has
its mint and its token vault, a pool its presale and its two vaults, no vault is without the
record it was made with, and none of them is closed, given to another owner or to another mint.
-/
import Presale.System.Journal
import Presale.System.Supply

namespace Presale

open World Checked

/-! ## Accounts that belong together -/

/-- The vault at `a` holds tokens of `mint` for the presale of `A`. -/
def World.IsVaultOf (w : World) (a : Address) (A mint : Pubkey) : Prop :=
  ∃ amount, w.tokenAccounts a = some ⟨mint, .vaultAuthority A, amount⟩

/-- What a presale's record stands on. -/
structure PresaleLinked (w : World) (A : Pubkey) (st : PresaleState) : Prop where
  admin : st.admin = A
  mint : ∃ m, w.mints st.tokenMint = some m
  vault : w.IsVaultOf (.tokenVault A) A st.tokenMint

/-- What a pool stands on: both of its vaults hold one mint. -/
structure PoolLinked (w : World) (A : Pubkey) : Prop where
  presale : ∃ st, w.states A = some st
  vaults : ∃ mint m, w.mints mint = some m ∧ w.IsVaultOf (.stakeVault A) A mint ∧ w.IsVaultOf (.rewardVault A) A mint

/-- Every account has those it was made with, and stands under its own key. -/
structure World.Linked (w : World) : Prop where
  presales : ∀ A st, w.states A = some st → PresaleLinked w A st
  tokenVaults : ∀ A, w.states A = none → w.tokenAccounts (.tokenVault A) = none
  pools : ∀ A p, w.pools A = some p → PoolLinked w A
  poolVaults : ∀ A, w.pools A = none →
    w.tokenAccounts (.stakeVault A) = none ∧ w.tokenAccounts (.rewardVault A) = none
  vestings : ∀ u v, w.vestings u = some v → v.user = u
  userStakes : ∀ u s, w.userStakes u = some s → s.user = u

/-- No account of the program is closed, and no vault changes its mint or its owner. -/
structure Extends (w w' : World) : Prop where
  states : ∀ A st, w.states A = some st → ∃ st', w'.states A = some st' ∧ st'.admin = st.admin ∧ st'.tokenMint = st.tokenMint
  pools : ∀ A p, w.pools A = some p → ∃ p', w'.pools A = some p'
  vestings : ∀ u v, w.vestings u = some v → ∃ v', w'.vestings u = some v'
  userStakes : ∀ u s, w.userStakes u = some s → ∃ s', w'.userStakes u = some s'
  mints : ∀ k m, w.mints k = some m → ∃ m', w'.mints k = some m' ∧ m.Later m'
  vaults : ∀ a A mint, a.IsVault → w.IsVaultOf a A mint → w'.IsVaultOf a A mint

theorem Extends.refl (w : World) : Extends w w :=
  ⟨fun _ st h => ⟨st, h, rfl, rfl⟩, fun _ p h => ⟨p, h⟩, fun _ v h => ⟨v, h⟩, fun _ s h => ⟨s, h⟩, fun _ m h => ⟨m, h, .refl m⟩,
    fun _ _ _ _ h => h⟩

theorem Extends.trans {w₁ w₂ w₃ : World} (h : Extends w₁ w₂) (h' : Extends w₂ w₃) : Extends w₁ w₃ := by
  constructor
  · intro A st hst
    obtain ⟨st₂, hst₂, hadmin, hmint⟩ := h.states A st hst
    obtain ⟨st₃, hst₃, hadmin', hmint'⟩ := h'.states A st₂ hst₂
    exact ⟨st₃, hst₃, hadmin'.trans hadmin, hmint'.trans hmint⟩
  · intro A p hp
    obtain ⟨_, hp⟩ := h.pools A p hp
    exact h'.pools A _ hp
  · intro u v hv
    obtain ⟨_, hv⟩ := h.vestings u v hv
    exact h'.vestings u _ hv
  · intro u s hs
    obtain ⟨_, hs⟩ := h.userStakes u s hs
    exact h'.userStakes u _ hs
  · intro k m hm
    obtain ⟨m₂, hm₂, hlater⟩ := h.mints k m hm
    obtain ⟨m₃, hm₃, hlater'⟩ := h'.mints k m₂ hm₂
    exact ⟨m₃, hm₃, hlater.trans hlater'⟩
  · intro a A mint ha hv
    exact h'.vaults a A mint ha (h.vaults a A mint ha hv)

/-! ## Records under a user's key -/

/-- At most one record is written, and it names the user it stands under or whom it named before. -/
inductive WritesOwn {α : Type} (user : α → Pubkey) (f g : Pubkey → Option α) : Prop
  | kept : g = f → WritesOwn user f g
  | wrote (u : Pubkey) (x : α) : g = Function.update f u (some x) →
      (user x = u ∨ ∃ y, f u = some y ∧ user x = user y) → WritesOwn user f g

section
variable {α : Type} {user : α → Pubkey} {f g : Pubkey → Option α}

theorem WritesOwn.keyed (h : WritesOwn user f g) (hf : ∀ u x, f u = some x → user x = u) :
    ∀ u x, g u = some x → user x = u := by
  intro v y hy
  cases h with
  | kept hg => exact hf v y (hg ▸ hy)
  | wrote u x hg huser =>
    by_cases hv : v = u
    · subst hv
      rw [hg, Function.update_self] at hy
      cases hy
      rcases huser with huser | ⟨z, hz, huser⟩
      · exact huser
      · exact huser.trans (hf v z hz)
    · rw [hg, Function.update_of_ne hv] at hy
      exact hf v y hy

theorem WritesOwn.stays (h : WritesOwn user f g) {u : Pubkey} {x : α} (hx : f u = some x) : ∃ y, g u = some y := by
  cases h with
  | kept hg => exact ⟨x, hg ▸ hx⟩
  | wrote v z hg _ =>
    by_cases hu : u = v
    · subst hu
      exact ⟨z, by rw [hg, Function.update_self]⟩
    · exact ⟨x, by rw [hg, Function.update_of_ne hu, hx]⟩

end

section
variable {w w' : World} {l : Label} {A : Pubkey}

theorem Step.vestings (ho : Owned w.tokenAccounts) (h : Step w l w') :
    WritesOwn UserVesting.user w.vestings w'.vestings := by
  by_cases hl : l.writesVesting = none
  · exact .kept ((h.frame ho).vestings hl)
  · cases h with
    | failed => exact absurd rfl hl
    | outside => exact absurd rfl hl
    | @ok c _ _ _ h =>
      cases c with
      | buyTokens =>
        obtain ⟨_, _, _, _, _, hb⟩ := buyTokens_ok h
        exact .wrote _ _ hb.vestings (.inl rfl)
      | claimVested =>
        obtain ⟨_, _, _, hc⟩ := claimVested_ok h
        exact .wrote _ _ hc.vestings (.inr ⟨_, hc.vesting, rfl⟩)
      | claimRefund =>
        obtain ⟨_, _, hr⟩ := claimRefund_ok h
        exact .wrote _ _ hr.vestings (.inr ⟨_, hr.vesting, rfl⟩)
      | _ => exact absurd rfl hl

theorem Step.userStakes (ho : Owned w.tokenAccounts) (h : Step w l w') :
    WritesOwn UserStake.user w.userStakes w'.userStakes := by
  by_cases hl : l.writesStake = none
  · exact .kept ((h.frame ho).userStakes hl)
  · cases h with
    | failed => exact absurd rfl hl
    | outside => exact absurd rfl hl
    | @ok c _ _ _ h =>
      cases c with
      | stake =>
        obtain ⟨_, _, hs⟩ := stake_ok h
        exact .wrote _ _ hs.userStakes (.inl rfl)
      | unstake =>
        obtain ⟨_, _, _, _, hu⟩ := unstake_ok h
        exact .wrote _ _ hu.userStakes (.inr ⟨_, hu.record, rfl⟩)
      | claimRewards =>
        obtain ⟨_, _, _, _, hc⟩ := claimRewards_ok h
        exact .wrote _ _ hc.userStakes (.inr ⟨_, hc.record, rfl⟩)
      | _ => exact absurd rfl hl

/-! ## Steps close nothing -/

theorem Evolves.isVaultOf {a : Address} {A mint : Pubkey} (h : Evolves w.tokenAccounts w'.tokenAccounts) (ha : a.IsVault)
    (hv : w.IsVaultOf a A mint) : w'.IsVaultOf a A mint := by
  obtain ⟨_, hv⟩ := hv
  exact h.kept a _ ha hv

theorem Step.states_stay {st : PresaleState} (ho : Owned w.tokenAccounts) (h : Step w l w') (hst : w.states A = some st) :
    ∃ st', w'.states A = some st' ∧ st'.admin = st.admin ∧ st'.tokenMint = st.tokenMint := by
  cases h.stateStep ho A with
  | launch hA hl =>
    have := hl.fresh
    rw [hA, hst] at this
    cases this
  | @buy ctx _ _ _ _ _ wk solUsed bonus hA hb =>
    have hstate := hb.state
    rw [hA, hst] at hstate
    cases hstate
    refine ⟨st.bought wk solUsed bonus, ?_, rfl, rfl⟩
    rw [hb.states, hA, Function.update_self]
  | @flags _ _ _ active paused lock hf _ =>
    have hstate := hf.state
    rw [hst] at hstate
    cases hstate
    refine ⟨st.withFlags active paused lock, ?_, rfl, rfl⟩
    rw [hf.states, Function.update_self]
  | kept hk => exact ⟨st, hk ▸ hst, rfl, rfl⟩

theorem Step.pools_stay {p : StakePool} (ho : Owned w.tokenAccounts) (h : Step w l w') (hp : w.pools A = some p) :
    ∃ p', w'.pools A = some p' := by
  cases h.poolChange ho A with
  | opened hA hopen => exact ⟨_, by rw [hopen.pools, hA, Function.update_self]⟩
  | fund hA hfund => exact ⟨_, by rw [hfund.pools, hA, Function.update_self]⟩
  | settled _ _ hleft _ => exact ⟨_, hleft⟩
  | kept _ hk => exact ⟨p, hk ▸ hp⟩

theorem Step.extends (ho : Owned w.tokenAccounts) (h : Step w l w') : Extends w w' where
  states _ _ hst := h.states_stay ho hst
  pools _ _ hp := h.pools_stay ho hp
  vestings _ _ hv := (h.vestings ho).stays hv
  userStakes _ _ hs := (h.userStakes ho).stays hs
  mints _ _ hm := h.mints hm
  vaults _ _ _ ha hv := (h.frame ho).evolves.isVaultOf ha hv

/-! ## Vaults are made with their records -/

/-- A vault that a step makes is the token vault of a presale launched there, or a vault of a pool opened there. -/
inductive VaultMade (w : World) (a : Address) (w' : World) : Prop
  | launched {ctx : InitializePresale} {args : InitializePresaleArgs} : a = .tokenVault ctx.admin →
      Launched ctx args w w' → VaultMade w a w'
  | opened {ctx : InitializeStaking} {rate : ℕ} {st : PresaleState} :
      a = .stakeVault ctx.state ∨ a = .rewardVault ctx.state → PoolOpened ctx rate w w' st → VaultMade w a w'

theorem RewardPaid.absent {f f' : TokenAccounts} {target x : Address} {pending : ℕ} (h : RewardPaid A target pending f f')
    (hx : f x = none) : f' x = none := by
  rcases h.move with ⟨-, rfl⟩ | hm
  · exact hx
  · exact hm.absent x hx

theorem exec_vaults {c : Call} {a : Address} (h : exec c w = .ok w') (ha : a.IsVault) (hnone : w.tokenAccounts a = none) :
    w'.tokenAccounts a = none ∨ VaultMade w a w' := by
  cases c with
  | createToken =>
    by_contra hmade
    rw [not_or] at hmade
    obtain ⟨_, _, rfl⟩ := (createToken_ok h).vaults a hnone hmade.1
    exact ha.ne_ata rfl
  | initializePresale ctx =>
    have hl := initializePresale_ok h
    by_cases hv : a = .tokenVault ctx.admin
    · exact .inr (.launched hv hl)
    · rw [hl.tokenAccounts, Function.update_of_ne hv]
      exact .inl hnone
  | fundPresaleVault =>
    obtain ⟨_, hf⟩ := fundPresaleVault_ok h
    exact .inl (hf.move.absent a hnone)
  | buyTokens =>
    obtain ⟨_, _, _, _, _, hb⟩ := buyTokens_ok h
    rcases hb.tokenAccounts with ⟨-, he⟩ | ⟨-, _, _, -, hm⟩
    · exact .inl (he ▸ hnone)
    · exact .inl (hm.absent a hnone)
  | claimVested =>
    obtain ⟨_, _, _, hc⟩ := claimVested_ok h
    obtain ⟨_, hready, hm⟩ := hc.tokenAccounts
    exact .inl (hm.absent a ((hready.other a ha.ne_ata).trans hnone))
  | claimRefund =>
    obtain ⟨_, _, hr⟩ := claimRefund_ok h
    exact .inl (hr.tokenAccounts ▸ hnone)
  | togglePause =>
    obtain ⟨_, hf, -⟩ := togglePause_ok h
    exact .inl (hf.tokenAccounts ▸ hnone)
  | finalizePresale =>
    obtain ⟨_, hf, -⟩ := finalizePresale_ok h
    exact .inl (hf.tokenAccounts ▸ hnone)
  | withdrawFunds =>
    obtain ⟨_, hw⟩ := withdrawFunds_ok h
    exact .inl (hw.tokenAccounts ▸ hnone)
  | withdrawUnsold =>
    obtain ⟨_, _, hw⟩ := withdrawUnsold_ok h
    obtain ⟨_, hready, hm⟩ := hw.tokenAccounts
    exact .inl (hm.absent a ((hready.other a ha.ne_ata).trans hnone))
  | initializeStaking ctx =>
    obtain ⟨_, hp⟩ := initializeStaking_ok h
    by_cases hv : a = .stakeVault ctx.state ∨ a = .rewardVault ctx.state
    · exact .inr (.opened hv hp)
    · rw [not_or] at hv
      rw [hp.tokenAccounts, Function.update_of_ne hv.2, Function.update_of_ne hv.1]
      exact .inl hnone
  | fundRewardVault =>
    obtain ⟨_, _, hf⟩ := fundRewardVault_ok h
    exact .inl (hf.move.absent a hnone)
  | stake =>
    obtain ⟨_, _, hs⟩ := stake_ok h
    exact .inl (hs.move.absent a hnone)
  | unstake =>
    obtain ⟨_, _, _, _, hu⟩ := unstake_ok h
    obtain ⟨_, hpay, hm⟩ := hu.moves
    exact .inl (hm.absent a (hpay.absent hnone))
  | claimRewards =>
    obtain ⟨_, _, _, _, hc⟩ := claimRewards_ok h
    exact .inl (hc.move.absent a hnone)
  | setAdminActionsLock =>
    obtain ⟨_, hf, -⟩ := setAdminActionsLock_ok h
    exact .inl (hf.tokenAccounts ▸ hnone)

theorem Step.vaults {a : Address} (h : Step w l w') (ha : a.IsVault) (hnone : w.tokenAccounts a = none) :
    w'.tokenAccounts a = none ∨ VaultMade w a w' := by
  cases h with
  | ok _ h => exact exec_vaults h ha hnone
  | failed => exact .inl hnone
  | outside ho => exact .inl (ho.vaults a ha hnone)

/-! ## Every step -/

theorem PresaleLinked.extends {st st' : PresaleState} (h : PresaleLinked w A st) (he : Extends w w')
    (hadmin : st'.admin = st.admin) (hmint : st'.tokenMint = st.tokenMint) : PresaleLinked w' A st' := by
  obtain ⟨m, hm⟩ := h.mint
  refine ⟨hadmin.trans h.admin, ?_, ?_⟩
  · rw [hmint]
    obtain ⟨m', hm', -⟩ := he.mints _ m hm
    exact ⟨m', hm'⟩
  · rw [hmint]
    exact he.vaults _ _ _ (isVault_tokenVault A) h.vault

theorem PoolLinked.extends (h : PoolLinked w A) (he : Extends w w') : PoolLinked w' A := by
  obtain ⟨st, hst⟩ := h.presale
  obtain ⟨st', hst', -⟩ := he.states A st hst
  obtain ⟨mint, m, hm, hstake, hreward⟩ := h.vaults
  obtain ⟨m', hm', -⟩ := he.mints mint m hm
  exact ⟨⟨st', hst'⟩, mint, m', hm', he.vaults _ _ _ (isVault_stakeVault A) hstake,
    he.vaults _ _ _ (isVault_rewardVault A) hreward⟩

theorem Launched.linked {ctx : InitializePresale} {args : InitializePresaleArgs} (h : Launched ctx args w w')
    (hmint : ∃ m, w.mints ctx.mint = some m) : PresaleLinked w' ctx.admin (args.toState ctx) := by
  refine ⟨rfl, ?_, 0, ?_⟩
  · rw [h.mints]
    exact hmint
  · rw [h.tokenAccounts, Function.update_self]
    rfl

theorem PoolOpened.linked {ctx : InitializeStaking} {rate : ℕ} {st : PresaleState} (h : PoolOpened ctx rate w w' st)
    (hmint : ∃ m, w.mints ctx.mint = some m) : PoolLinked w' ctx.state := by
  have hne : Address.stakeVault ctx.state ≠ .rewardVault ctx.state := by simp
  obtain ⟨m, hm⟩ := hmint
  refine ⟨⟨st, by rw [h.kept.states]; exact h.state⟩, ctx.mint, m, by rw [h.kept.mints]; exact hm, ⟨0, ?_⟩, 0, ?_⟩
  · rw [h.tokenAccounts, Function.update_of_ne hne, Function.update_self]
  · rw [h.tokenAccounts, Function.update_self]

theorem Step.presaleLinked (ho : Owned w.tokenAccounts) (h : Step w l w')
    (hlink : ∀ st, w.states A = some st → PresaleLinked w A st) {st' : PresaleState} (hst' : w'.states A = some st') :
    PresaleLinked w' A st' := by
  cases hA : w.states A with
  | some st =>
    obtain ⟨_, hnext, hadmin, hmint⟩ := h.states_stay ho hA
    rw [hst'] at hnext
    cases hnext
    exact (hlink st hA).extends (h.extends ho) hadmin hmint
  | none =>
    cases h.stateStep ho A with
    | @launch ctx args _ hctx hl =>
      rw [hl.states, hctx, Function.update_self] at hst'
      cases hst'
      cases h with
      | ok _ hok => exact hctx ▸ hl.linked (initializePresale_mint hok)
    | buy hctx hb =>
      have := hb.state
      rw [hctx, hA] at this
      cases this
    | flags hf _ =>
      have := hf.state
      rw [hA] at this
      cases this
    | kept hk =>
      rw [hk, hA] at hst'
      cases hst'

theorem Step.poolLinked (ho : Owned w.tokenAccounts) (h : Step w l w') (hlink : ∀ p, w.pools A = some p → PoolLinked w A)
    {p' : StakePool} (hp' : w'.pools A = some p') : PoolLinked w' A := by
  cases hA : w.pools A with
  | some p => exact (hlink p hA).extends (h.extends ho)
  | none =>
    cases h.poolChange ho A with
    | opened hctx hopen =>
      cases h with
      | ok _ hok => exact hctx ▸ hopen.linked (initializeStaking_mint hok)
    | fund hctx hf =>
      have := hf.pool
      rw [hctx, hA] at this
      cases this
    | settled _ hp _ _ =>
      rw [hA] at hp
      cases hp
    | kept _ hk =>
      rw [hk, hA] at hp'
      cases hp'

theorem World.Linked.step (hw : w.Linked) (ho : Owned w.tokenAccounts) (h : Step w l w') : w'.Linked := by
  have he := h.extends ho
  refine ⟨fun A st' hst' => h.presaleLinked ho (hw.presales A) hst', ?_,
    fun A p' hp' => h.poolLinked ho (hw.pools A) hp', ?_, (h.vestings ho).keyed hw.vestings,
    (h.userStakes ho).keyed hw.userStakes⟩
  · intro A hA
    have hbefore : w.states A = none := by
      by_contra hsome
      obtain ⟨st, hst⟩ := Option.ne_none_iff_exists'.1 hsome
      obtain ⟨_, hst', -⟩ := he.states A st hst
      rw [hA] at hst'
      cases hst'
    rcases h.vaults (isVault_tokenVault A) (hw.tokenVaults A hbefore) with hnone | hmade
    · exact hnone
    · cases hmade with
      | launched ha hl =>
        cases ha
        rw [hl.states, Function.update_self] at hA
        cases hA
      | opened ha _ => rcases ha with ha | ha <;> cases ha
  · intro A hA
    have hbefore : w.pools A = none := by
      by_contra hsome
      obtain ⟨p, hp⟩ := Option.ne_none_iff_exists'.1 hsome
      obtain ⟨_, hp'⟩ := he.pools A p hp
      rw [hA] at hp'
      cases hp'
    have hunmade : ∀ a, a = .stakeVault A ∨ a = .rewardVault A → ¬ VaultMade w a w' := by
      rintro a ha (⟨hv, -⟩ | ⟨hv, hopen⟩)
      · rcases ha with rfl | rfl <;> cases hv
      · obtain rfl : A = _ := by rcases ha with rfl | rfl <;> rcases hv with hv | hv <;> cases hv <;> rfl
        rw [hopen.pools, Function.update_self] at hA
        cases hA
    obtain ⟨hstake, hreward⟩ := hw.poolVaults A hbefore
    exact ⟨(h.vaults (isVault_stakeVault A) hstake).resolve_right (hunmade _ (.inl rfl)),
      (h.vaults (isVault_rewardVault A) hreward).resolve_right (hunmade _ (.inr rfl))⟩

theorem Genesis.linked (h : Genesis w) : w.Linked where
  presales A st hst := by rw [h.states A] at hst; cases hst
  tokenVaults A _ := h.vaults _ (isVault_tokenVault A)
  pools A p hp := by rw [h.pools A] at hp; cases hp
  poolVaults A _ := ⟨h.vaults _ (isVault_stakeVault A), h.vaults _ (isVault_rewardVault A)⟩
  vestings u v hv := by rw [h.vestings u] at hv; cases hv
  userStakes u s hs := by rw [h.userStakes u] at hs; cases hs

theorem Run.linked {tr : List Transition} (h : Run w tr w') (ho : Owned w.tokenAccounts) (hw : w.Linked) :
    (Owned w'.tokenAccounts ∧ w'.Linked) ∧ Extends w w' := by
  refine Runs.Run.preserves (I := fun s => (Owned s.tokenAccounts ∧ s.Linked) ∧ Extends w s) ?_ h ⟨⟨ho, hw⟩, .refl w⟩
  rintro s l t ⟨⟨ho, hs⟩, he⟩ hstep
  exact ⟨⟨(hstep.frame ho).evolves.owned ho, hs.step ho hstep⟩, he.trans (hstep.extends ho)⟩

end

/-- In every reachable world each account has those it was made with and stands under its own key, no
vault is without its record, and from there on nothing is closed, given away or given another mint. -/
theorem reachable_linked {w₀ w w' : World} {pre tr : List Transition} (h0 : Genesis w₀) (hpre : Run w₀ pre w)
    (h : Run w tr w') : w.Linked ∧ Extends w w' := by
  obtain ⟨⟨ho, hw⟩, -⟩ := hpre.linked h0.owned h0.linked
  exact ⟨hw, (h.linked ho hw).2⟩

/-- A sale is run to its end; then its pool is opened and used. -/
theorem reachable_linked_sample : (play sampleWorld sampleFinalized).Linked ∧
    Extends (play sampleWorld sampleFinalized) (play (play sampleWorld sampleFinalized)
      [.call (.initializeStaking samplePool 2), sampleReward 100, sampleStake 2 10, .wait 31, sampleUnstake 2 5]) :=
  reachable_linked sampleWorld_genesis (play_run (by decide +kernel)) (play_run (by decide +kernel))

/-! ## Nobody takes an admin's place -/

/-- Whatever others have done, an admin without a presale can launch one on acceptable terms, and one with
a presale can open its pool, at an acceptable rate and once: nobody else can make either for him, or stand
in the way. -/
theorem reachable_admits {w₀ w : World} {tr : List Transition} (h0 : Genesis w₀) (h : Run w₀ tr w) :
    (∀ ctx args, (∃ w', initializePresale ctx args w = .ok w') ↔
      w.states ctx.admin = none ∧ (∃ m, w.mints ctx.mint = some m) ∧ args.Accepted w.clock) ∧
    ∀ ctx rate, (∃ w', initializeStaking ctx rate w = .ok w') ↔
      (∃ st, w.states ctx.state = some st) ∧ ctx.admin = ctx.state ∧ w.pools ctx.state = none ∧
        (∃ m, w.mints ctx.mint = some m) ∧ rate ≤ maxRewardRatePerSecond := by
  obtain ⟨⟨-, hw⟩, -⟩ := h.linked h0.owned h0.linked
  constructor
  · intro ctx args
    constructor
    · rintro ⟨w', hok⟩
      have hl := initializePresale_ok hok
      exact ⟨hl.fresh, initializePresale_mint hok, hl.accepted⟩
    · rintro ⟨hfresh, hm, hacc⟩
      exact initializePresale_succeeds hfresh (hw.tokenVaults _ hfresh) hm hacc
  · intro ctx rate
    constructor
    · rintro ⟨w', hok⟩
      obtain ⟨st, hp⟩ := initializeStaking_ok hok
      exact ⟨⟨st, hp.state⟩, hp.admin.trans (hw.presales _ st hp.state).admin, hp.fresh, initializeStaking_mint hok, hp.rate⟩
    · rintro ⟨⟨st, hst⟩, hadmin, hfresh, hm, hrate⟩
      obtain ⟨hstake, hreward⟩ := hw.poolVaults _ hfresh
      exact initializeStaking_succeeds hst (hadmin.trans (hw.presales _ st hst).admin.symm) hfresh hstake hreward hm hrate

/-- Next to the presale of wallet `1` wallet `2` can launch its own; wallet `1` can open its pool, and
wallet `2` cannot open it for him. -/
theorem reachable_admits_sample :
    (∃ w', initializePresale ⟨100, 2, .key 2⟩ { sampleArgs 10 with startTime := 22, endTime := 30 }
      (play sampleWorld sampleFinalized) = .ok w') ∧
    (∃ w', initializeStaking samplePool 2 (play sampleWorld sampleFinalized) = .ok w') ∧
    ¬ ∃ w', initializeStaking ⟨1, 2, 100⟩ 2 (play sampleWorld sampleFinalized) = .ok w' := by
  have hrun : Run sampleWorld (steps sampleWorld sampleFinalized) (play sampleWorld sampleFinalized) :=
    play_run (by decide +kernel)
  obtain ⟨hpresale, hstaking⟩ := reachable_admits sampleWorld_genesis hrun
  have hmint : (play sampleWorld sampleFinalized).mints 100 = some ⟨none, 0⟩ := by decide +kernel
  have hsome : (play sampleWorld sampleFinalized).states 1 ≠ none := by decide +kernel
  refine ⟨(hpresale _ _).2 ⟨by decide +kernel, ⟨_, hmint⟩, ?_⟩, ?_, ?_⟩
  · constructor
    all_goals decide +kernel
  · exact (hstaking _ _).2 ⟨Option.ne_none_iff_exists'.1 hsome, rfl, by decide +kernel, ⟨_, hmint⟩, by decide⟩
  · intro hopened
    obtain ⟨-, hadmin, -⟩ := (hstaking _ _).1 hopened
    exact absurd hadmin (by decide)

end Presale

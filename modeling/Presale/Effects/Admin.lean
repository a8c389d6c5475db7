/-
What a successful call of the administrator found and did.
-/
import Presale.Effects.Transfer
import Presale.Program.Admin

namespace Presale

open Checked World

/-! ## Launching -/

/-- The configurations `initialize_presale` accepts at the clock time `now`. -/
structure InitializePresaleArgs.Accepted (args : InitializePresaleArgs) (now : ℤ) : Prop where
  start : now < args.startTime
  window : args.startTime < args.endTime
  caps : args.softCap ≤ args.hardCap ∧ 0 < args.hardCap
  contribution : 0 < args.maxContribution ∧ args.maxContribution ≤ args.hardCap
  duration : 0 < args.vestingDuration
  cliff : 0 ≤ args.vestingCliff ∧ args.vestingCliff ≤ args.vestingDuration
  bps : args.referralBonusBps ≤ 2500
  stages : args.stages ≠ [] ∧ args.stages.length ≤ 5
  priced : ∀ stage ∈ args.stages, 0 < stage.pricePerToken ∧ 0 < stage.tokensAvailable
  supply : (args.stages.map (·.tokensAvailable)).sum = args.tokensForSale
  supplyFits : args.tokensForSale < 2 ^ 64

theorem totalStageTokens_ok : ∀ {stages : List PresaleStage} {total r : ℕ}, total < 2 ^ 64 →
    totalStageTokens stages total = .ok r →
    total + (stages.map (·.tokensAvailable)).sum = r ∧ r < 2 ^ 64 ∧
      ∀ stage ∈ stages, 0 < stage.pricePerToken ∧ 0 < stage.tokensAvailable
  | [], total, r, ht, h => by
    cases h; simpa using ht
  | stage :: stages, total, r, _, h => by
    simp only [totalStageTokens, bind_ok_iff, require_eq_ok, okOr_eq_ok, add_eq_some] at h
    obtain ⟨_, hprice, _, havail, _, ⟨hfits, rfl⟩, h⟩ := h
    obtain ⟨hsum, hr, hrest⟩ := totalStageTokens_ok hfits h
    refine ⟨by rw [← hsum]; simp [Nat.add_assoc], hr, ?_⟩
    intro x hx
    rcases List.mem_cons.1 hx with rfl | hx
    · exact ⟨hprice, havail⟩
    · exact hrest x hx

structure Launched (ctx : InitializePresale) (args : InitializePresaleArgs) (w w' : World) : Prop where
  fresh : w.states ctx.admin = none
  noVault : w.tokenAccounts (.tokenVault ctx.admin) = none
  accepted : args.Accepted w.clock
  states : w'.states = Function.update w.states ctx.admin (some (args.toState ctx))
  tokenAccounts : w'.tokenAccounts = Function.update w.tokenAccounts (.tokenVault ctx.admin)
    (some ⟨ctx.mint, .vaultAuthority ctx.admin, 0⟩)
  lamports : w'.lamports = Function.update w.lamports (.solVault ctx.admin)
    (max (w.lamports (.solVault ctx.admin)) rentMinimum)
  clock : w'.clock = w.clock
  vestings : w'.vestings = w.vestings
  pools : w'.pools = w.pools
  userStakes : w'.userStakes = w.userStakes
  mints : w'.mints = w.mints

theorem initializePresale_ok {ctx : InitializePresale} {args : InitializePresaleArgs} {w w' : World}
    (h : initializePresale ctx args w = .ok w') : Launched ctx args w w' := by
  unfold initializePresale InitializePresale.tryAccounts at h
  simp only [bind_ok_iff, require_eq_ok, pure_ok_iff] at h
  obtain ⟨_, ⟨_, -, _, hfresh, w₁, hcreate, rfl⟩, _, hstart, _, hwindow, _, hcaps, _, hcontrib, _, hdur, _, hcliff, _, hbps,
    _, hstages, total, htotal, _, hsupply, rfl⟩ := h
  obtain ⟨hnone, rfl⟩ := createTokenAccount_ok hcreate
  obtain ⟨hsum, hfits, hpriced⟩ := totalStageTokens_ok (Nat.two_pow_pos 64) htotal
  exact ⟨hfresh, hnone, ⟨hstart, hwindow, hcaps, hcontrib, hdur, hcliff, hbps, hstages, hpriced, by omega, by omega⟩,
    rfl, rfl, rfl, rfl, rfl, rfl, rfl, rfl⟩

theorem initializePresale_mint {ctx : InitializePresale} {args : InitializePresaleArgs} {w w' : World}
    (h : initializePresale ctx args w = .ok w') : ∃ m, w.mints ctx.mint = some m := by
  unfold initializePresale InitializePresale.tryAccounts account at h
  obtain ⟨_, hacc, -⟩ := bind_ok_iff.1 h
  obtain ⟨m, hm, -⟩ := bind_ok_iff.1 hacc
  exact ⟨m, okOr_eq_ok.1 hm⟩

/-- The loop over the stages ends when each has a price and a supply, and the total fits. -/
theorem totalStageTokens_succeeds : ∀ {stages : List PresaleStage} {total : ℕ},
    (∀ stage ∈ stages, 0 < stage.pricePerToken ∧ 0 < stage.tokensAvailable) →
    total + (stages.map (·.tokensAvailable)).sum < 2 ^ 64 →
    totalStageTokens stages total = .ok (total + (stages.map (·.tokensAvailable)).sum)
  | [], _, _, _ => rfl
  | stage :: stages, total, hpriced, hfits => by
    obtain ⟨hprice, havail⟩ := hpriced stage List.mem_cons_self
    rw [List.map_cons, List.sum_cons, ← Nat.add_assoc] at hfits ⊢
    have hrest := totalStageTokens_succeeds (fun s hs => hpriced s (List.mem_cons_of_mem _ hs)) hfits
    simp only [totalStageTokens, bind_ok_iff, require_eq_ok, okOr_eq_ok, add_eq_some]
    exact ⟨(), hprice, (), havail, _, ⟨by omega, rfl⟩, hrest⟩

theorem initializePresale_succeeds {ctx : InitializePresale} {args : InitializePresaleArgs} {w : World}
    (hfresh : w.states ctx.admin = none) (hvault : w.tokenAccounts (.tokenVault ctx.admin) = none) (hm : ∃ m, w.mints ctx.mint = some m)
    (h : args.Accepted w.clock) : ∃ w', initializePresale ctx args w = .ok w' := by
  have hsum := h.supply
  have hfits := h.supplyFits
  have htotal : totalStageTokens args.stages 0 = .ok (0 + _) := totalStageTokens_succeeds h.priced (by omega)
  unfold initializePresale InitializePresale.tryAccounts account
  rw [createTokenAccount_succeeds hvault hm, htotal]
  obtain ⟨m, hm⟩ := hm
  simp only [bind_ok_iff, require_eq_ok, okOr_eq_ok, pure_ok_iff]
  exact ⟨_, _, ⟨m, hm, (), hfresh, _, rfl, rfl⟩, (), h.start, (), h.window, (), h.caps, (), h.contribution, (), h.duration, (), h.cliff,
    (), h.bps, (), h.stages, _, rfl, (), by omega, rfl⟩

/-! ## Flags -/

/-- The flags an administrator sets on a running presale: paused, active and the action lock. -/
def PresaleState.withFlags (st : PresaleState) (active paused : Bool) (lock : ℤ) : PresaleState :=
  { st with isActive := active, isPaused := paused, adminActionsLockedUntil := lock }

/-- A call that writes the flags of a presale and nothing else. -/
structure FlagsSet (admin : Pubkey) (w w' : World) (st : PresaleState) (active paused : Bool) (lock : ℤ) : Prop where
  state : w.states admin = some st
  states : w'.states = Function.update w.states admin (some (st.withFlags active paused lock))
  clock : w'.clock = w.clock
  vestings : w'.vestings = w.vestings
  pools : w'.pools = w.pools
  userStakes : w'.userStakes = w.userStakes
  mints : w'.mints = w.mints
  tokenAccounts : w'.tokenAccounts = w.tokenAccounts
  lamports : w'.lamports = w.lamports

theorem togglePause_ok {ctx : AdminOnly} {paused : Bool} {w w' : World} (h : togglePause ctx paused w = .ok w') :
    ∃ st, FlagsSet ctx.state w w' st st.isActive paused st.adminActionsLockedUntil ∧
      st.adminActionsLockedUntil ≤ w.clock ∧ ctx.admin = st.admin := by
  unfold togglePause AdminOnly.tryAccounts account at h
  simp only [bind_ok_iff, require_eq_ok, okOr_eq_ok, pure_ok_iff] at h
  obtain ⟨st, hst, _, hlock, _, hadmin, rfl⟩ := h
  exact ⟨st, ⟨hst, rfl, rfl, rfl, rfl, rfl, rfl, rfl, rfl⟩, hlock, hadmin⟩

theorem finalizePresale_ok {ctx : AdminOnly} {w w' : World} (h : finalizePresale ctx w = .ok w') :
    ∃ st, FlagsSet ctx.state w w' st false st.isPaused st.adminActionsLockedUntil ∧
      st.adminActionsLockedUntil ≤ w.clock ∧ ctx.admin = st.admin ∧ st.endTime < w.clock := by
  unfold finalizePresale AdminOnly.tryAccounts account at h
  simp only [bind_ok_iff, require_eq_ok, okOr_eq_ok, pure_ok_iff] at h
  obtain ⟨st, hst, _, hlock, _, hadmin, _, hended, rfl⟩ := h
  exact ⟨st, ⟨hst, rfl, rfl, rfl, rfl, rfl, rfl, rfl, rfl⟩, hlock, hadmin, hended⟩

theorem setAdminActionsLock_ok {ctx : AdminOnly} {unlockTimestamp : ℤ} {w w' : World}
    (h : setAdminActionsLock ctx unlockTimestamp w = .ok w') :
    ∃ st, FlagsSet ctx.state w w' st st.isActive st.isPaused unlockTimestamp ∧
      ctx.admin = st.admin ∧ w.clock < unlockTimestamp := by
  unfold setAdminActionsLock AdminOnly.tryAccounts account at h
  simp only [bind_ok_iff, require_eq_ok, okOr_eq_ok, pure_ok_iff] at h
  obtain ⟨st, hst, _, hadmin, _, hfuture, rfl⟩ := h
  exact ⟨st, ⟨hst, rfl, rfl, rfl, rfl, rfl, rfl, rfl, rfl⟩, hadmin, hfuture⟩

/-! ## Moving tokens and lamports -/

structure Funded (ctx : FundVault) (amount : ℕ) (w w' : World) (st : PresaleState) : Prop where
  state : w.states ctx.state = some st
  admin : ctx.admin = st.admin
  early : w.clock < st.startTime
  source : ∃ a, w.tokenAccounts ctx.adminTokenAccount = some a ∧ a.owner = .key ctx.admin
  move : TokenMove w.tokenAccounts w'.tokenAccounts ctx.adminTokenAccount (.tokenVault ctx.state) amount
  states : w'.states = w.states
  clock : w'.clock = w.clock
  vestings : w'.vestings = w.vestings
  pools : w'.pools = w.pools
  userStakes : w'.userStakes = w.userStakes
  mints : w'.mints = w.mints
  lamports : w'.lamports = w.lamports

theorem fundPresaleVault_ok {ctx : FundVault} {amount : ℕ} {w w' : World}
    (h : fundPresaleVault ctx amount w = .ok w') : ∃ st, Funded ctx amount w w' st := by
  unfold fundPresaleVault FundVault.tryAccounts account at h
  simp only [bind_ok_iff, require_eq_ok, okOr_eq_ok, pure_ok_iff, Prod.exists, Prod.mk.injEq] at h
  obtain ⟨st, mint, ⟨_, hst, a, ha, _, -, _, -, _, howner, _, -, rfl, rfl⟩, _, hadmin, _, hearly, w₁, htr, rfl⟩ := h
  obtain ⟨-, hmove, hw₁⟩ := transferChecked_ok htr
  refine ⟨_, ⟨hst, hadmin, hearly, ⟨a, ha, howner⟩, hmove, ?_, ?_, ?_, ?_, ?_, ?_, ?_⟩⟩
  all_goals rw [hw₁]; rfl

structure FundsWithdrawn (ctx : WithdrawFunds) (w w' : World) (st : PresaleState) : Prop where
  state : w.states ctx.state = some st
  unlocked : st.adminActionsLockedUntil ≤ w.clock
  admin : ctx.admin = st.admin
  treasury : ctx.treasury = st.treasury
  ended : st.endTime < w.clock
  softCap : st.softCapLamports ≤ st.totalRaisedLamports
  pos : 0 < w.lamports (.solVault ctx.state)
  lamports : w'.lamports =
    movedLamports w.lamports (.solVault ctx.state) ctx.treasury (w.lamports (.solVault ctx.state))
  states : w'.states = w.states
  clock : w'.clock = w.clock
  vestings : w'.vestings = w.vestings
  pools : w'.pools = w.pools
  userStakes : w'.userStakes = w.userStakes
  mints : w'.mints = w.mints
  tokenAccounts : w'.tokenAccounts = w.tokenAccounts

theorem withdrawFunds_ok {ctx : WithdrawFunds} {w w' : World} (h : withdrawFunds ctx w = .ok w') :
    ∃ st, FundsWithdrawn ctx w w' st := by
  unfold withdrawFunds WithdrawFunds.tryAccounts account at h
  simp only [bind_ok_iff, require_eq_ok, okOr_eq_ok, pure_ok_iff] at h
  obtain ⟨st, ⟨_, hst, _, htreasury, _, -, rfl⟩, _, hlock, _, hadmin, _, hended, _, hsoft, _, hpos, htr⟩ := h
  obtain ⟨-, rfl⟩ := systemTransfer_ok htr
  exact ⟨_, ⟨hst, hlock, hadmin, htreasury, hended, hsoft, hpos, rfl, rfl, rfl, rfl, rfl, rfl, rfl, rfl⟩⟩

structure UnsoldWithdrawn (ctx : AdminWithdraw) (w w' : World) (st : PresaleState) (amount : ℕ) : Prop where
  state : w.states ctx.state = some st
  unlocked : st.adminActionsLockedUntil ≤ w.clock
  admin : ctx.admin = st.admin
  ended : st.endTime < w.clock
  amountEq : amount = w.balance (.tokenVault ctx.state) - (st.tokensSold + st.totalReferralBonuses)
  pos : 0 < amount
  tokenAccounts : ∃ f, AccountReady w.tokenAccounts f (.ata (.key ctx.admin) ctx.mint) ∧
    TokenMove f w'.tokenAccounts (.tokenVault ctx.state) (.ata (.key ctx.admin) ctx.mint) amount
  states : w'.states = w.states
  clock : w'.clock = w.clock
  vestings : w'.vestings = w.vestings
  pools : w'.pools = w.pools
  userStakes : w'.userStakes = w.userStakes
  mints : w'.mints = w.mints
  lamports : w'.lamports = w.lamports

theorem withdrawUnsold_ok {ctx : AdminWithdraw} {w w' : World} (h : withdrawUnsold ctx w = .ok w') :
    ∃ st amount, UnsoldWithdrawn ctx w w' st amount := by
  unfold withdrawUnsold AdminWithdraw.tryAccounts account at h
  simp only [bind_ok_iff, require_eq_ok, okOr_eq_ok, add_eq_some, pure_ok_iff, Prod.exists, Prod.mk.injEq] at h
  obtain ⟨_, _, _, _, ⟨st, hst, _, -, vault, hvault, w₁, hata, rfl, rfl, rfl, rfl⟩, _, hlock, _, hadmin, _, hended,
    _, ⟨-, rfl⟩, _, hpos, w₂, htr, rfl⟩ := h
  obtain ⟨hready, hw₁⟩ := initAtaIfNeeded_ok hata
  obtain ⟨-, hmove, hw₂⟩ := transferChecked_ok htr
  have hclock := congrArg World.clock hw₁
  simp only at hclock
  rw [hclock] at hlock hended
  have hbal : w.balance (.tokenVault ctx.state) = vault.amount := by simp [balance, hvault]
  refine ⟨_, _, ⟨hst, hlock, hadmin, hended, by rw [hbal], hpos, ⟨_, hready, hmove⟩, ?_, ?_, ?_, ?_, ?_, ?_, ?_⟩⟩
  all_goals rw [hw₂, hw₁]; rfl

/-- A withdrawal that finds nothing to withdraw finds no more in the vault than it keeps back. -/
theorem withdrawUnsold_nothing {ctx : AdminWithdraw} {w : World}
    (h : withdrawUnsold ctx w = .error (.presale .nothingToWithdraw)) :
    ∃ st, w.states ctx.state = some st ∧
      w.balance (.tokenVault ctx.state) ≤ st.tokensSold + st.totalReferralBonuses := by
  unfold withdrawUnsold AdminWithdraw.tryAccounts account at h
  simp only [bind_error_iff, bind_ok_iff, require_eq_ok, require_eq_error, okOr_eq_ok, okOr_eq_error, add_eq_some,
    pure_ok_iff, pure_ne_error, reduceCtorEq, Error.presale.injEq, and_false, false_or, exists_false, or_false,
    Prod.exists, Prod.mk.injEq] at h
  rcases h with ⟨_, _, _, _, _, _, herr⟩ | ⟨_, _, _, _, ⟨st, hst, _, -, vault, hvault, w₁, -, rfl, rfl, rfl, rfl⟩, _, -, _,
    -, _, -, _, ⟨-, rfl⟩, hnot | ⟨_, _, htr⟩⟩
  · obtain ⟨r, hr⟩ := initAtaIfNeeded_error herr
    cases hr
  · have hbal : w.balance (.tokenVault ctx.state) = vault.amount := by simp [balance, hvault]
    exact ⟨st, hst, by omega⟩
  · obtain ⟨r, hr⟩ := transferChecked_error htr
    cases hr

/-! ## Token creation -/

/-- A new mint takes no tokens from an account and writes no record of the program. -/
structure TokenCreated (w w' : World) : Prop where
  kept : ∀ x t, w.tokenAccounts x = some t → ∃ n, t.amount ≤ n ∧ w'.tokenAccounts x = some { t with amount := n }
  vaults : ∀ x, w.tokenAccounts x = none → w'.tokenAccounts x ≠ none → ∃ owner mint, x = .ata owner mint
  states : w'.states = w.states
  clock : w'.clock = w.clock
  vestings : w'.vestings = w.vestings
  pools : w'.pools = w.pools
  userStakes : w'.userStakes = w.userStakes
  lamports : w'.lamports = w.lamports
  mints : ∀ k m, w.mints k = some m → w'.mints k = some m

theorem createAdminAta_ok {ctx : CreateToken} {w w' : World} (h : createAdminAta ctx w = .ok w') :
    AccountReady w.tokenAccounts w'.tokenAccounts (.ata (.key ctx.admin) ctx.mint) ∧
      w' = { w with tokenAccounts := w'.tokenAccounts } := by
  unfold createAdminAta at h
  split at h
  · simp only [bind_ok_iff, require_eq_ok] at h
    obtain ⟨_, hata, h⟩ := h
    rw [hata] at h
    exact accountReady_create h
  · cases h
    exact ⟨.refl _ _, rfl⟩

/-- Minting only adds tokens to an account that is there. -/
theorem mintInitialSupply_ok {ctx : CreateToken} {initialSupply : ℕ} {w w' : World}
    (h : mintInitialSupply ctx initialSupply w = .ok w') :
    (∀ x t, w.tokenAccounts x = some t → ∃ n, t.amount ≤ n ∧ w'.tokenAccounts x = some { t with amount := n }) ∧
    (∀ x, w.tokenAccounts x = none → w'.tokenAccounts x = none) ∧
    w' = { w with tokenAccounts := w'.tokenAccounts } := by
  unfold mintInitialSupply at h
  split at h
  · obtain ⟨a, _, ha, -, -, -, rfl⟩ := mintTo_ok h
    refine ⟨?_, ?_, rfl⟩
    · intro x t ht
      by_cases hx : x = ctx.adminTokenAccount
      · subst hx
        rw [ha] at ht; cases ht
        exact ⟨a.amount + initialSupply, by omega, by simp⟩
      · exact ⟨t.amount, le_rfl, by simpa [Function.update_of_ne hx] using ht⟩
    · intro x hx
      have hne : x ≠ ctx.adminTokenAccount := by rintro rfl; rw [ha] at hx; cases hx
      simpa [Function.update_of_ne hne] using hx
  · cases h
    exact ⟨fun x t ht => ⟨t.amount, le_rfl, ht⟩, fun _ hx => hx, rfl⟩

theorem createToken_ok {ctx : CreateToken} {decimals initialSupply : ℕ} {name symbol uri : String} {w w' : World}
    (h : createToken ctx decimals initialSupply name symbol uri w = .ok w') : TokenCreated w w' := by
  unfold createToken at h
  simp only [bind_ok_iff, require_eq_ok, pure_ok_iff] at h
  obtain ⟨_, -, _, -, _, -, _, -, _, -, _, -, _, ⟨hmint, -, -⟩, w₁, hata, w₂, hsupply, w₃, hrevoke, rfl⟩ := h
  obtain ⟨hready, hw₁⟩ := createAdminAta_ok hata
  obtain ⟨hkept, habsent, hw₂⟩ := mintInitialSupply_ok hsupply
  obtain ⟨_, -, -, rfl⟩ := setMintAuthority_ok hrevoke
  refine ⟨?_, ?_, ?_, ?_, ?_, ?_, ?_, ?_, ?_⟩
  · intro x t ht
    exact hkept x t (hready.kept x t ht)
  · intro x hx hx'
    by_cases hxa : x = .ata (.key ctx.admin) ctx.mint
    · exact ⟨_, _, hxa⟩
    · exact absurd (habsent x ((hready.other x hxa).trans hx)) hx'
  · rw [hw₂, hw₁]; rfl
  · rw [hw₂, hw₁]; rfl
  · rw [hw₂, hw₁]; rfl
  · rw [hw₂, hw₁]; rfl
  · rw [hw₂, hw₁]; rfl
  · rw [hw₂, hw₁]; rfl
  · intro k m hk
    have hne : k ≠ ctx.mint := by rintro rfl; rw [hmint] at hk; cases hk
    rw [hw₂, hw₁]
    simpa [Function.update_of_ne hne] using hk

end Presale

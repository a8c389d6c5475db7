/-
What a step can do to one presale: its state, whatever other presales do; and the vesting records,
its token vault and its sol vault, when no other presale writes a vesting record.
-/
import Presale.Lib.Custody
import Presale.Steps.Frame

namespace Presale

open World

/-! ## The state -/

/-- The presale whose action lock a step sets, and the timestamp it names. -/
def Label.setsLock : Label → Option (Pubkey × ℤ)
  | .ok (.setAdminActionsLock ctx unlockTimestamp) => some (ctx.state, unlockTimestamp)
  | _ => none

/-- The steps of the state of the presale of `A`. -/
inductive StateStep (A : Pubkey) (w : World) : Label → World → Prop
  | launch {ctx : InitializePresale} {args : InitializePresaleArgs} {w' : World} : ctx.admin = A →
      Launched ctx args w w' → StateStep A w (.ok (.initializePresale ctx args)) w'
  | buy {ctx : BuyTokens} {solAmount : ℕ} {referrer : Option Address} {w' : World} {st : PresaleState} {m : Mint}
      {wk : Walk} {solUsed bonus : ℕ} : ctx.state = A → Bought ctx solAmount referrer w w' st m wk solUsed bonus →
      StateStep A w (.ok (.buyTokens ctx solAmount referrer)) w'
  | flags {l : Label} {w' : World} {st : PresaleState} {active paused : Bool} {lock : ℤ} :
      FlagsSet A w w' st active paused lock → lock = st.adminActionsLockedUntil ∨ l.setsLock = some (A, lock) →
      StateStep A w l w'
  | kept {l : Label} {w' : World} : w'.states A = w.states A → StateStep A w l w'

/-- Every step is one of the state's. -/
theorem Step.stateStep {w w' : World} {l : Label} (ho : Owned w.tokenAccounts) (h : Step w l w') (A : Pubkey) :
    StateStep A w l w' := by
  by_cases hl : l.writesState = some A
  · cases h with
    | failed => cases hl
    | outside => cases hl
    | @ok c _ _ _ h =>
      cases c with
      | initializePresale => exact .launch (Option.some.inj hl) (initializePresale_ok h)
      | buyTokens =>
        obtain ⟨_, _, _, _, _, hb⟩ := buyTokens_ok h
        exact .buy (Option.some.inj hl) hb
      | togglePause =>
        obtain ⟨_, hset, -⟩ := togglePause_ok h
        exact .flags (Option.some.inj hl ▸ hset) (.inl rfl)
      | finalizePresale =>
        obtain ⟨_, hset, -⟩ := finalizePresale_ok h
        exact .flags (Option.some.inj hl ▸ hset) (.inl rfl)
      | setAdminActionsLock ctx t =>
        obtain ⟨_, hset, -⟩ := setAdminActionsLock_ok h
        obtain rfl : ctx.state = A := Option.some.inj hl
        exact .flags hset (.inr rfl)
      | _ => cases hl
  · exact .kept ((h.frame ho).states A hl)

/-! ## Vesting records -/

theorem vesting_update {w w' : World} {u : Pubkey} {v : UserVesting}
    (h : w'.vestings = Function.update w.vestings u (some v)) : w'.vesting = Function.update w.vesting u v := by
  funext x
  unfold vesting
  rw [h]
  by_cases hx : x = u
  · subst hx; simp
  · simp [Function.update_of_ne hx]

theorem vesting_of {w : World} {u : Pubkey} {v : UserVesting} (h : w.vestings u = some v) : w.vesting u = v := by
  simp [vesting, h]

theorem vesting_congr {w w' : World} (h : w'.vestings = w.vestings) : w'.vesting = w.vesting := by
  funext u
  unfold vesting
  rw [h]

/-! ## Steps of a sale -/

/-- The step writes no vesting record for a presale other than that of `A`. -/
def Label.OnlySale (A : Pubkey) (l : Label) : Prop := ∀ B, l.writesVesting = some B → B = A

instance (A : Pubkey) (l : Label) : Decidable (l.OnlySale A) :=
  decidable_of_iff (l.writesVesting = none ∨ l.writesVesting = some A) (by
    unfold Label.OnlySale
    cases l.writesVesting <;> simp)

/-- The presale of `A` is left alone: its vaults lose nothing. -/
structure SaleQuiet (A : Pubkey) (w w' : World) : Prop where
  state : w'.states A = w.states A
  vestings : w'.vestings = w.vestings
  vault : w.balance (.tokenVault A) ≤ w'.balance (.tokenVault A)
  sol : w.lamports (.solVault A) ≤ w'.lamports (.solVault A)

/-- The steps of the presale of `A`. -/
inductive SaleStep (A : Pubkey) (w : World) : Label → World → Prop
  | launch {ctx : InitializePresale} {args : InitializePresaleArgs} {w' : World} : ctx.admin = A →
      Launched ctx args w w' → SaleStep A w (.ok (.initializePresale ctx args)) w'
  | buy {ctx : BuyTokens} {solAmount : ℕ} {referrer : Option Address} {w' : World} {st : PresaleState} {m : Mint}
      {wk : Walk} {solUsed bonus : ℕ} : ctx.state = A → Bought ctx solAmount referrer w w' st m wk solUsed bonus →
      SaleStep A w (.ok (.buyTokens ctx solAmount referrer)) w'
  | claim {ctx : ClaimVested} {w' : World} {st : PresaleState} {v : UserVesting} {paid : ℕ} : ctx.state = A →
      Claimed ctx w w' st v paid → SaleStep A w (.ok (.claimVested ctx)) w'
  | refund {ctx : ClaimRefund} {w' : World} {st : PresaleState} {v : UserVesting} : ctx.state = A →
      Refunded ctx w w' st v → SaleStep A w (.ok (.claimRefund ctx)) w'
  | flags {l : Label} {w' : World} {st : PresaleState} {active paused : Bool} {lock : ℤ} : l.writesVesting = none →
      FlagsSet A w w' st active paused lock → SaleStep A w l w'
  | withdrawFunds {ctx : WithdrawFunds} {w' : World} {st : PresaleState} : ctx.state = A →
      FundsWithdrawn ctx w w' st → SaleStep A w (.ok (.withdrawFunds ctx)) w'
  | withdrawUnsold {ctx : AdminWithdraw} {w' : World} {st : PresaleState} {amount : ℕ} : ctx.state = A →
      UnsoldWithdrawn ctx w w' st amount → SaleStep A w (.ok (.withdrawUnsold ctx)) w'
  | quiet {l : Label} {w' : World} : l.writesVesting = none → SaleQuiet A w w' → SaleStep A w l w'

/-- A step outside the footprint of `A` leaves the presale alone. -/
theorem Frame.saleQuiet {A : Pubkey} {w w' : World} {l : Label} (h : Frame w l w') (hs : l.writesState ≠ some A)
    (hv : l.writesVesting = none) (ht : .tokenVault A ∉ l.spends) (hsol : .solVault A ∉ l.spends) :
    SaleStep A w l w' :=
  .quiet hv ⟨h.states A hs, h.vestings hv, h.balance _ (isVault_tokenVault A) ht, h.lamports A hsol⟩

/-- Every step is one of the presale's. -/
theorem Step.sale {A : Pubkey} {w w' : World} {l : Label} (ho : Owned w.tokenAccounts) (h : Step w l w')
    (honly : l.OnlySale A) : SaleStep A w l w' := by
  have hf := h.frame ho
  have hno : (none : Option Pubkey) ≠ some A := by simp
  have hnil : ∀ x : Address, x ∉ ([] : List Address) := fun _ => List.not_mem_nil
  cases h with
  | failed _ _ => exact hf.saleQuiet hno rfl (hnil _) (hnil _)
  | outside _ => exact hf.saleQuiet hno rfl (hnil _) (hnil _)
  | @ok c _ _ _ h =>
    cases c with
    | createToken => exact hf.saleQuiet hno rfl (hnil _) (hnil _)
    | initializePresale ctx _ =>
      by_cases hA : ctx.admin = A
      · exact .launch hA (initializePresale_ok h)
      · exact hf.saleQuiet (fun he => hA (Option.some.inj he)) rfl (hnil _) (hnil _)
    | fundPresaleVault => exact hf.saleQuiet hno rfl (hnil _) (hnil _)
    | buyTokens =>
      obtain ⟨_, _, _, _, _, hb⟩ := buyTokens_ok h
      exact .buy (honly _ rfl) hb
    | claimVested =>
      obtain ⟨_, _, _, hc⟩ := claimVested_ok h
      exact .claim (honly _ rfl) hc
    | claimRefund =>
      obtain ⟨_, _, hr⟩ := claimRefund_ok h
      exact .refund (honly _ rfl) hr
    | togglePause ctx _ =>
      obtain ⟨_, hset, -⟩ := togglePause_ok h
      by_cases hA : ctx.state = A
      · exact .flags rfl (hA ▸ hset)
      · exact hf.saleQuiet (fun he => hA (Option.some.inj he)) rfl (hnil _) (hnil _)
    | finalizePresale ctx =>
      obtain ⟨_, hset, -⟩ := finalizePresale_ok h
      by_cases hA : ctx.state = A
      · exact .flags rfl (hA ▸ hset)
      · exact hf.saleQuiet (fun he => hA (Option.some.inj he)) rfl (hnil _) (hnil _)
    | withdrawFunds ctx =>
      by_cases hA : ctx.state = A
      · obtain ⟨_, hw⟩ := withdrawFunds_ok h
        exact .withdrawFunds hA hw
      · refine hf.saleQuiet hno rfl ?_ ?_
        · simp [Label.spends, Label.footprint, Call.spends]
        · simpa [Label.spends, Label.footprint, Call.spends] using Ne.symm hA
    | withdrawUnsold ctx =>
      by_cases hA : ctx.state = A
      · obtain ⟨_, _, hw⟩ := withdrawUnsold_ok h
        exact .withdrawUnsold hA hw
      · refine hf.saleQuiet hno rfl ?_ ?_
        · simpa [Label.spends, Label.footprint, Call.spends] using Ne.symm hA
        · simp [Label.spends, Label.footprint, Call.spends]
    | initializeStaking => exact hf.saleQuiet hno rfl (hnil _) (hnil _)
    | fundRewardVault => exact hf.saleQuiet hno rfl (hnil _) (hnil _)
    | stake => exact hf.saleQuiet hno rfl (hnil _) (hnil _)
    | unstake =>
      refine hf.saleQuiet hno rfl ?_ ?_
      · simp [Label.spends, Label.footprint, Call.spends]
      · simp [Label.spends, Label.footprint, Call.spends]
    | claimRewards =>
      refine hf.saleQuiet hno rfl ?_ ?_
      · simp [Label.spends, Label.footprint, Call.spends]
      · simp [Label.spends, Label.footprint, Call.spends]
    | setAdminActionsLock ctx _ =>
      obtain ⟨_, hset, -⟩ := setAdminActionsLock_ok h
      by_cases hA : ctx.state = A
      · exact .flags rfl (hA ▸ hset)
      · exact hf.saleQuiet (fun he => hA (Option.some.inj he)) rfl (hnil _) (hnil _)

/-! ## Reachable vaults -/

/-- A run keeps the vaults under the program's authorities. -/
theorem Run.owned {w₀ w : World} {tr : List Transition} (h : Run w₀ tr w) (ho : Owned w₀.tokenAccounts) :
    Owned w.tokenAccounts :=
  Runs.Run.preserves (I := fun w => Owned w.tokenAccounts) (fun _ _ _ ho hs => (hs.frame ho).evolves.owned ho) h ho

theorem Genesis.owned {w : World} (h : Genesis w) : Owned w.tokenAccounts := by
  intro a t ha ht
  rw [h.vaults a ha] at ht
  cases ht

end Presale

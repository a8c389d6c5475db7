/-
The event log as a journal: a machine whose events keep each user's position, the presales and pools
with their terms, and the totals of them all. The program is an implementation of it: every step logs
events the journal admits, and what they say is what the records hold.
-/
import Presale.Effects.Log
import Presale.Lib.Custody
import Presale.Lib.EventLog
import Presale.Program.Script
import Presale.Steps.Pool
import Presale.Steps.Sale

namespace Presale

open World EventLog

/-! ## The journal -/

/-- What the log says of a user. -/
structure Position where
  locked : ℕ := 0
  claimed : ℕ := 0
  contributed : ℕ := 0
  staked : ℕ := 0
  deriving DecidableEq

/-- What the log says of a presale. -/
structure Listing where
  tokenMint : Pubkey
  softCap : ℕ
  hardCap : ℕ
  startTime : ℤ
  endTime : ℤ
  lockedUntil : ℤ
  deriving DecidableEq

@[ext] structure Journal where
  positions : Pubkey → Position
  listings : Pubkey → Option Listing
  rates : Pubkey → Option ℕ
  /-- Over all presales, and over all pools. -/
  sold : ℕ
  raised : ℕ
  bonuses : ℕ
  staked : ℕ

/-- Before the first event. -/
def Journal.empty : Journal := ⟨fun _ => {}, fun _ => none, fun _ => none, 0, 0, 0, 0⟩

def Journal.setPosition (j : Journal) (u : Pubkey) (p : Position) : Journal :=
  { j with positions := Function.update j.positions u p }

/-- The entry an event makes. -/
def Journal.apply (j : Journal) : Event → Journal
  | .presaleInitialized admin tokenMint softCap hardCap startTime endTime =>
    { j with
      listings := Function.update j.listings admin
        (some { tokenMint, softCap, hardCap, startTime, endTime, lockedUntil := 0 }) }
  | .adminActionsLockSet admin unlockTimestamp =>
    { j with
      listings := Function.update j.listings admin
        ((j.listings admin).map fun l => { l with lockedUntil := unlockTimestamp }) }
  | .tokensPurchased buyer amountSol tokensReceived _ =>
    { j.setPosition buyer
        { j.positions buyer with
          locked := (j.positions buyer).locked + tokensReceived
          contributed := (j.positions buyer).contributed + amountSol } with
      sold := j.sold + tokensReceived
      raised := j.raised + amountSol }
  | .referralBonus _ _ bonusAmount => { j with bonuses := j.bonuses + bonusAmount }
  | .tokensClaimed user amount =>
    j.setPosition user { j.positions user with claimed := (j.positions user).claimed + amount }
  | .refundClaimed user amountSol =>
    j.setPosition user { j.positions user with contributed := (j.positions user).contributed - amountSol }
  | .stakingInitialized admin rewardRatePerSecond =>
    { j with rates := Function.update j.rates admin (some rewardRatePerSecond) }
  | .staked user amount =>
    { j.setPosition user { j.positions user with staked := (j.positions user).staked + amount } with
      staked := j.staked + amount }
  | .unstaked user amount _ =>
    { j.setPosition user { j.positions user with staked := (j.positions user).staked - amount } with
      staked := j.staked - amount }
  | _ => j

/-- The events a journal admits. -/
def Journal.Admits (j : Journal) : Event → Prop
  | .presaleInitialized admin _ _ _ _ _ => j.listings admin = none
  | .adminActionsLockSet admin _ => j.listings admin ≠ none
  | .tokensPurchased _ amountSol tokensReceived _ => 0 < amountSol ∧ 0 < tokensReceived
  | .referralBonus _ _ bonusAmount => 0 < bonusAmount
  | .tokensClaimed user amount => 0 < amount ∧ (j.positions user).claimed + amount ≤ (j.positions user).locked
  | .refundClaimed user amountSol => 0 < amountSol ∧ amountSol = (j.positions user).contributed
  | .stakingInitialized admin rewardRatePerSecond =>
    j.listings admin ≠ none ∧ j.rates admin = none ∧ rewardRatePerSecond ≤ maxRewardRatePerSecond
  | .staked _ amount => 0 < amount
  | .unstaked user amount _ => 0 < amount ∧ amount ≤ (j.positions user).staked
  | _ => True

/-! ## The records as a journal -/

def World.position (w : World) (u : Pubkey) : Position where
  locked := (w.vesting u).totalLocked
  claimed := (w.vesting u).alreadyClaimed
  contributed := (w.vesting u).contributedLamports
  staked := (w.userStake u).amount

def PresaleState.listing (st : PresaleState) : Listing where
  tokenMint := st.tokenMint
  softCap := st.softCapLamports
  hardCap := st.hardCapLamports
  startTime := st.startTime
  endTime := st.endTime
  lockedUntil := st.adminActionsLockedUntil

/-- A counter of the records at some addresses, none where there is no record. -/
def counted {α : Type} (g : α → ℕ) (o : Option α) : ℕ := (o.map g).getD 0

@[simp] theorem counted_some {α : Type} (g : α → ℕ) (a : α) : counted g (some a) = g a := rfl

@[simp] theorem counted_none {α : Type} (g : α → ℕ) : counted g none = 0 := rfl

/-- The counter of all records together. -/
@[irreducible] def overall {α : Type} (g : α → ℕ) (f : Pubkey → Option α) : ℕ := ∑ A, counted g (f A)

def World.journal (w : World) : Journal where
  positions := w.position
  listings A := (w.states A).map (·.listing)
  rates A := (w.pools A).map (·.rewardRatePerSecond)
  sold := overall (·.tokensSold) w.states
  raised := overall (·.totalRaisedLamports) w.states
  bonuses := overall (·.totalReferralBonuses) w.states
  staked := overall (·.totalStaked) w.pools

/-! ## One record changes -/

section
variable {α β : Type} {f f' : Pubkey → Option α} {A : Pubkey} {x y : α}

/-- One record is replaced: its counter is replaced in the total. -/
theorem overall_update (g : α → ℕ) (h : f' = Function.update f A (some y)) (hA : f A = some x) :
    overall g f' + g x = overall g f + g y := by
  have hsum := Custody.sum_field (counted g) f A (some y)
  rw [hA, counted_some, counted_some] at hsum
  unfold overall
  rw [h]
  exact hsum

/-- A new record whose counter starts at zero. -/
theorem overall_new (g : α → ℕ) (h : f' = Function.update f A (some y)) (hA : f A = none) (hg : g y = 0) :
    overall g f' = overall g f := by
  have hsum := Custody.sum_field (counted g) f A (some y)
  rw [hA, counted_some, counted_none, hg, Nat.add_zero, Nat.add_zero] at hsum
  unfold overall
  rw [h]
  exact hsum

theorem overall_same (g : α → ℕ) (h : f' = Function.update f A (some y)) (hA : f A = some x) (hg : g y = g x) :
    overall g f' = overall g f := by
  have hsum := overall_update g h hA
  omega

/-- What is read off each record, when one of them is replaced. -/
theorem map_update (g : α → β) (h : f' = Function.update f A (some y)) :
    (fun B => (f' B).map g) = Function.update (fun B => (f B).map g) A (some (g y)) := by
  funext B
  rw [h]
  exact Custody.field_update (Option.map g) f A (some y) B

theorem map_update_same (g : α → β) (h : f' = Function.update f A (some y)) (hA : f A = some x) (hg : g y = g x) :
    (fun B => (f' B).map g) = fun B => (f B).map g := by
  rw [map_update g h, hg]
  exact Function.update_eq_self_iff.2 (by rw [hA]; rfl)

end

section
variable {w w' : World}

theorem position_vesting {u : Pubkey} {v : UserVesting} (hv : w'.vestings = Function.update w.vestings u (some v))
    (hs : w'.userStakes = w.userStakes) : w'.position = Function.update w.position u
      { w.position u with locked := v.totalLocked, claimed := v.alreadyClaimed, contributed := v.contributedLamports } := by
  funext x
  unfold position
  rw [vesting_update hv, userStake_congr hs]
  by_cases hx : x = u
  · subst hx; simp
  · simp [Function.update_of_ne hx]

theorem position_stake {u : Pubkey} {s : UserStake} (hs : w'.userStakes = Function.update w.userStakes u (some s))
    (hv : w'.vestings = w.vestings) : w'.position = Function.update w.position u
      { w.position u with staked := s.amount } := by
  funext x
  unfold position
  rw [userStake_update hs, vesting_congr hv]
  by_cases hx : x = u
  · subst hx; simp
  · simp [Function.update_of_ne hx]

theorem position_congr (hv : w'.vestings = w.vestings) (hs : w'.userStakes = w.userStakes) : w'.position = w.position := by
  unfold position
  rw [vesting_congr hv, userStake_congr hs]

/-- A step that leaves the records alone. -/
theorem journal_congr (hst : w'.states = w.states) (hv : w'.vestings = w.vestings) (hp : w'.pools = w.pools)
    (hs : w'.userStakes = w.userStakes) : w'.journal = w.journal := by
  unfold journal
  rw [position_congr hv hs, hst, hp]

end

/-! ## What each call journals -/

/-- Every presale is found under its own admin. -/
def KeyedByAdmin (w : World) : Prop := ∀ A st, w.states A = some st → st.admin = A

section
variable {w w' : World}

theorem Launched.journal {ctx : InitializePresale} {args : InitializePresaleArgs} (h : Launched ctx args w w') :
    w'.journal = w.journal.apply
      (.presaleInitialized ctx.admin ctx.mint args.softCap args.hardCap args.startTime args.endTime) := by
  apply Journal.ext
  · exact position_congr h.vestings h.userStakes
  · exact map_update _ h.states
  · exact congrArg (fun f A => (f A).map StakePool.rewardRatePerSecond) h.pools
  · exact overall_new _ h.states h.fresh rfl
  · exact overall_new _ h.states h.fresh rfl
  · exact overall_new _ h.states h.fresh rfl
  · exact congrArg (overall StakePool.totalStaked) h.pools

/-- Flags are journalled as the lock they leave. -/
theorem FlagsSet.journal {A : Pubkey} {st : PresaleState} {active paused : Bool} {lock : ℤ}
    (h : FlagsSet A w w' st active paused lock) : w'.journal = w.journal.apply (.adminActionsLockSet A lock) := by
  apply Journal.ext
  · exact position_congr h.vestings h.userStakes
  · refine (map_update _ h.states).trans ?_
    simp [Journal.apply, World.journal, h.state, PresaleState.withFlags, PresaleState.listing]
  · exact congrArg (fun f A => (f A).map StakePool.rewardRatePerSecond) h.pools
  · exact overall_same _ h.states h.state rfl
  · exact overall_same _ h.states h.state rfl
  · exact overall_same _ h.states h.state rfl
  · exact congrArg (overall StakePool.totalStaked) h.pools

/-- A lock that stays makes no entry. -/
theorem apply_lock_same {A : Pubkey} {st : PresaleState} (h : w.states A = some st) :
    w.journal.apply (.adminActionsLockSet A st.adminActionsLockedUntil) = w.journal := by
  apply Journal.ext
  · rfl
  · refine Function.update_eq_self_iff.2 ?_
    simp [World.journal, h, PresaleState.listing]
  all_goals rfl

/-- A bonus that is paid has a referrer. -/
theorem replay_bonusEvents {st : PresaleState} {tokens : ℕ} {referrer : Option Address} (buyer : Pubkey) (j : Journal) :
    replay Journal.apply j (bonusEvents referrer buyer (st.bonus tokens referrer)) =
      { j with bonuses := j.bonuses + st.bonus tokens referrer } := by
  unfold bonusEvents
  split
  · rename_i hzero
    rw [hzero]
    rfl
  · rename_i hpos
    cases referrer with
    | none => exact absurd (by simp [PresaleState.bonus]) hpos
    | some refKey => rfl

theorem Bought.journal {ctx : BuyTokens} {solAmount : ℕ} {referrer : Option Address} {st : PresaleState} {m : Mint}
    {wk : Walk} {solUsed bonus : ℕ} (h : Bought ctx solAmount referrer w w' st m wk solUsed bonus) (stage : ℕ) :
    w'.journal = replay Journal.apply w.journal
      (bonusEvents referrer ctx.buyer bonus ++ [.tokensPurchased ctx.buyer solUsed wk.tokens stage]) := by
  rw [replay_append, h.bonusEq, replay_bonusEvents, ← h.bonusEq]
  apply Journal.ext
  · refine (position_vesting h.vestings h.userStakes).trans ?_
    rfl
  · exact map_update_same _ h.states h.state rfl
  · exact congrArg (fun f A => (f A).map StakePool.rewardRatePerSecond) h.pools
  · have := overall_update (·.tokensSold) h.states h.state
    simp only [PresaleState.bought] at this
    show overall (·.tokensSold) w'.states = overall (·.tokensSold) w.states + wk.tokens
    omega
  · have := overall_update (·.totalRaisedLamports) h.states h.state
    simp only [PresaleState.bought] at this
    show overall (·.totalRaisedLamports) w'.states = overall (·.totalRaisedLamports) w.states + solUsed
    omega
  · have := overall_update (·.totalReferralBonuses) h.states h.state
    simp only [PresaleState.bought] at this
    show overall (·.totalReferralBonuses) w'.states = overall (·.totalReferralBonuses) w.states + bonus
    omega
  · exact congrArg (overall StakePool.totalStaked) h.pools

theorem Claimed.journal {ctx : ClaimVested} {st : PresaleState} {v : UserVesting} {paid : ℕ}
    (h : Claimed ctx w w' st v paid) : w'.journal = w.journal.apply (.tokensClaimed ctx.user paid) := by
  have hv := vesting_of h.vesting
  apply Journal.ext
  · refine (position_vesting h.vestings h.userStakes).trans ?_
    simp only [Journal.apply, Journal.setPosition, World.journal, World.position, hv]
  · exact congrArg (fun f A => (f A).map PresaleState.listing) h.states
  · exact congrArg (fun f A => (f A).map StakePool.rewardRatePerSecond) h.pools
  · exact congrArg (overall PresaleState.tokensSold) h.states
  · exact congrArg (overall PresaleState.totalRaisedLamports) h.states
  · exact congrArg (overall PresaleState.totalReferralBonuses) h.states
  · exact congrArg (overall StakePool.totalStaked) h.pools

theorem Refunded.journal {ctx : ClaimRefund} {st : PresaleState} {v : UserVesting} (h : Refunded ctx w w' st v) :
    w'.journal = w.journal.apply (.refundClaimed ctx.user v.contributedLamports) := by
  have hv := vesting_of h.vesting
  apply Journal.ext
  · refine (position_vesting h.vestings h.userStakes).trans ?_
    simp only [Journal.apply, Journal.setPosition, World.journal, World.position, hv, Nat.sub_self]
  · exact congrArg (fun f A => (f A).map PresaleState.listing) h.states
  · exact congrArg (fun f A => (f A).map StakePool.rewardRatePerSecond) h.pools
  · exact congrArg (overall PresaleState.tokensSold) h.states
  · exact congrArg (overall PresaleState.totalRaisedLamports) h.states
  · exact congrArg (overall PresaleState.totalReferralBonuses) h.states
  · exact congrArg (overall StakePool.totalStaked) h.pools

/-- A staking call's journal, from what it does to positions, rates and the total staked. -/
theorem SaleKept.journal {j : Journal} (h : SaleKept w w') (hpos : w'.position = j.positions)
    (hrates : (fun A => (w'.pools A).map (·.rewardRatePerSecond)) = j.rates)
    (hstaked : overall (·.totalStaked) w'.pools = j.staked)
    (hj : j.listings = w.journal.listings ∧ j.sold = w.journal.sold ∧ j.raised = w.journal.raised ∧
      j.bonuses = w.journal.bonuses) : w'.journal = j := by
  obtain ⟨hlistings, hsold, hraised, hbonuses⟩ := hj
  apply Journal.ext
  · exact hpos
  · rw [hlistings]; exact congrArg (fun f A => (f A).map PresaleState.listing) h.states
  · exact hrates
  · rw [hsold]; exact congrArg (overall PresaleState.tokensSold) h.states
  · rw [hraised]; exact congrArg (overall PresaleState.totalRaisedLamports) h.states
  · rw [hbonuses]; exact congrArg (overall PresaleState.totalReferralBonuses) h.states
  · exact hstaked

theorem PoolOpened.journal {ctx : InitializeStaking} {rate : ℕ} {st : PresaleState} (h : PoolOpened ctx rate w w' st) :
    w'.journal = w.journal.apply (.stakingInitialized ctx.state rate) := by
  refine h.kept.journal ?_ ?_ ?_ ⟨rfl, rfl, rfl, rfl⟩
  · exact position_congr h.kept.vestings h.userStakes
  · exact map_update _ h.pools
  · exact overall_new _ h.pools h.fresh rfl

theorem RewardsFunded.journal {ctx : FundRewardVault} {amount : ℕ} {st : PresaleState} {p : StakePool}
    (h : RewardsFunded ctx amount w w' st p) : w'.journal = w.journal := by
  refine h.kept.journal ?_ ?_ ?_ ⟨rfl, rfl, rfl, rfl⟩
  · exact position_congr h.kept.vestings h.userStakes
  · exact map_update_same _ h.pools h.pool rfl
  · exact overall_same _ h.pools h.pool rfl

theorem Staked.journal {ctx : Stake} {amount : ℕ} {st : PresaleState} {p : StakePool} (h : Staked ctx amount w w' st p) :
    w'.journal = w.journal.apply (.staked ctx.user amount) := by
  refine h.kept.journal ?_ ?_ ?_ ⟨rfl, rfl, rfl, rfl⟩
  · exact position_stake h.userStakes h.kept.vestings
  · exact map_update_same _ h.pools h.pool rfl
  · have := overall_update (·.totalStaked) h.pools h.pool
    show overall (·.totalStaked) w'.pools = overall (·.totalStaked) w.pools + amount
    simp only at this
    omega

theorem Unstaked.journal {ctx : Unstake} {amount : ℕ} {st : PresaleState} {p : StakePool} {s : UserStake} {paid : ℕ}
    (h : Unstaked ctx amount w w' st p s paid) (reward : ℕ) :
    w'.journal = w.journal.apply (.unstaked ctx.user amount reward) := by
  have hs := userStake_of h.record
  refine h.kept.journal ?_ ?_ ?_ ⟨rfl, rfl, rfl, rfl⟩
  · refine (position_stake h.userStakes h.kept.vestings).trans ?_
    simp only [Journal.apply, Journal.setPosition, World.journal, World.position, hs]
  · exact map_update_same _ h.pools h.pool rfl
  · have := overall_update (·.totalStaked) h.pools h.pool
    have := h.totalLe
    show overall (·.totalStaked) w'.pools = overall (·.totalStaked) w.pools - amount
    simp only at *
    omega

theorem RewardsClaimed.journal {ctx : ClaimRewards} {st : PresaleState} {p : StakePool} {s : UserStake} {paid : ℕ}
    (h : RewardsClaimed ctx w w' st p s paid) : w'.journal = w.journal := by
  have hs := userStake_of h.record
  refine h.kept.journal ?_ ?_ ?_ ⟨rfl, rfl, rfl, rfl⟩
  · refine (position_stake h.userStakes h.kept.vestings).trans (Function.update_eq_self_iff.2 ?_)
    simp only [World.position, hs]
  · exact map_update_same _ h.pools h.pool rfl
  · exact overall_same _ h.pools h.pool rfl

end

/-! ## Every step is explained by its events -/

/-- From `w` to `w'` the log has grown by events that the journal admits and that explain what became
of the records. -/
abbrev Journalled (w w' : World) : Prop := Explained Journal.apply Journal.Admits World.log World.journal w w'

section
variable {w w' : World}

theorem KeyedByAdmin.step {l : Label} (h : KeyedByAdmin w) (ho : Owned w.tokenAccounts) (hs : Step w l w') :
    KeyedByAdmin w' := by
  intro A st' hst'
  cases hs.stateStep ho A with
  | launch hA hl =>
    rw [hl.states, hA, Function.update_self] at hst'
    cases hst'
    exact hA
  | @buy ctx _ _ _ st _ _ _ _ hA hb =>
    rw [hb.states, hA, Function.update_self] at hst'
    cases hst'
    rw [← hA]
    exact h ctx.state st hb.state
  | @flags _ _ st _ _ _ hf _ =>
    rw [hf.states, Function.update_self] at hst'
    cases hst'
    exact h A st hf.state
  | kept hk => exact h A st' (hk ▸ hst')

theorem listings_ne_none {A : Pubkey} {st : PresaleState} (h : w.states A = some st) : w.journal.listings A ≠ none := by
  simp [World.journal, h]

theorem Claimed.admits {ctx : ClaimVested} {st : PresaleState} {v : UserVesting} {paid : ℕ}
    (h : Claimed ctx w w' st v paid) : w.journal.Admits (.tokensClaimed ctx.user paid) := by
  refine ⟨h.pos, ?_⟩
  have := Schedule.due_le v.totalLocked st.vestingDuration.toNat (w.clock - (v.startTime + st.vestingCliff)).toNat
  have hclaimed := h.claimed
  have hpaid := h.paidEq
  simp only [World.journal, World.position, vesting_of h.vesting]
  unfold UserVesting.vestedAt at hclaimed hpaid
  omega

theorem Refunded.admits {ctx : ClaimRefund} {st : PresaleState} {v : UserVesting} (h : Refunded ctx w w' st v) :
    w.journal.Admits (.refundClaimed ctx.user v.contributedLamports) := by
  refine ⟨h.pos, ?_⟩
  simp only [World.journal, World.position, vesting_of h.vesting]

theorem Unstaked.admits {ctx : Unstake} {amount : ℕ} {st : PresaleState} {p : StakePool} {s : UserStake} {paid : ℕ}
    (h : Unstaked ctx amount w w' st p s paid) (reward : ℕ) : w.journal.Admits (.unstaked ctx.user amount reward) := by
  refine ⟨h.pos, ?_⟩
  simp only [World.journal, World.position, userStake_of h.record]
  exact h.amountLe

/-- The bonus event comes first, and does not change what the purchase needs. -/
theorem Bought.admitted {ctx : BuyTokens} {solAmount : ℕ} {referrer : Option Address} {st : PresaleState} {m : Mint}
    {wk : Walk} {solUsed bonus : ℕ} (h : Bought ctx solAmount referrer w w' st m wk solUsed bonus) (stage : ℕ) :
    Admitted Journal.apply Journal.Admits w.journal
      (bonusEvents referrer ctx.buyer bonus ++ [.tokensPurchased ctx.buyer solUsed wk.tokens stage]) := by
  rw [admitted_append]
  refine ⟨?_, ⟨h.spent.2.2, h.tokens⟩, trivial⟩
  unfold bonusEvents
  split
  · trivial
  · rename_i hpos
    cases referrer with
    | none => trivial
    | some refKey => exact ⟨Nat.pos_of_ne_zero hpos, trivial⟩

/-- A successful call logs what it does. -/
theorem exec_journalled {c : Call} (hk : KeyedByAdmin w) (h : exec c w = .ok w') : Journalled w w' := by
  cases c with
  | createToken =>
    have hc := createToken_ok h
    exact ⟨_, createToken_log h, ⟨trivial, trivial, trivial⟩,
      journal_congr hc.states hc.vestings hc.pools hc.userStakes⟩
  | initializePresale =>
    have hl := initializePresale_ok h
    exact .one (initializePresale_log h) (by simp [Journal.Admits, World.journal, hl.fresh]) hl.journal
  | fundPresaleVault =>
    obtain ⟨_, hf⟩ := fundPresaleVault_ok h
    exact .one (fundPresaleVault_log h) trivial (journal_congr hf.states hf.vestings hf.pools hf.userStakes)
  | buyTokens =>
    obtain ⟨_, _, _, _, _, hb⟩ := buyTokens_ok h
    obtain ⟨stage, hlog⟩ := buyTokens_log h hb
    exact ⟨_, by rw [hlog, List.append_assoc], hb.admitted stage, hb.journal stage⟩
  | claimVested =>
    obtain ⟨_, _, _, hc⟩ := claimVested_ok h
    exact .one (claimVested_log h hc) hc.admits hc.journal
  | claimRefund =>
    obtain ⟨_, _, hr⟩ := claimRefund_ok h
    exact .one (claimRefund_log h hr) hr.admits hr.journal
  | togglePause =>
    obtain ⟨_, hf, -⟩ := togglePause_ok h
    exact .one (togglePause_log h) trivial (hf.journal.trans (apply_lock_same hf.state))
  | finalizePresale =>
    obtain ⟨_, hf, -⟩ := finalizePresale_ok h
    obtain ⟨_, -, hlog⟩ := finalizePresale_log h
    exact .one hlog trivial (hf.journal.trans (apply_lock_same hf.state))
  | withdrawFunds =>
    obtain ⟨_, hw⟩ := withdrawFunds_ok h
    exact .quiet (withdrawFunds_log h) (journal_congr hw.states hw.vestings hw.pools hw.userStakes)
  | withdrawUnsold =>
    obtain ⟨_, _, hw⟩ := withdrawUnsold_ok h
    obtain ⟨_, hlog⟩ := withdrawUnsold_log h
    exact .one hlog trivial (journal_congr hw.states hw.vestings hw.pools hw.userStakes)
  | initializeStaking ctx rate =>
    obtain ⟨st, hp⟩ := initializeStaking_ok h
    have hadmin : ctx.admin = ctx.state := hp.admin.trans (hk _ _ hp.state)
    refine .one (initializeStaking_log h) ⟨listings_ne_none (hadmin ▸ hp.state), ?_, hp.rate⟩ (hadmin ▸ hp.journal)
    simp [World.journal, hadmin ▸ hp.fresh]
  | fundRewardVault =>
    obtain ⟨_, _, hf⟩ := fundRewardVault_ok h
    exact .one (fundRewardVault_log h) trivial hf.journal
  | stake =>
    obtain ⟨_, _, hs⟩ := stake_ok h
    exact .one (stake_log h) hs.pos hs.journal
  | unstake =>
    obtain ⟨_, _, _, _, hu⟩ := unstake_ok h
    obtain ⟨reward, hlog⟩ := unstake_log h
    exact .one hlog (hu.admits reward) (hu.journal reward)
  | claimRewards =>
    obtain ⟨_, _, _, _, hc⟩ := claimRewards_ok h
    obtain ⟨_, hlog⟩ := claimRewards_log h
    exact .one hlog trivial hc.journal
  | setAdminActionsLock ctx unlockTimestamp =>
    obtain ⟨st, hf, hadmin, -⟩ := setAdminActionsLock_ok h
    have hA : ctx.admin = ctx.state := hadmin.trans (hk _ _ hf.state)
    exact .one (setAdminActionsLock_log h) (listings_ne_none (hA ▸ hf.state)) (hA ▸ hf.journal)

theorem Step.journalled {l : Label} (hk : KeyedByAdmin w) (h : Step w l w') : Journalled w w' := by
  cases h with
  | failed => exact .quiet rfl rfl
  | outside ho => exact .quiet ho.log (journal_congr ho.states ho.vestings ho.pools ho.userStakes)
  | ok _ h => exact exec_journalled hk h

/-- Every run is explained by the events it logs. -/
theorem Run.journalled {tr : List Transition} (h : Run w tr w') (ho : Owned w.tokenAccounts) (hk : KeyedByAdmin w) :
    (Owned w'.tokenAccounts ∧ KeyedByAdmin w') ∧ Journalled w w' := by
  refine explained_run (I := fun w => Owned w.tokenAccounts ∧ KeyedByAdmin w) ?_ ⟨ho, hk⟩ h
  rintro s l t ⟨ho, hk⟩ hs
  exact ⟨⟨(hs.frame ho).evolves.owned ho, hk.step ho hs⟩, hs.journalled hk⟩

theorem Genesis.keyedByAdmin (h : Genesis w) : KeyedByAdmin w := by
  intro A st hst
  rw [h.states A] at hst
  cases hst

theorem overall_none {α : Type} {g : α → ℕ} {f : Pubkey → Option α} (h : ∀ A, f A = none) : overall g f = 0 := by
  unfold overall
  exact Finset.sum_eq_zero fun A _ => by rw [h, counted_none]

/-- Before the program is used there is nothing to journal. -/
theorem Genesis.journal (h : Genesis w) : w.journal = Journal.empty := by
  apply Journal.ext
  · funext u
    simp [World.journal, World.position, World.vesting, World.userStake, h.vestings u, h.userStakes u, Journal.empty]
  · funext A
    simp [World.journal, h.states A, Journal.empty]
  · funext A
    simp [World.journal, h.pools A, Journal.empty]
  · exact overall_none h.states
  · exact overall_none h.states
  · exact overall_none h.states
  · exact overall_none h.pools

/-- The log of a run from the start replays to the journal of the world reached. -/
theorem Run.replayed {w₀ : World} {tr : List Transition} (h : Run w₀ tr w) (h0 : Genesis w₀) :
    Admitted Journal.apply Journal.Admits Journal.empty w.log ∧
      w.journal = replay Journal.apply Journal.empty w.log := by
  obtain ⟨-, hexp⟩ := h.journalled h0.owned h0.keyedByAdmin
  rw [← h0.journal]
  exact hexp.replayed h0.log

/-- In every reachable world the log is one the journal admits, and replaying it gives every user's
position, the terms of every presale and pool and the totals over all of them as the records hold them;
from there on the log only grows, by events the journal admits and that explain what happened since. -/
theorem reachable_journal {w₀ : World} {pre tr : List Transition} (h0 : Genesis w₀) (hpre : Run w₀ pre w)
    (h : Run w tr w') :
    (Admitted Journal.apply Journal.Admits Journal.empty w.log ∧
      w.journal = replay Journal.apply Journal.empty w.log) ∧
    ∃ es, w'.log = w.log ++ es ∧ Admitted Journal.apply Journal.Admits w.journal es ∧
      w'.journal = replay Journal.apply w.journal es := by
  obtain ⟨⟨ho, hk⟩, -⟩ := hpre.journalled h0.owned h0.keyedByAdmin
  exact ⟨hpre.replayed h0, (h.journalled ho hk).2⟩

end

/-- A presale and a pool with a stake. -/
def sampleStaking : List Act :=
  sampleFinalized ++ [Act.call (.initializeStaking samplePool 2), sampleReward 100, sampleStake 2 10]

theorem reachable_journal_sample :
    (Admitted Journal.apply Journal.Admits Journal.empty (play sampleWorld sampleStaking).log ∧
      (play sampleWorld sampleStaking).journal =
        replay Journal.apply Journal.empty (play sampleWorld sampleStaking).log) ∧
    ∃ es, (play (play sampleWorld sampleStaking) [.wait 40, sampleUnstake 2 4]).log =
        (play sampleWorld sampleStaking).log ++ es ∧
      Admitted Journal.apply Journal.Admits (play sampleWorld sampleStaking).journal es ∧
      (play (play sampleWorld sampleStaking) [.wait 40, sampleUnstake 2 4]).journal =
        replay Journal.apply (play sampleWorld sampleStaking).journal es :=
  reachable_journal sampleWorld_genesis (play_run (by decide +kernel)) (play_run (by decide +kernel))

end Presale

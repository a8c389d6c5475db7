/-
What a successful `buy_tokens`, `claim_vested` or `claim_refund` found and did.
-/
import Presale.Effects.Transfer
import Presale.Program.Investor
import Presale.Lib.Schedule

namespace Presale

open Checked World

/-! ## Buying -/

/-- The sale after a purchase. -/
def PresaleState.bought (state : PresaleState) (walk : Walk) (solUsed bonus : ℕ) : PresaleState :=
  { state with
    stages := walk.stages
    currentStageIndex := min walk.idx (walk.stages.length - 1) % 256
    tokensSold := state.tokensSold + walk.tokens
    totalRaisedLamports := state.totalRaisedLamports + solUsed
    totalReferralBonuses := state.totalReferralBonuses + bonus }

/-- The buyer's record after a purchase. -/
def UserVesting.bought (vesting : UserVesting) (buyer : Pubkey) (endTime : ℤ) (tokens solUsed : ℕ) : UserVesting :=
  { vesting with
    startTime := if vesting.totalLocked = 0 then endTime else vesting.startTime
    totalLocked := vesting.totalLocked + tokens
    contributedLamports := vesting.contributedLamports + solUsed
    user := buyer }

/-- Where the stage walk of a purchase starts. -/
def PresaleState.walkFrom (state : PresaleState) (solAmount : ℕ) : Walk :=
  { stages := state.stages, remainingSol := solAmount, tokens := 0, idx := state.currentStageIndex }

/-- The referral bonus of a purchase: none is paid without a referrer. -/
def PresaleState.bonus (state : PresaleState) (tokens : ℕ) (referrer : Option Address) : ℕ :=
  if referrer = none then 0 else tokens * state.referralBonusBps / 10000

/-- A bonus leaves the vault for an associated token account, and only in the vault's own mint. -/
structure BonusPaid (ctx : BuyTokens) (referrer : Option Address) (bonus : ℕ) (f f' : TokenAccounts) : Prop where
  vaultMint : ∃ a, f (.tokenVault ctx.state) = some a ∧ a.mint = ctx.mint
  move : ∃ refKey mint, referrer = some refKey ∧ TokenMove f f' (.tokenVault ctx.state) (.ata refKey mint) bonus

structure Bought (ctx : BuyTokens) (solAmount : ℕ) (referrer : Option Address) (w w' : World)
    (st : PresaleState) (m : Mint) (wk : Walk) (solUsed bonus : ℕ) : Prop where
  state : w.states ctx.state = some st
  mint : w.mints ctx.mint = some m
  active : st.isActive ∧ ¬ st.isPaused
  window : st.startTime ≤ w.clock ∧ w.clock ≤ st.endTime
  index : st.currentStageIndex < st.stages.length
  unit : 10 ^ m.decimals < 2 ^ 64
  walk : (stageWalk (10 ^ m.decimals)).run (st.walkFrom solAmount) = .ok wk
  tokens : 0 < wk.tokens
  spent : wk.remainingSol ≤ solAmount ∧ solUsed = solAmount - wk.remainingSol ∧ 0 < solUsed
  walletCap : (w.vesting ctx.buyer).contributedLamports + solUsed ≤ st.maxContributionLamports
  hardCap : st.totalRaisedLamports + solUsed ≤ st.hardCapLamports
  soldFits : st.tokensSold + wk.tokens < 2 ^ 64
  lockedFits : (w.vesting ctx.buyer).totalLocked + wk.tokens < 2 ^ 64
  paid : solUsed ≤ w.lamports (.key ctx.buyer)
  bonusEq : bonus = st.bonus wk.tokens referrer
  states : w'.states = Function.update w.states ctx.state (some (st.bought wk solUsed bonus))
  vestings : w'.vestings = Function.update w.vestings ctx.buyer
    (some ((w.vesting ctx.buyer).bought ctx.buyer st.endTime wk.tokens solUsed))
  lamports : w'.lamports = movedLamports w.lamports (.key ctx.buyer) (.solVault ctx.state) solUsed
  tokenAccounts : (bonus = 0 ∧ w'.tokenAccounts = w.tokenAccounts) ∨
    BonusPaid ctx referrer bonus w.tokenAccounts w'.tokenAccounts
  clock : w'.clock = w.clock
  pools : w'.pools = w.pools
  userStakes : w'.userStakes = w.userStakes
  mints : w'.mints = w.mints

theorem payReferral_ok {ctx : BuyTokens} {state state' : PresaleState} {mint : Mint} {tokens : ℕ}
    {referrer : Option Address} {w w' : World}
    (h : payReferral ctx state mint tokens referrer w = .ok (state', w')) :
    state' = { state with
      totalReferralBonuses := state.totalReferralBonuses + state.bonus tokens referrer } ∧
    ((state.bonus tokens referrer = 0 ∧ w'.tokenAccounts = w.tokenAccounts) ∨
      BonusPaid ctx referrer (state.bonus tokens referrer) w.tokenAccounts w'.tokenAccounts) ∧
    w' = { w with tokenAccounts := w'.tokenAccounts, log := w'.log } := by
  unfold payReferral at h
  cases referrer with
  | none =>
    cases h
    exact ⟨by simp [PresaleState.bonus], .inl ⟨by simp [PresaleState.bonus], rfl⟩, rfl⟩
  | some refKey =>
    simp only [bind_ok_iff, require_eq_ok, okOr_eq_ok, mul_eq_some, div_eq_some] at h
    obtain ⟨_, -, _, -, _, hata, _, ⟨-, rfl⟩, _, ⟨-, rfl⟩, h⟩ := h
    have hbonus : state.bonus tokens (some refKey) = tokens * state.referralBonusBps / 10000 := by
      simp [PresaleState.bonus]
    rw [hbonus]
    split at h
    · rename_i hzero
      cases h
      exact ⟨by simp [hzero], .inl ⟨hzero, rfl⟩, rfl⟩
    · simp only [bind_ok_iff, okOr_eq_ok, add_eq_some, pure_ok_iff] at h
      obtain ⟨_, ⟨-, rfl⟩, w₁, htr, h⟩ := h
      cases h
      obtain ⟨⟨a, ha, hm, -⟩, hmove, hw⟩ := transferChecked_ok htr
      refine ⟨rfl, .inr ⟨⟨a, ha, hm⟩, refKey, state.tokenMint, rfl, hata ▸ hmove⟩, ?_⟩
      rw [hw]; rfl

theorem BuyTokens.tryAccounts_ok {ctx : BuyTokens} {w : World} {st : PresaleState} {m : Mint} {v : UserVesting}
    (h : ctx.tryAccounts w = .ok (st, m, v)) :
    w.states ctx.state = some st ∧ w.mints ctx.mint = some m ∧ v = w.vesting ctx.buyer := by
  unfold BuyTokens.tryAccounts account at h
  simp only [bind_ok_iff, okOr_eq_ok, pure_ok_iff, Prod.mk.injEq] at h
  obtain ⟨_, hst, _, hm, _, -, rfl, rfl, rfl⟩ := h
  exact ⟨hst, hm, rfl⟩

theorem buyTokens_ok {ctx : BuyTokens} {solAmount : ℕ} {referrer : Option Address} {w w' : World}
    (h : buyTokens ctx solAmount referrer w = .ok w') :
    ∃ state mint walk solUsed bonus, Bought ctx solAmount referrer w w' state mint walk solUsed bonus := by
  unfold buyTokens at h
  obtain ⟨⟨state, mint, vesting⟩, hacc, h⟩ := bind_ok_iff.1 h
  obtain ⟨hstate, hmint, rfl⟩ := BuyTokens.tryAccounts_ok hacc
  simp only [bind_ok_iff, require_eq_ok, okOr_eq_ok, pow_eq_some, add_eq_some, sub_eq_some, pure_ok_iff,
    Prod.exists] at h
  obtain ⟨_, hactive, _, hwindow, _, hindex, _, ⟨hunit, rfl⟩, walk, hwalk, _, htokens, _, ⟨hrem, rfl⟩, _, hused, _,
    ⟨-, rfl⟩, _, hwallet, _, ⟨-, rfl⟩, _, hhard, _, ⟨hsold, rfl⟩, _, ⟨hlocked, rfl⟩, w₁, htr, state', w₂, href, rfl⟩ := h
  obtain ⟨hpaid, rfl⟩ := systemTransfer_ok htr
  obtain ⟨rfl, hmove, hw₂⟩ := payReferral_ok href
  refine ⟨_, _, walk, _, _, ⟨hstate, hmint, hactive, hwindow, hindex, hunit, hwalk, htokens, ⟨hrem, rfl, hused⟩,
    hwallet, hhard, hsold, hlocked, hpaid, rfl, ?_, ?_, ?_, hmove, ?_, ?_, ?_, ?_⟩⟩
  all_goals rw [hw₂]; rfl

/-! ## Claiming -/

theorem vestedTokens_ok {totalLocked elapsed vestingDuration vested : ℕ}
    (h : vestedTokens totalLocked elapsed vestingDuration = .ok vested) :
    vested = Schedule.due totalLocked vestingDuration elapsed := by
  unfold vestedTokens at h
  unfold Schedule.due
  split at h
  · rename_i hfull
    cases h; rw [if_pos hfull]
  · rename_i hpart
    simp only [bind_ok_iff, okOr_eq_ok, mul_eq_some, div_eq_some] at h
    obtain ⟨_, ⟨-, rfl⟩, -, rfl⟩ := h
    rw [if_neg hpart]

/-- The tokens the schedule has released to a record by the clock time `now`. -/
def UserVesting.vestedAt (vesting : UserVesting) (state : PresaleState) (now : ℤ) : ℕ :=
  Schedule.due vesting.totalLocked state.vestingDuration.toNat (now - (vesting.startTime + state.vestingCliff)).toNat

structure Claimed (ctx : ClaimVested) (w w' : World) (st : PresaleState) (v : UserVesting)
    (paid : ℕ) : Prop where
  state : w.states ctx.state = some st
  vesting : w.vestings ctx.user = some v
  notPaused : ¬ st.isPaused
  softCap : st.softCapLamports ≤ st.totalRaisedLamports
  cliff : v.startTime + st.vestingCliff ≤ w.clock
  claimed : v.alreadyClaimed ≤ v.vestedAt st w.clock
  paidEq : paid = v.vestedAt st w.clock - v.alreadyClaimed
  pos : 0 < paid
  minClaim : paid < st.minClaimAmount → v.vestedAt st w.clock = v.totalLocked
  states : w'.states = w.states
  vestings : w'.vestings = Function.update w.vestings ctx.user
    (some { v with alreadyClaimed := v.alreadyClaimed + paid })
  tokenAccounts : ∃ f, AccountReady w.tokenAccounts f (.ata (.key ctx.user) ctx.mint) ∧
    TokenMove f w'.tokenAccounts (.tokenVault ctx.state) (.ata (.key ctx.user) ctx.mint) paid
  lamports : w'.lamports = w.lamports
  clock : w'.clock = w.clock
  pools : w'.pools = w.pools
  userStakes : w'.userStakes = w.userStakes
  mints : w'.mints = w.mints

theorem ClaimVested.tryAccounts_ok {ctx : ClaimVested} {w w' : World} {st : PresaleState} {v : UserVesting} {m : Mint}
    (h : ctx.tryAccounts w = .ok (st, v, m, w')) :
    w.states ctx.state = some st ∧ w.vestings ctx.user = some v ∧
      AccountReady w.tokenAccounts w'.tokenAccounts (.ata (.key ctx.user) ctx.mint) ∧
      w' = { w with tokenAccounts := w'.tokenAccounts } := by
  unfold ClaimVested.tryAccounts account at h
  simp only [bind_ok_iff, okOr_eq_ok, pure_ok_iff, Prod.mk.injEq] at h
  obtain ⟨_, hst, _, hv, _, -, _, -, _, hata, rfl, rfl, -, rfl⟩ := h
  obtain ⟨hready, hw'⟩ := initAtaIfNeeded_ok hata
  exact ⟨hst, hv, hready, hw'⟩

theorem claimVested_ok {ctx : ClaimVested} {w w' : World} (h : claimVested ctx w = .ok w') :
    ∃ state vesting paid, Claimed ctx w w' state vesting paid := by
  unfold claimVested addI64 subI64 at h
  obtain ⟨⟨state, vesting, mint, w₁⟩, hacc, h⟩ := bind_ok_iff.1 h
  obtain ⟨hstate, hvesting, hready, hw₁⟩ := ClaimVested.tryAccounts_ok hacc
  have hclock : w₁.clock = w.clock := by rw [hw₁]
  simp only [bind_ok_iff, require_eq_ok, okOr_eq_ok, signed_eq_some, add_eq_some, sub_eq_some, pure_ok_iff, hclock] at h
  obtain ⟨_, hpaused, _, hsoft, _, ⟨-, rfl⟩, _, hcliff, _, ⟨-, rfl⟩, vested, hvested, _, ⟨hclaimed, rfl⟩, _, hpos, _, hmin,
    _, ⟨-, rfl⟩, w₂, htr, rfl⟩ := h
  obtain rfl : vested = vesting.vestedAt state w.clock := vestedTokens_ok hvested
  obtain ⟨-, hmove, hw₂⟩ := transferChecked_ok htr
  refine ⟨_, _, _, ⟨hstate, hvesting, hpaused, hsoft, hcliff, hclaimed, rfl, hpos, hmin, ?_, ?_, ⟨_, hready, hmove⟩,
    ?_, ?_, ?_, ?_, ?_⟩⟩
  all_goals rw [hw₂, hw₁]; rfl

/-- The product is out of range, while the schedule runs. -/
theorem vestedTokens_error_iff {totalLocked elapsed vestingDuration : ℕ} {e : Error} :
    vestedTokens totalLocked elapsed vestingDuration = .error e ↔
      e = .presale .mathOverflow ∧ elapsed < vestingDuration ∧ 2 ^ 64 ≤ totalLocked * elapsed := by
  unfold vestedTokens
  split
  · rename_i hfull
    simp only [reduceCtorEq, false_iff]
    rintro ⟨-, hlt, -⟩
    omega
  · rename_i hpart
    simp only [bind_error_iff, okOr_eq_error, mul_eq_none, div_eq_none]
    constructor
    · rintro (⟨hbig, rfl⟩ | ⟨_, _, hzero, -⟩)
      · exact ⟨rfl, not_le.1 hpart, hbig⟩
      · omega
    · rintro ⟨rfl, -, hbig⟩
      exact .inl ⟨hbig, rfl⟩

theorem ClaimVested.tryAccounts_short {ctx : ClaimVested} {w : World} :
    ctx.tryAccounts w ≠ .error (.runtime .insufficientFunds) := by
  unfold ClaimVested.tryAccounts account
  intro h
  simp only [bind_error_iff, okOr_eq_ok, okOr_eq_error, pure_ne_error, reduceCtorEq, Error.runtime.injEq, and_false,
    false_or, exists_false, or_false] at h
  obtain ⟨_, -, _, -, _, -, _, -, hata⟩ := h
  exact initAtaIfNeeded_short hata

/-- A claim that fails for lack of tokens is one the token vault does not cover. -/
theorem claimVested_short {ctx : ClaimVested} {w : World}
    (h : claimVested ctx w = .error (.runtime .insufficientFunds)) :
    ∃ st v, w.states ctx.state = some st ∧ w.vestings ctx.user = some v ∧
      w.balance (.tokenVault ctx.state) < v.vestedAt st w.clock - v.alreadyClaimed := by
  unfold claimVested addI64 subI64 at h
  rcases bind_error_iff.1 h with hacc | ⟨⟨st, v, m, w₁⟩, hacc, h⟩
  · exact absurd hacc ClaimVested.tryAccounts_short
  obtain ⟨hst, hv, hready, hw₁⟩ := ClaimVested.tryAccounts_ok hacc
  have hclock : w₁.clock = w.clock := by rw [hw₁]
  simp only [bind_error_iff, require_eq_ok, require_eq_error, okOr_eq_ok, okOr_eq_error, pure_ne_error, signed_eq_some,
    sub_eq_some, reduceCtorEq, and_false, false_or, exists_false, or_false, hclock] at h
  obtain ⟨_, -, _, -, _, ⟨-, rfl⟩, _, -, _, ⟨-, rfl⟩, herr | ⟨vested, hvested, _, ⟨-, rfl⟩, _, -, _, -, _, -, htr⟩⟩ := h
  · cases (vestedTokens_error_iff.1 herr).1
  · have hshort := transferChecked_short htr
    rw [balance_eq, setVesting_tokenAccounts, hready.balance, ← balance_eq, vestedTokens_ok hvested] at hshort
    exact ⟨_, _, hst, hv, hshort⟩

/-- The time a claim finds to have passed since the cliff. -/
abbrev UserVesting.elapsed (vesting : UserVesting) (state : PresaleState) (now : ℤ) : ℤ :=
  now - (vesting.startTime + state.vestingCliff)

/-- What the errors of a claim say about the presale, the record and the clock it found. -/
inductive ClaimFailure (st : PresaleState) (v : UserVesting) (now : ℤ) : Error → Prop
  | runtime (r : RuntimeError) : ClaimFailure st v now (.runtime r)
  | paused : st.isPaused → ClaimFailure st v now (.presale .presaleInactive)
  | softCap : st.totalRaisedLamports < st.softCapLamports → ClaimFailure st v now (.presale .softCapNotMet)
  | start : ¬ (-2 ^ 63 ≤ v.startTime + st.vestingCliff ∧ v.startTime + st.vestingCliff < 2 ^ 63) →
      ClaimFailure st v now .panic
  | cliff : v.elapsed st now < 0 → ClaimFailure st v now (.presale .cliffNotPassed)
  | elapsed : 0 ≤ v.elapsed st now → 2 ^ 63 ≤ v.elapsed st now → ClaimFailure st v now .panic
  | product : 0 ≤ v.elapsed st now → (v.elapsed st now).toNat < st.vestingDuration.toNat →
      2 ^ 64 ≤ v.totalLocked * (v.elapsed st now).toNat → ClaimFailure st v now (.presale .mathOverflow)
  | covered : v.vestedAt st now < v.alreadyClaimed → ClaimFailure st v now (.presale .mathOverflow)
  | nothing : v.vestedAt st now ≤ v.alreadyClaimed → ClaimFailure st v now (.presale .nothingToClaim)
  | minClaim : v.vestedAt st now ≠ v.totalLocked → ClaimFailure st v now (.presale .belowMinClaim)
  | counted : v.alreadyClaimed ≤ v.vestedAt st now → 2 ^ 64 ≤ v.vestedAt st now →
      ClaimFailure st v now (.presale .mathOverflow)

theorem ClaimVested.tryAccounts_error {ctx : ClaimVested} {w : World} {e : Error} (h : ctx.tryAccounts w = .error e) :
    ∃ r, e = .runtime r := by
  unfold ClaimVested.tryAccounts account at h
  simp only [bind_error_iff, okOr_eq_error, pure_ne_error, and_false, exists_false, or_false] at h
  rcases h with ⟨-, rfl⟩ | ⟨_, -, ⟨-, rfl⟩ | ⟨_, -, ⟨-, rfl⟩ | ⟨_, -, ⟨-, rfl⟩ | ⟨_, -, hata⟩⟩⟩⟩
  all_goals first | exact ⟨_, rfl⟩ | exact initAtaIfNeeded_error hata

/-- A failing claim did not find its accounts, or says what was wrong with them. -/
theorem claimVested_error {ctx : ClaimVested} {w : World} {e : Error} (h : claimVested ctx w = .error e) :
    (∃ r, e = .runtime r) ∨
      ∃ st v, w.states ctx.state = some st ∧ w.vestings ctx.user = some v ∧ ClaimFailure st v w.clock e := by
  unfold claimVested addI64 subI64 at h
  rcases bind_error_iff.1 h with hacc | ⟨⟨st, v, m, w₁⟩, hacc, h⟩
  · exact .inl (ClaimVested.tryAccounts_error hacc)
  obtain ⟨hst, hv, -, hw₁⟩ := ClaimVested.tryAccounts_ok hacc
  have hclock : w₁.clock = w.clock := by rw [hw₁]
  refine .inr ⟨st, v, hst, hv, ?_⟩
  simp only [bind_error_iff, require_eq_ok, require_eq_error, okOr_eq_ok, okOr_eq_error, pure_ne_error,
    signed_eq_some, signed_eq_none, sub_eq_some, sub_eq_none, add_eq_none, and_false, exists_false, or_false, hclock] at h
  rcases h with ⟨hpaused, rfl⟩ | ⟨_, -, ⟨hsoft, rfl⟩ | ⟨_, -, ⟨hstart, rfl⟩ | ⟨_, ⟨-, rfl⟩, ⟨hcliff, rfl⟩ | ⟨_, hcliff,
    ⟨helapsed, rfl⟩ | ⟨_, ⟨-, rfl⟩, hvested | ⟨vested, hvested, h⟩⟩⟩⟩⟩⟩
  · exact .paused (not_not.1 hpaused)
  · exact .softCap (not_le.1 hsoft)
  · exact .start hstart
  · exact .cliff (sub_neg.2 (not_le.1 hcliff))
  · refine .elapsed (sub_nonneg.2 hcliff) ?_
    unfold UserVesting.elapsed
    omega
  · obtain ⟨rfl, hlt, hbig⟩ := vestedTokens_error_iff.1 hvested
    exact .product (sub_nonneg.2 hcliff) hlt hbig
  obtain rfl : vested = v.vestedAt st w.clock := vestedTokens_ok hvested
  rcases h with ⟨hcovered, rfl⟩ | ⟨_, ⟨hcovered, rfl⟩, ⟨hnone, rfl⟩ | ⟨_, hpos, ⟨hmin, rfl⟩ | ⟨_, -, ⟨hbig, rfl⟩ |
    ⟨_, -, htr⟩⟩⟩⟩
  · exact .covered hcovered
  · exact .nothing (by omega)
  · exact .minClaim fun hfull => hmin fun _ => hfull
  · exact .counted hcovered (by omega)
  · obtain ⟨r, rfl⟩ := transferChecked_error htr
    exact .runtime r

structure Refunded (ctx : ClaimRefund) (w w' : World) (st : PresaleState) (v : UserVesting) : Prop where
  state : w.states ctx.state = some st
  vesting : w.vestings ctx.user = some v
  ended : st.endTime < w.clock
  softCap : st.totalRaisedLamports < st.softCapLamports
  pos : 0 < v.contributedLamports
  covered : v.contributedLamports ≤ w.lamports (.solVault ctx.state)
  states : w'.states = w.states
  vestings : w'.vestings = Function.update w.vestings ctx.user (some { v with contributedLamports := 0 })
  lamports : w'.lamports =
    movedLamports w.lamports (.solVault ctx.state) (.key ctx.user) v.contributedLamports
  tokenAccounts : w'.tokenAccounts = w.tokenAccounts
  clock : w'.clock = w.clock
  pools : w'.pools = w.pools
  userStakes : w'.userStakes = w.userStakes
  mints : w'.mints = w.mints

theorem claimRefund_ok {ctx : ClaimRefund} {w w' : World} (h : claimRefund ctx w = .ok w') :
    ∃ state vesting, Refunded ctx w w' state vesting := by
  unfold claimRefund ClaimRefund.tryAccounts account at h
  simp only [bind_ok_iff, require_eq_ok, okOr_eq_ok, pure_ok_iff, Prod.exists, Prod.mk.injEq] at h
  obtain ⟨state, vesting, ⟨_, hstate, _, hvesting, rfl, rfl⟩, _, hended, _, hsoft, _, hpos, w₁, htr, rfl⟩ := h
  obtain ⟨hle, rfl⟩ := systemTransfer_ok htr
  exact ⟨_, _, ⟨hstate, hvesting, hended, hsoft, hpos, hle, rfl, rfl, rfl, rfl, rfl, rfl, rfl, rfl⟩⟩

/-- An open refund the sol vault covers succeeds. -/
theorem claimRefund_succeeds {ctx : ClaimRefund} {w : World} {st : PresaleState} {v : UserVesting}
    (hst : w.states ctx.state = some st) (hv : w.vestings ctx.user = some v) (hended : st.endTime < w.clock)
    (hsoft : st.totalRaisedLamports < st.softCapLamports) (hpos : 0 < v.contributedLamports)
    (hcovered : v.contributedLamports ≤ w.lamports (.solVault ctx.state)) : ∃ w', claimRefund ctx w = .ok w' := by
  unfold claimRefund ClaimRefund.tryAccounts account systemTransfer
  simp only [bind_ok_iff, require_eq_ok, okOr_eq_ok, pure_ok_iff]
  exact ⟨_, _, ⟨_, hst, _, hv, rfl⟩, (), hended, (), hsoft, (), hpos, _, ⟨(), hcovered, rfl⟩, rfl⟩

/-- A refund that fails for lack of lamports is one the sol vault does not cover. -/
theorem claimRefund_short {ctx : ClaimRefund} {w : World}
    (h : claimRefund ctx w = .error (.runtime .insufficientLamports)) :
    ∃ st v, w.states ctx.state = some st ∧ w.vestings ctx.user = some v ∧ st.endTime < w.clock ∧
      st.totalRaisedLamports < st.softCapLamports ∧ w.lamports (.solVault ctx.state) < v.contributedLamports := by
  unfold claimRefund ClaimRefund.tryAccounts account systemTransfer at h
  simp only [bind_error_iff, bind_ok_iff, require_eq_ok, require_eq_error, okOr_eq_ok, okOr_eq_error, pure_ok_iff,
    pure_ne_error, reduceCtorEq, Error.runtime.injEq, and_false, false_or, exists_false, or_false] at h
  obtain ⟨_, ⟨st, hst, v, hv, rfl⟩, _, hended, _, hsoft, _, -, hshort, -⟩ := h
  exact ⟨st, v, hst, hv, hended, hsoft, not_le.1 hshort⟩

end Presale

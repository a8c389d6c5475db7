/-
The investors' instructions (`investor.rs`).
-/
import Presale.Program.Contexts
import Presale.Lib.Custody
import Presale.Lib.Loop

namespace Presale

open Checked World

/-! ## The stage walk of `buy_tokens` -/

/-- The variables of the `while` loop: the stages, `remaining_sol`, `tokens` and `idx`. -/
structure Walk where
  stages : List PresaleStage
  remainingSol : ℕ
  tokens : ℕ
  idx : ℕ

/-- The index after a purchase: past the stage when the purchase sold it out. -/
def nextIdx (sold available idx : ℕ) : Except Error ℕ :=
  if sold ≥ available then checkedAdd idx 1 else .ok idx

/-- One pass of the loop, entered while `remaining_sol > 0 && idx < stages.len()`: `.inl` goes on,
`.inr` leaves the loop. -/
def stagePass (tokenUnit : ℕ) (s : Walk) : Except Error (Walk ⊕ Walk) :=
  if s.remainingSol = 0 then .ok (.inr s) else
  match s.stages[s.idx]? with
  | none => .ok (.inr s)
  | some stage => do
    let stageRemaining ← checkedSub stage.tokensAvailable stage.tokensSoldInStage
    if stageRemaining = 0 then
      let idx ← checkedAdd s.idx 1
      return .inl { s with idx }
    else
      let product ← checkedMul s.remainingSol tokenUnit
      let affordable ← checkedDiv product stage.pricePerToken
      if affordable = 0 then
        return .inr s
      else
        let buyInStage := min affordable stageRemaining
        let cost ← checkedMul buyInStage stage.pricePerToken
        let solUsed ← checkedDiv cost tokenUnit
        let tokensSoldInStage ← checkedAdd stage.tokensSoldInStage buyInStage
        let tokens ← checkedAdd s.tokens buyInStage
        let remainingSol ← checkedSub s.remainingSol solUsed
        let idx ← nextIdx tokensSoldInStage stage.tokensAvailable s.idx
        return .inl { stages := s.stages.set s.idx { stage with tokensSoldInStage }, remainingSol, tokens, idx }

/-- A pass that buys `bought` base units for `cost` lamports in stage `stage`. -/
structure BuyPass (tokenUnit : ℕ) (s s' : Walk) (stage : PresaleStage) (bought cost : ℕ) : Prop where
  remaining : 0 < s.remainingSol
  current : s.stages[s.idx]? = some stage
  unsold : stage.tokensSoldInStage < stage.tokensAvailable
  fits : s.remainingSol * tokenUnit < 2 ^ 64
  price : 0 < stage.pricePerToken
  affordable : 0 < s.remainingSol * tokenUnit / stage.pricePerToken
  boughtEq : bought = min (s.remainingSol * tokenUnit / stage.pricePerToken)
    (stage.tokensAvailable - stage.tokensSoldInStage)
  costEq : cost = bought * stage.pricePerToken / tokenUnit
  costLe : cost ≤ s.remainingSol
  tokensFit : s.tokens + bought < 2 ^ 64
  soldFit : stage.tokensSoldInStage + bought < 2 ^ 64
  next : s' =
    { stages := s.stages.set s.idx { stage with tokensSoldInStage := stage.tokensSoldInStage + bought }
      remainingSol := s.remainingSol - cost
      tokens := s.tokens + bought
      idx := if stage.tokensAvailable ≤ stage.tokensSoldInStage + bought then s.idx + 1 else s.idx }

theorem nextIdx_eq {sold available idx i : ℕ} (h : nextIdx sold available idx = .ok i) :
    i = if available ≤ sold then idx + 1 else idx := by
  unfold nextIdx at h
  split at h
  · rename_i hfull
    simp only [okOr_eq_ok, add_eq_some] at h
    rw [if_pos hfull, h.2]
  · rename_i hfull
    cases h
    rw [if_neg hfull]

/-- A successful pass that goes on either skips a sold-out stage or buys. -/
theorem stagePass_inl {tokenUnit : ℕ} {s s' : Walk} (h : stagePass tokenUnit s = .ok (.inl s')) :
    (∃ stage, s.stages[s.idx]? = some stage ∧ stage.tokensAvailable = stage.tokensSoldInStage ∧
      s' = { s with idx := s.idx + 1 }) ∨
    ∃ stage bought cost, BuyPass tokenUnit s s' stage bought cost := by
  unfold stagePass at h
  split at h
  · cases h
  rename_i hrem
  split at h
  · cases h
  rename_i stage hstage
  simp only [bind_ok_iff, okOr_eq_ok, sub_eq_some] at h
  obtain ⟨r, ⟨hle, rfl⟩, h⟩ := h
  split at h
  · rename_i hzero
    simp only [bind_ok_iff, okOr_eq_ok, add_eq_some, pure_ok_iff, Sum.inl.injEq] at h
    obtain ⟨_, ⟨_, rfl⟩, rfl⟩ := h
    exact .inl ⟨stage, hstage, by omega, rfl⟩
  rename_i hpos
  simp only [bind_ok_iff, okOr_eq_ok, mul_eq_some, div_eq_some] at h
  obtain ⟨_, ⟨hfits, rfl⟩, _, ⟨hprice, rfl⟩, h⟩ := h
  split at h
  · simp at h
  rename_i haff
  simp only [bind_ok_iff, okOr_eq_ok, mul_eq_some, div_eq_some, add_eq_some, sub_eq_some, pure_ok_iff,
    Sum.inl.injEq] at h
  obtain ⟨_, ⟨-, rfl⟩, _, ⟨-, rfl⟩, _, ⟨hsold, rfl⟩, _, ⟨htok, rfl⟩, _, ⟨hcost, rfl⟩, idx, hidx, rfl⟩ := h
  refine .inr ⟨stage, _, _, ⟨by omega, hstage, by omega, hfits, Nat.pos_of_ne_zero hprice, Nat.pos_of_ne_zero haff,
    rfl, rfl, hcost, htok, hsold, ?_⟩⟩
  rw [nextIdx_eq hidx]

/-- A successful pass leaves the loop as it stands: no lamports left, no stage left, or not one
base unit affordable. -/
theorem stagePass_inr {tokenUnit : ℕ} {s t : Walk} (h : stagePass tokenUnit s = .ok (.inr t)) :
    t = s ∧ (s.remainingSol = 0 ∨ s.stages[s.idx]? = none ∨
      ∃ stage, s.stages[s.idx]? = some stage ∧ stage.tokensSoldInStage < stage.tokensAvailable ∧
        s.remainingSol * tokenUnit / stage.pricePerToken = 0) := by
  unfold stagePass at h
  split at h
  · rename_i hrem
    cases h; exact ⟨rfl, .inl hrem⟩
  split at h
  · rename_i hstage
    cases h; exact ⟨rfl, .inr (.inl hstage)⟩
  rename_i stage hstage
  simp only [bind_ok_iff, okOr_eq_ok, sub_eq_some] at h
  obtain ⟨r, ⟨hle, rfl⟩, h⟩ := h
  split at h
  · simp only [bind_ok_iff, pure_ok_iff, reduceCtorEq, and_false, exists_false] at h
  rename_i hleft
  simp only [bind_ok_iff, okOr_eq_ok, mul_eq_some, div_eq_some] at h
  obtain ⟨_, ⟨hfits, rfl⟩, _, ⟨hprice, rfl⟩, h⟩ := h
  split at h
  · rename_i haff
    cases h; exact ⟨rfl, .inr (.inr ⟨stage, hstage, by omega, haff⟩)⟩
  · simp only [bind_ok_iff, pure_ok_iff, reduceCtorEq, and_false, exists_false] at h

/-- Tokens left in the stages, and stages left: every pass that goes on uses up one of them. -/
def Walk.measure (s : Walk) : ℕ :=
  (s.stages.map fun stage => stage.tokensAvailable - stage.tokensSoldInStage).sum + (s.stages.length - s.idx)

theorem stagePass_decreases (tokenUnit : ℕ) (s s' : Walk) (h : stagePass tokenUnit s = .ok (.inl s')) :
    s'.measure < s.measure := by
  rcases stagePass_inl h with ⟨stage, hstage, _, rfl⟩ | ⟨stage, bought, cost, hb⟩
  · have := (List.getElem?_eq_some_iff.1 hstage).1
    simp only [Walk.measure]; omega
  · have hidx := (List.getElem?_eq_some_iff.1 hb.current).1
    have hsum := Custody.sum_map_set (fun stage : PresaleStage => stage.tokensAvailable - stage.tokensSoldInStage)
      { stage with tokensSoldInStage := stage.tokensSoldInStage + bought } hb.current
    have hpos : 0 < bought := by
      have := hb.affordable; have := hb.unsold; rw [hb.boughtEq]; omega
    have := hb.unsold
    rw [hb.next]
    simp only [Walk.measure, List.length_set] at hsum ⊢
    split <;> omega

/-- The `while` loop. -/
def stageWalk (tokenUnit : ℕ) : Loop Walk Error where
  body := stagePass tokenUnit
  measure := Walk.measure
  decreases := stagePass_decreases tokenUnit

/-! ## Buying -/

/-- The referral branch of `buy_tokens`, after `tokens` were bought: the state with the bonus
counted, and the accounts with the bonus paid from the vault. -/
def payReferral (ctx : BuyTokens) (state : PresaleState) (mint : Mint) (tokens : ℕ) (referrer : Option Address)
    (w : World) : Except Error (PresaleState × World) :=
  match referrer with
  | none => return (state, w)
  | some refKey => do
    require (refKey ≠ .key ctx.buyer) (.presale .selfReferral)
    -- the account is one of the token program's
    require (w.tokenAccounts ctx.referrerTokenAccount ≠ none) (.presale .invalidReferralAccount)
    require (ctx.referrerTokenAccount = .ata refKey state.tokenMint) (.presale .invalidReferralAccount)
    let product ← checkedMul tokens state.referralBonusBps
    let bonus ← checkedDiv product 10000
    if bonus = 0 then
      return (state, w)
    else
      let totalReferralBonuses ← checkedAdd state.totalReferralBonuses bonus
      let w ← transferChecked w (.tokenVault ctx.state) ctx.mint ctx.referrerTokenAccount
        (.vaultAuthority ctx.state) bonus mint.decimals
      return ({ state with totalReferralBonuses }, w.emit (.referralBonus refKey ctx.buyer bonus))

def buyTokens (ctx : BuyTokens) (solAmount : ℕ) (referrer : Option Address) (w : World) : Except Error World := do
  let (state, mint, vesting) ← ctx.tryAccounts w
  require (state.isActive ∧ ¬ state.isPaused) (.presale .presaleInactive)
  require (w.clock ≥ state.startTime ∧ w.clock ≤ state.endTime) (.presale .wrongTiming)
  require (state.currentStageIndex < state.stages.length) (.presale .soldOut)
  let tokenUnit ← checkedPow 10 mint.decimals
  let walk ← (stageWalk tokenUnit).run
    { stages := state.stages, remainingSol := solAmount, tokens := 0, idx := state.currentStageIndex }
  require (walk.tokens > 0) (.presale .invalidTokenAmount)
  let solUsed ← checkedSub solAmount walk.remainingSol
  require (solUsed > 0) (.presale .invalidTokenAmount)
  let newContrib ← checkedAdd vesting.contributedLamports solUsed
  require (newContrib ≤ state.maxContributionLamports) (.presale .walletCapExceeded)
  let newTotal ← checkedAdd state.totalRaisedLamports solUsed
  require (newTotal ≤ state.hardCapLamports) (.presale .hardCapReached)
  let tokensSold ← checkedAdd state.tokensSold walk.tokens
  let totalLocked ← checkedAdd vesting.totalLocked walk.tokens
  let state := { state with
    stages := walk.stages
    -- `as u8`
    currentStageIndex := min walk.idx (walk.stages.length - 1) % 256
    tokensSold
    totalRaisedLamports := newTotal }
  let vesting := { vesting with
    startTime := if vesting.totalLocked = 0 then state.endTime else vesting.startTime
    totalLocked
    contributedLamports := newContrib
    user := ctx.buyer }
  let w ← systemTransfer w (.key ctx.buyer) (.solVault ctx.state) solUsed
  let (state, w) ← payReferral ctx state mint walk.tokens referrer w
  let w := (w.setState ctx.state state).setVesting ctx.buyer vesting
  return w.emit (.tokensPurchased ctx.buyer solUsed walk.tokens state.currentStageIndex)

/-! ## Claiming -/

/-- The tokens vested at `elapsed` seconds past the cliff. -/
def vestedTokens (totalLocked elapsed vestingDuration : ℕ) : Except Error ℕ :=
  if elapsed ≥ vestingDuration then .ok totalLocked
  else do
    let product ← checkedMul totalLocked elapsed
    checkedDiv product vestingDuration

def claimVested (ctx : ClaimVested) (w : World) : Except Error World := do
  let (state, vesting, mint, w) ← ctx.tryAccounts w
  require (¬ state.isPaused) (.presale .presaleInactive)
  require (state.totalRaisedLamports ≥ state.softCapLamports) (.presale .softCapNotMet)
  let effectiveStart ← addI64 vesting.startTime state.vestingCliff
  require (w.clock ≥ effectiveStart) (.presale .cliffNotPassed)
  let elapsed ← subI64 w.clock effectiveStart
  let vested ← vestedTokens vesting.totalLocked elapsed.toNat state.vestingDuration.toNat
  let releasable ← checkedSub vested vesting.alreadyClaimed
  require (releasable > 0) (.presale .nothingToClaim)
  require (releasable < state.minClaimAmount → vested = vesting.totalLocked) (.presale .belowMinClaim)
  let alreadyClaimed ← checkedAdd vesting.alreadyClaimed releasable
  let w := w.setVesting ctx.user { vesting with alreadyClaimed }
  let w ← transferChecked w (.tokenVault ctx.state) ctx.mint (.ata (.key ctx.user) ctx.mint)
    (.vaultAuthority ctx.state) releasable mint.decimals
  return w.emit (.tokensClaimed ctx.user releasable)

def claimRefund (ctx : ClaimRefund) (w : World) : Except Error World := do
  let (state, vesting) ← ctx.tryAccounts w
  require (w.clock > state.endTime) (.presale .presaleStillActive)
  require (state.totalRaisedLamports < state.softCapLamports) (.presale .softCapMet)
  let amount := vesting.contributedLamports
  require (amount > 0) (.presale .nothingToRefund)
  let w := w.setVesting ctx.user { vesting with contributedLamports := 0 }
  let w ← systemTransfer w (.solVault ctx.state) (.key ctx.user) amount
  return w.emit (.refundClaimed ctx.user amount)

end Presale

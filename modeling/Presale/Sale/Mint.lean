/-
The mint a buyer passes to `buy_tokens`: the price is computed with its decimals, and only the
transfer of a referral bonus compares it with the presale's own mint.
-/
import Presale.Effects.Investor
import Presale.Program.Script
import Presale.Sale.Flows
import Presale.System.Store

namespace Presale

open Checked World

/-! ## Equal decimals -/

/-- Bonuses paid with either of two mints leave the same state and accounts. -/
theorem payReferral_same {A buyer m m' : Pubkey} {rta : Address} {st : PresaleState} {mint mint' : Mint} {tokens : ℕ}
    {referrer : Option Address} {w : World} {r r' : PresaleState × World} (hd : mint.decimals = mint'.decimals)
    (h : payReferral ⟨A, buyer, m, rta⟩ st mint tokens referrer w = .ok r)
    (h' : payReferral ⟨A, buyer, m', rta⟩ st mint' tokens referrer w = .ok r') : r = r' := by
  unfold payReferral at h h'
  cases referrer with
  | none => exact Except.ok.inj (h.symm.trans h')
  | some refKey =>
    rw [hd] at h
    iterate 5 refine bind_same h h' fun _ h h' => ?_
    split at h
    · rename_i h0
      rw [if_pos h0] at h'
      exact Except.ok.inj (h.symm.trans h')
    · rename_i h0
      rw [if_neg h0] at h'
      refine bind_same h h' fun _ h h' => ?_
      obtain ⟨w₁, htr, h⟩ := bind_ok_iff.1 h
      obtain ⟨w₁', htr', h'⟩ := bind_ok_iff.1 h'
      -- both transfers name the vault's mint
      obtain ⟨⟨a, ha, hm, -⟩, -⟩ := transferChecked_ok htr
      obtain ⟨⟨a', ha', hm', -⟩, -⟩ := transferChecked_ok htr'
      rw [ha] at ha'; cases ha'
      obtain rfl := hm.symm.trans hm'
      rw [htr] at htr'; cases htr'
      exact Except.ok.inj (h.symm.trans h')

/-- Purchases through mints of equal decimals that both succeed end in the same world. -/
theorem buyTokens_same {A buyer m m' : Pubkey} {rta : Address} {sol : ℕ} {referrer : Option Address} {w w₁ w₂ : World}
    {t t' : Mint} (hm : w.mints m = some t) (hm' : w.mints m' = some t') (hd : t.decimals = t'.decimals)
    (h : buyTokens ⟨A, buyer, m, rta⟩ sol referrer w = .ok w₁)
    (h' : buyTokens ⟨A, buyer, m', rta⟩ sol referrer w = .ok w₂) : w₁ = w₂ := by
  unfold buyTokens at h h'
  obtain ⟨⟨state, mint, vesting⟩, hacc, h⟩ := bind_ok_iff.1 h
  obtain ⟨⟨state', mint', vesting'⟩, hacc', h'⟩ := bind_ok_iff.1 h'
  obtain ⟨hst, hmint, rfl⟩ := BuyTokens.tryAccounts_ok hacc
  obtain ⟨hst', hmint', rfl⟩ := BuyTokens.tryAccounts_ok hacc'
  obtain rfl := Option.some.inj (hst.symm.trans hst')
  obtain rfl := Option.some.inj (hm.symm.trans hmint)
  obtain rfl := Option.some.inj (hm'.symm.trans hmint')
  obtain ⟨_, d⟩ := t
  obtain ⟨_, d'⟩ := t'
  obtain rfl : d = d' := hd
  -- the mint is named again only where the referral is paid
  iterate 15 refine bind_same h h' fun _ h h' => ?_
  obtain ⟨r, href, h⟩ := bind_ok_iff.1 h
  obtain ⟨r', href', h'⟩ := bind_ok_iff.1 h'
  obtain rfl := payReferral_same rfl href href'
  exact Except.ok.inj (h.symm.trans h')

/-! ## Bonuses -/

/-- A bonus leaves the presale's vault, so the mint named with it is the presale's. -/
theorem buyTokens_bonus_mint {A buyer m : Pubkey} {rta : Address} {sol : ℕ} {referrer : Option Address} {w w' : World}
    {st st' : PresaleState} (hw : w.Linked) (hst : w.states A = some st)
    (h : buyTokens ⟨A, buyer, m, rta⟩ sol referrer w = .ok w') (hst' : w'.states A = some st')
    (hpaid : st.totalReferralBonuses < st'.totalReferralBonuses) : m = st.tokenMint := by
  obtain ⟨st₀, _, wk, solUsed, bonus, hb⟩ := buyTokens_ok h
  obtain rfl : st₀ = st := Option.some.inj (hb.state.symm.trans hst)
  rw [hb.states, Function.update_self] at hst'
  obtain rfl := Option.some.inj hst'
  rcases hb.tokenAccounts with ⟨hzero, -⟩ | hbonus
  · have : st₀.totalReferralBonuses < st₀.totalReferralBonuses + bonus := hpaid
    omega
  · obtain ⟨a, ha, hm⟩ := hbonus.vaultMint
    obtain ⟨amount, hvault⟩ := (hw.presales A st₀ hst).vault
    obtain rfl := Option.some.inj (ha.symm.trans hvault)
    exact hm.symm

/-! ## Different decimals -/

/-- A purchase needs the token unit of the mint it names to fit 64 bits. -/
theorem buyTokens_decimals {ctx : BuyTokens} {sol : ℕ} {referrer : Option Address} {w w' : World} {t : Mint}
    (h : buyTokens ctx sol referrer w = .ok w') (hm : w.mints ctx.mint = some t) : t.decimals < 20 := by
  obtain ⟨_, mint, _, _, _, hb⟩ := buyTokens_ok h
  have hmint := hb.mint
  rw [hm] at hmint; cases hmint
  have hunit := hb.unit
  by_contra hlt
  have hle : 10 ^ 20 ≤ 10 ^ t.decimals := Nat.pow_le_pow_right (by decide) (by omega)
  omega

/-- One stage of `10 ^ 19` base units at one lamport each, sold in a mint of `d` decimals; a second
mint has `d'`. -/
def decimalsArgs : InitializePresaleArgs where
  softCap := 0
  hardCap := 100
  maxContribution := 100
  tokensForSale := 10 ^ 19
  startTime := 10
  endTime := 20
  vestingDuration := 100
  vestingCliff := 0
  minClaimAmount := 0
  referralBonusBps := 0
  stages := [⟨1, 10 ^ 19, 0⟩]

def decimalsScript : List Act := [.call (.initializePresale ⟨100, 1, .key 1⟩ decimalsArgs), .wait 15]

def decimalsWorld (d d' : ℕ) : World :=
  blank (fun k => if k = 100 then some ⟨none, d⟩ else if k = 101 then some ⟨none, d'⟩ else none) (fun _ => none)
    (fun a => if a = .key 2 then 100 else 0)

/-- The presale on sale, and a purchase for one lamport through a mint. -/
def decimalsSale (d d' : ℕ) : World := play (decimalsWorld d d') decimalsScript

def decimalsBuy (m : Pubkey) : Call := .buyTokens ⟨1, 2, m, .key 9⟩ 1 none

/-- Both purchases succeed and sell a token of the mint each. -/
theorem decimalsSale_sells : ∀ d d' : Fin 20, Playable (decimalsWorld d d') decimalsScript ∧
    ((decimalsSale d d').states 1).map (·.tokenMint) = some 100 ∧
    (decimalsSale d d').mints 100 = some ⟨none, d⟩ ∧ (decimalsSale d d').mints 101 = some ⟨none, d'⟩ ∧
    failure (decimalsSale d d') (decimalsBuy 100) = none ∧ failure (decimalsSale d d') (decimalsBuy 101) = none ∧
    (play (decimalsSale d d') [.call (decimalsBuy 100)]).sold 1 = 10 ^ d.val ∧
    (play (decimalsSale d d') [.call (decimalsBuy 101)]).sold 1 = 10 ^ d'.val := by
  decide +kernel

/-- In a presale of a mint of six decimals one lamport buys a thousand times the tokens when the
buyer passes a mint of nine. -/
theorem mint_matters : Reachable (decimalsSale 6 9) ∧
    ((decimalsSale 6 9).states 1).map (·.tokenMint) = some 100 ∧
    exec (decimalsBuy 100) (decimalsSale 6 9) = .ok (play (decimalsSale 6 9) [.call (decimalsBuy 100)]) ∧
    exec (decimalsBuy 101) (decimalsSale 6 9) = .ok (play (decimalsSale 6 9) [.call (decimalsBuy 101)]) ∧
    (play (decimalsSale 6 9) [.call (decimalsBuy 100)]).sold 1 = 10 ^ 6 ∧
    (play (decimalsSale 6 9) [.call (decimalsBuy 101)]).sold 1 = 10 ^ 9 :=
  ⟨⟨_, _, blank_genesis _ _ _, play_run (by decide +kernel)⟩, by decide +kernel, exec_of_play (by decide +kernel),
    exec_of_play (by decide +kernel), by decide +kernel, by decide +kernel⟩

/-- The passed mint makes no difference between the decimals `d` of the presale's mint and the
decimals `d'` of the passed one exactly when they are equal, or one of them fits no price. A purchase
that pays a bonus is safe from this: it goes through only with the presale's mint. -/
theorem mint_irrelevant_iff (d d' : ℕ) :
    ((∀ w A st m t t' buyer rta sol referrer w₁ w₂, Reachable w → w.states A = some st →
      w.mints st.tokenMint = some t → t.decimals = d → w.mints m = some t' → t'.decimals = d' → IsU64 sol →
      buyTokens ⟨A, buyer, st.tokenMint, rta⟩ sol referrer w = .ok w₁ →
      buyTokens ⟨A, buyer, m, rta⟩ sol referrer w = .ok w₂ → w₁ = w₂) ↔
    d = d' ∨ 20 ≤ d ∨ 20 ≤ d') ∧
    ∀ w A st m buyer rta sol referrer w' st', Reachable w → w.states A = some st →
      buyTokens ⟨A, buyer, m, rta⟩ sol referrer w = .ok w' → w'.states A = some st' →
      st.totalReferralBonuses < st'.totalReferralBonuses → m = st.tokenMint := by
  refine ⟨⟨?_, ?_⟩, ?_⟩
  · intro hsame
    by_contra hne
    have hd : d < 20 := by omega
    have hd' : d' < 20 := by omega
    obtain ⟨hplay, hmint, hm, hm', hok, hok', hsold, hsold'⟩ := decimalsSale_sells ⟨d, hd⟩ ⟨d', hd'⟩
    obtain ⟨st, hst, htm⟩ := Option.map_eq_some_iff.1 hmint
    have hreach : Reachable (decimalsSale d d') := ⟨_, _, blank_genesis _ _ _, play_run hplay⟩
    have hbuy : buyTokens ⟨1, 2, st.tokenMint, .key 9⟩ 1 none (decimalsSale d d') =
        .ok (play (decimalsSale d d') [.call (decimalsBuy 100)]) := by
      rw [htm]; exact exec_of_play hok
    have heq := hsame _ 1 st 101 _ _ 2 (.key 9) 1 none _ _ hreach hst (by rw [htm]; exact hm) rfl hm' rfl (by decide)
      hbuy (exec_of_play hok')
    -- one lamport bought one token of either mint
    have hpow : 10 ^ d = 10 ^ d' := hsold.symm.trans ((congrArg (·.sold 1) heq).trans hsold')
    exact hne (.inl (Nat.pow_right_injective (by decide) hpow))
  · rintro hd w A st m t t' buyer rta sol referrer w₁ w₂ - hst hm rfl hm' rfl - h h'
    rcases hd with hd | hd | hd
    · exact buyTokens_same hm hm' hd h h'
    · have := buyTokens_decimals h hm
      omega
    · have := buyTokens_decimals h' hm'
      omega
  · rintro w A st m buyer rta sol referrer w' st' ⟨w₀, tr, h0, hrun⟩ hst h hst' hpaid
    exact buyTokens_bonus_mint (hrun.linked h0.owned h0.linked).1.2 hst h hst' hpaid

end Presale

/-
Settlements of different users at one moment: each reads of the other's only the balances and the
total, so where two of them succeed in one order they succeed in the other and leave the same.
-/
import Presale.Stake.Earned
import Presale.Stake.Principal
import Presale.Steps.Supply

namespace Presale

open World Checked

/-! ## What a settlement reads -/

/-- The accounts of `f'` are those of `f`, with other amounts. -/
def SameAccounts (f f' : TokenAccounts) : Prop :=
  ∀ a, (f' a).map (fun t => (t.mint, t.owner)) = (f a).map fun t => (t.mint, t.owner)

section
variable {f f' g : TokenAccounts} {src dst a : Address} {n : ℕ} {t : TokenAccount}

theorem SameAccounts.symm (h : SameAccounts f f') : SameAccounts f' f := fun a => (h a).symm

theorem SameAccounts.trans (h : SameAccounts f f') (h' : SameAccounts f' g) : SameAccounts f g :=
  fun a => (h' a).trans (h a)

theorem SameAccounts.found (h : SameAccounts f f') (ht : f a = some t) : ∃ n, f' a = some { t with amount := n } := by
  have hsame := h a
  rw [ht, Option.map_some] at hsame
  obtain ⟨t', ht', heq⟩ := Option.map_eq_some_iff.1 hsame
  obtain ⟨hmint, howner⟩ := Prod.mk.inj heq
  exact ⟨t'.amount, by rw [ht', ← hmint, ← howner]⟩

theorem SameAccounts.owned (h : SameAccounts f f') (ho : Owned f) : Owned f' := by
  intro a t ha ht
  obtain ⟨n, hn⟩ := h.symm.found ht
  exact ho a { t with amount := n } ha hn

theorem TokenMove.sameAccounts (h : TokenMove f f' src dst n) : SameAccounts f f' := by
  intro a
  cases ha : f a with
  | none => rw [h.absent a ha]
  | some t =>
    obtain ⟨k, hk⟩ := h.kept a t ha
    rw [hk]
    rfl

theorem RewardPaid.sameAccounts {A : Pubkey} (h : RewardPaid A a n f f') : SameAccounts f f' := by
  rcases h.move with ⟨-, rfl⟩ | hm
  · exact fun _ => rfl
  · exact hm.sameAccounts

end

/-- The vaults of the pool of `A` and the accounts of `u` in `f` are in `f'`, with other amounts. -/
def SameOwn (A u : Pubkey) (f f' : TokenAccounts) : Prop :=
  ∀ a t, f a = some t → a = .stakeVault A ∨ a = .rewardVault A ∨ t.owner = .key u →
    ∃ n, f' a = some { t with amount := n }

theorem SameAccounts.own {A u : Pubkey} {f f' : TokenAccounts} (h : SameAccounts f f') : SameOwn A u f f' :=
  fun _ _ ht _ => h.found ht

/-- To a settlement of `u` in the pool of `A` the world `x` looks like `w`, up to balances and the
total staked. -/
structure SameFor (A u : Pubkey) (w x : World) : Prop where
  clock : x.clock = w.clock
  states : x.states = w.states
  mints : x.mints = w.mints
  record : x.userStakes u = w.userStakes u
  accounts : SameOwn A u w.tokenAccounts x.tokenAccounts
  pool : ∃ p q, w.pools A = some p ∧ x.pools A = some q ∧ updatePool q x.clock = .ok (q.updated x.clock) ∧
    (q.updated x.clock).accruedPerShare = (p.updated w.clock).accruedPerShare

/-! ## Replays -/

section
variable {w w' x : World}

/-- A stake that succeeds succeeds where it finds the same and its tokens. -/
theorem stake_replay {ctx : Stake} {amount : ℕ} (h : stake ctx amount w = .ok w')
    (hs : SameFor ctx.state ctx.user w x) (hown : amount ≤ x.balance ctx.userToken)
    (hfits : ∀ q ∈ x.pools ctx.state, q.totalStaked + amount < 2 ^ 64) : ∃ x', stake ctx amount x = .ok x' := by
  unfold stake Stake.tryAccounts account at h
  simp only [bind_ok_iff, require_eq_ok, okOr_eq_ok, add_eq_some, pure_ok_iff, Prod.exists, Prod.mk.injEq] at h
  obtain ⟨_, _, _, _, ⟨st, hst, pool, hpool, m, hm, v, hv, a, ha, _, hvmint, _, howner, _, hmint, rfl, rfl, rfl, rfl⟩, _,
    hpos, _, hallowed, p, hp, w₁, -, _, ⟨hamount, rfl⟩, _, -, _, hdebt, -⟩ := h
  obtain rfl := updatePool_ok hp
  obtain ⟨_, q, hw, hq, hupd, hacc⟩ := hs.pool
  rw [hpool] at hw; cases hw
  obtain ⟨n, hn⟩ := hs.accounts _ _ ha (.inr (.inr howner))
  obtain ⟨k, hk⟩ := hs.accounts _ _ hv (.inl rfl)
  have hbal : amount ≤ n := by rwa [balance_eq, TokenAccounts.balance_of hn] at hown
  have hrec : x.userStake ctx.user = w.userStake ctx.user := userStake_same hs.record
  obtain ⟨x₁, htr⟩ := transferChecked_succeeds hn hk hbal hmint hvmint (by rw [hs.mints]; exact hm)
  rw [← hrec] at hamount hdebt
  rw [← hacc] at hdebt
  rw [← hs.states] at hst
  rw [← hs.mints] at hm
  rw [← hs.clock] at hallowed
  unfold stake Stake.tryAccounts account
  simp only [bind_ok_iff, require_eq_ok, okOr_eq_ok, add_eq_some, pure_ok_iff, Prod.exists, Prod.mk.injEq]
  exact ⟨_, _, _, _, _, ⟨st, hst, q, hq, m, hm, _, hk, _, hn, (), hvmint, (), howner, (), hmint, rfl, rfl, rfl, rfl⟩, (),
    hpos, (), hallowed, _, hupd, x₁, howner ▸ htr, _, ⟨hamount, rfl⟩, _, ⟨hfits q hq, rfl⟩, _, hdebt, rfl⟩

theorem pendingRewards_congr {s : UserStake} {p q : StakePool} (h : q.accruedPerShare = p.accruedPerShare) :
    pendingRewards s q = pendingRewards s p := by
  unfold pendingRewards
  rw [h]

/-- A claim that succeeds succeeds where it finds the same and its reward. -/
theorem claimRewards_replay {ctx : ClaimRewards} (h : claimRewards ctx w = .ok w')
    (hs : SameFor ctx.state ctx.user w x)
    (hreward : ∀ p ∈ w.pools ctx.state, (w.userStake ctx.user).pending (p.updated w.clock) % 2 ^ 64 ≤
      x.balance (.rewardVault ctx.state)) : ∃ x', claimRewards ctx x = .ok x' := by
  unfold claimRewards ClaimRewards.tryAccounts account at h
  simp only [bind_ok_iff, require_eq_ok, okOr_eq_ok, pure_ok_iff, Prod.exists, Prod.mk.injEq] at h
  obtain ⟨_, _, _, _, ⟨st, hst, pool, hpool, s, hrec, m, hm, v, hv, a, ha, _, hvmint, _, howner, _, hmint, rfl, rfl, rfl,
    rfl⟩, _, hallowed, p, hp, paid, hpaid, _, hpos, _, hdebt, w₁, htr, -⟩ := h
  obtain rfl := updatePool_ok hp
  obtain ⟨_, q, hw, hq, hupd, hacc⟩ := hs.pool
  rw [hpool] at hw; cases hw
  obtain ⟨n, hn⟩ := hs.accounts _ _ hv (.inr (.inl rfl))
  obtain ⟨k, hk⟩ := hs.accounts _ _ ha (.inr (.inr howner))
  have hbal : paid ≤ n := by
    have hle := hreward pool hpool
    rw [userStake_of hrec, ← (pendingRewards_ok hpaid).1, balance_eq, TokenAccounts.balance_of hn] at hle
    exact hle
  obtain ⟨⟨v', hv', -, howned⟩, -, -⟩ := transferChecked_ok htr
  rw [setUserStake_tokenAccounts, setPool_tokenAccounts, hv] at hv'; cases hv'
  rw [← hs.states] at hst
  rw [← hs.mints] at hm
  rw [← hs.clock] at hallowed
  rw [← hs.record] at hrec
  rw [← pendingRewards_congr hacc] at hpaid
  rw [← hacc] at hdebt
  obtain ⟨x₁, htr⟩ := transferChecked_succeeds (w := (x.setPool ctx.state (q.updated x.clock)).setUserStake ctx.user
    { s with rewardDebt := _ }) hn hk hbal hvmint hmint hm
  unfold claimRewards ClaimRewards.tryAccounts account
  simp only [bind_ok_iff, require_eq_ok, okOr_eq_ok, pure_ok_iff, Prod.exists, Prod.mk.injEq]
  exact ⟨_, _, _, _, _, ⟨st, hst, q, hq, s, hrec, m, hm, _, hn, _, hk, (), hvmint, (), howner, (), hmint, rfl, rfl, rfl,
    rfl⟩, (), hallowed, _, hupd, paid, hpaid, (), hpos, _, hdebt, x₁, howned ▸ htr, rfl⟩

/-- The payment of a pending reward succeeds from a reward vault that holds it. -/
theorem payPending_succeeds {ctx : Unstake} {pending : ℕ} {m : Mint} {v a : TokenAccount}
    (hv : w.tokenAccounts (.rewardVault ctx.state) = some v) (ha : w.tokenAccounts ctx.userToken = some a)
    (hle : pending ≤ v.amount) (hvmint : v.mint = ctx.mint) (hmint : a.mint = ctx.mint)
    (howner : v.owner = .vaultAuthority ctx.state) (hm : w.mints ctx.mint = some m) :
    ∃ w', payPending ctx pending m.decimals w = .ok w' := by
  unfold payPending
  split
  · rw [← howner]
    exact transferChecked_succeeds hv ha hle hvmint hmint hm
  · exact ⟨w, rfl⟩

/-- An unstake that succeeds succeeds where it finds the same, its principal and its reward. -/
theorem unstake_replay {ctx : Unstake} {amount : ℕ} (h : unstake ctx amount w = .ok w')
    (hs : SameFor ctx.state ctx.user w x) (hvault : amount ≤ x.balance (.stakeVault ctx.state))
    (hreward : ∀ p ∈ w.pools ctx.state, (w.userStake ctx.user).pending (p.updated w.clock) % 2 ^ 64 ≤
      x.balance (.rewardVault ctx.state))
    (htotal : ∀ q ∈ x.pools ctx.state, amount ≤ q.totalStaked) : ∃ x', unstake ctx amount x = .ok x' := by
  unfold unstake Unstake.tryAccounts account at h
  simp only [bind_ok_iff, require_eq_ok, okOr_eq_ok, sub_eq_some, pure_ok_iff] at h
  obtain ⟨_, ⟨st, hst, pool, hpool, s, hrec, m, hm, v, hv, r, hr, a, ha, rfl⟩, _, hpos, _, hallowed, _, hvmint, _, hrmint,
    _, howner, _, hmint, _, hvowner, _, hrowner, p, hp, paid, hpaid, w₁, -, w₂, -, _, ⟨hamount, rfl⟩, _, -, _, hdebt,
    -⟩ := h
  obtain rfl := updatePool_ok hp
  obtain ⟨_, q, hw, hq, hupd, hacc⟩ := hs.pool
  rw [hpool] at hw; cases hw
  obtain ⟨i, hi⟩ := hs.accounts _ _ hv (.inl rfl)
  obtain ⟨n, hn⟩ := hs.accounts _ _ hr (.inr (.inl rfl))
  obtain ⟨k, hk⟩ := hs.accounts _ _ ha (.inr (.inr howner))
  have hbal : paid ≤ n := by
    have hle := hreward pool hpool
    rw [userStake_of hrec, ← (pendingRewards_ok hpaid).1, balance_eq, TokenAccounts.balance_of hn] at hle
    exact hle
  rw [← hs.states] at hst
  rw [← hs.mints] at hm
  rw [← hs.clock] at hallowed
  rw [← hs.record] at hrec
  rw [← pendingRewards_congr hacc] at hpaid
  rw [← hacc] at hdebt
  obtain ⟨x₁, hpay⟩ := payPending_succeeds hn hk hbal hrmint hmint hrowner hm
  have haccounts : ctx.tryAccounts x =
      .ok ⟨st, q, s, m, { v with amount := i }, { r with amount := n }, { a with amount := k }⟩ := by
    unfold Unstake.tryAccounts account
    simp only [bind_ok_iff, okOr_eq_ok, pure_ok_iff]
    exact ⟨st, hst, q, hq, s, hrec, m, hm, _, hi, _, hn, _, hk, rfl⟩
  have hat : ctx.AtVault amount x _ (q.updated x.clock) paid x₁ :=
    ⟨haccounts, hpos, hallowed, hvmint, hrmint, howner, hmint, hvowner, hrowner, hupd, hpaid, hpay⟩
  obtain ⟨x₂, htr⟩ := hat.transfer hvault
  rw [hat.unstake_eq, bind_of_ok htr]
  simp only [bind_ok_iff, okOr_eq_ok, sub_eq_some, pure_ok_iff]
  exact ⟨_, _, ⟨hamount, rfl⟩, _, ⟨htotal q hq, rfl⟩, _, hdebt, rfl⟩

end

/-! ## Settlements -/

/-- What a settlement moves between a user's token account and the vaults, and the record it
leaves. -/
structure Settlement where
  token : Address
  staked : ℕ
  returned : ℕ
  paid : ℕ
  record : UserStake

/-- The settlement a call makes of the record `s` with the accumulator at `acc`. -/
def Call.settlement (s : UserStake) (acc : ℕ) : Call → Option Settlement
  | .stake ctx amount => some
    { token := ctx.userToken, staked := amount, returned := 0, paid := 0
      record := ⟨ctx.user, s.amount + amount, (s.amount + amount) * acc / precision⟩ }
  | .unstake ctx amount => some
    { token := ctx.userToken, staked := 0, returned := amount
      paid := (s.amount * acc / precision - s.rewardDebt) % 2 ^ 64
      record := { s with amount := s.amount - amount, rewardDebt := (s.amount - amount) * acc / precision } }
  | .claimRewards ctx => some
    { token := ctx.userToken, staked := 0, returned := 0
      paid := (s.amount * acc / precision - s.rewardDebt) % 2 ^ 64
      record := { s with rewardDebt := s.amount * acc / precision } }
  | _ => none

/-- The settlement `t` of `u` in the pool of `A` leads from `w` to `w'`. -/
structure Settled (A u : Pubkey) (t : Settlement) (w w' : World) (p : StakePool) : Prop where
  pool : w.pools A = some p
  updated : updatePool p w.clock = .ok (p.updated w.clock)
  target : ∃ a, w.tokenAccounts t.token = some a ∧ a.owner = .key u
  covered : t.staked ≤ w.balance t.token
  held : t.returned ≤ (w.userStake u).amount
  pools : ∃ totalStaked, totalStaked + t.returned = p.totalStaked + t.staked ∧
    w'.pools = Function.update w.pools A (some { p.updated w.clock with totalStaked })
  userStakes : w'.userStakes = Function.update w.userStakes u (some t.record)
  own : w'.balance t.token + t.staked = w.balance t.token + t.returned + t.paid
  stakeVault : w'.balance (.stakeVault A) + t.returned = w.balance (.stakeVault A) + t.staked
  rewardVault : w'.balance (.rewardVault A) + t.paid = w.balance (.rewardVault A)
  other : ∀ x, x ≠ t.token → x ≠ .stakeVault A → x ≠ .rewardVault A → w'.tokenAccounts x = w.tokenAccounts x
  accounts : SameAccounts w.tokenAccounts w'.tokenAccounts
  kept : SaleKept w w'

section
variable {w w' x : World} {A u : Pubkey}

theorem Staked.settled {ctx : Stake} {amount : ℕ} {st : PresaleState} {p : StakePool} (ho : Owned w.tokenAccounts)
    (h : Staked ctx amount w w' st p) : ∃ t, Call.settlement (w.userStake ctx.user)
      (p.updated w.clock).accruedPerShare (.stake ctx amount) = some t ∧ Settled ctx.state ctx.user t w w' p := by
  have hne : Address.stakeVault ctx.state ≠ ctx.userToken := ho.ne_source (isVault_stakeVault _) h.source
  refine ⟨_, rfl, h.pool, h.updated, h.source, h.move.covered, Nat.zero_le _, ⟨_, rfl, h.pools⟩, h.userStakes, ?_,
    h.stakeVault ho, h.rewardVault ho, ?_, h.move.sameAccounts, h.kept⟩
  · have := h.move.covered
    have hsource := h.move.source hne.symm
    simp only [balance_eq]
    omega
  · intro x hx hs _
    exact h.move.other x hx hs

theorem Unstaked.settled {ctx : Unstake} {amount paid : ℕ} {st : PresaleState} {p : StakePool} {s : UserStake}
    (ho : Owned w.tokenAccounts) (h : Unstaked ctx amount w w' st p s paid) :
    ∃ t, Call.settlement (w.userStake ctx.user) (p.updated w.clock).accruedPerShare (.unstake ctx amount) = some t ∧
      Settled ctx.state ctx.user t w w' p := by
  have hstake : Address.stakeVault ctx.state ≠ ctx.userToken := ho.ne_source (isVault_stakeVault _) h.target
  have hreward : Address.rewardVault ctx.state ≠ ctx.userToken := ho.ne_source (isVault_rewardVault _) h.target
  obtain ⟨f, hpay, hmove⟩ := h.moves
  have hvault := h.rewardVault ho
  rw [userStake_of h.record]
  rw [h.paidEq] at hvault
  refine ⟨_, rfl, h.pool, h.updated, h.target, Nat.zero_le _, ?_, ⟨p.totalStaked - amount, ?_, h.pools⟩, h.userStakes,
    ?_, h.stakeVault ho, hvault, ?_, ?_, h.kept⟩
  · rw [userStake_of h.record]
    exact h.amountLe
  · have := h.totalLe
    simp only
    omega
  · have hin := hmove.target hstake
    have hpaid : TokenAccounts.balance f ctx.userToken = w.balance ctx.userToken + paid := by
      rcases hpay.move with ⟨rfl, rfl⟩ | hm
      · rfl
      · exact hm.target hreward
    rw [h.paidEq] at hpaid
    show TokenAccounts.balance w'.tokenAccounts ctx.userToken = w.balance ctx.userToken + amount + _
    rw [hin, hpaid]
    exact Nat.add_right_comm _ _ _
  · intro x hx hs hr
    rw [hmove.other x hs hx]
    rcases hpay.move with ⟨-, rfl⟩ | hm
    · rfl
    · exact hm.other x hr hx
  · exact hpay.sameAccounts.trans hmove.sameAccounts

theorem RewardsClaimed.settled {ctx : ClaimRewards} {paid : ℕ} {st : PresaleState} {p : StakePool} {s : UserStake}
    (ho : Owned w.tokenAccounts) (h : RewardsClaimed ctx w w' st p s paid) :
    ∃ t, Call.settlement (w.userStake ctx.user) (p.updated w.clock).accruedPerShare (.claimRewards ctx) = some t ∧
      Settled ctx.state ctx.user t w w' p := by
  have hstake : Address.stakeVault ctx.state ≠ ctx.userToken := ho.ne_source (isVault_stakeVault _) h.target
  have hreward : Address.rewardVault ctx.state ≠ ctx.userToken := ho.ne_source (isVault_rewardVault _) h.target
  have hvault := h.rewardVault ho
  have hown := h.move.target hreward
  rw [userStake_of h.record]
  rw [h.paidEq] at hvault hown
  refine ⟨_, rfl, h.pool, h.updated, h.target, Nat.zero_le _, Nat.zero_le _, ⟨p.totalStaked, rfl, h.pools⟩, h.userStakes,
    hown, ?_, hvault, ?_, h.move.sameAccounts, h.kept⟩
  · exact h.move.balance_other (by simp) hstake
  · intro x hx _ hr
    exact h.move.other x hr hx

/-- A successful settlement is the one its call makes of the record it finds. -/
theorem exec_settled {c : Call} (ho : Owned w.tokenAccounts) (h : exec c w = .ok w') (hc : c.staker = some (A, u)) :
    ∃ p t, c.settlement (w.userStake u) (p.updated w.clock).accruedPerShare = some t ∧ Settled A u t w w' p := by
  cases c with
  | stake ctx =>
    obtain ⟨rfl, rfl⟩ := Prod.mk.inj (Option.some.inj hc)
    obtain ⟨_, p, hs⟩ := stake_ok h
    exact ⟨p, hs.settled ho⟩
  | unstake ctx =>
    obtain ⟨rfl, rfl⟩ := Prod.mk.inj (Option.some.inj hc)
    obtain ⟨_, p, _, _, hs⟩ := unstake_ok h
    exact ⟨p, hs.settled ho⟩
  | claimRewards ctx =>
    obtain ⟨rfl, rfl⟩ := Prod.mk.inj (Option.some.inj hc)
    obtain ⟨_, p, _, _, hs⟩ := claimRewards_ok h
    exact ⟨p, hs.settled ho⟩
  | _ => cases hc

/-- A settlement that succeeds succeeds where it finds the same and what it takes. -/
theorem exec_replay {c : Call} {p q : StakePool} {t : Settlement} (h : exec c w = .ok w') (hc : c.staker = some (A, u))
    (hs : SameFor A u w x) (hp : w.pools A = some p) (hq : x.pools A = some q)
    (ht : c.settlement (w.userStake u) (p.updated w.clock).accruedPerShare = some t)
    (hown : t.staked ≤ x.balance t.token) (hstake : t.returned ≤ x.balance (.stakeVault A))
    (hreward : t.paid ≤ x.balance (.rewardVault A)) (hfits : q.totalStaked + t.staked < 2 ^ 64)
    (htotal : t.returned ≤ q.totalStaked) : ∃ x', exec c x = .ok x' := by
  cases c with
  | stake ctx =>
    obtain ⟨rfl, rfl⟩ := Prod.mk.inj (Option.some.inj hc)
    cases ht
    exact stake_replay h hs hown (by rw [hq]; rintro _ ⟨⟩; exact hfits)
  | unstake ctx =>
    obtain ⟨rfl, rfl⟩ := Prod.mk.inj (Option.some.inj hc)
    cases ht
    exact unstake_replay h hs hstake (by rw [hp]; rintro _ ⟨⟩; exact hreward) (by rw [hq]; rintro _ ⟨⟩; exact htotal)
  | claimRewards ctx =>
    obtain ⟨rfl, rfl⟩ := Prod.mk.inj (Option.some.inj hc)
    cases ht
    exact claimRewards_replay h hs (by rw [hp]; rintro _ ⟨⟩; exact hreward)
  | _ => cases hc

end

/-! ## Two settlements -/

theorem SaleKept.trans {w w' w'' : World} (h : SaleKept w w') (h' : SaleKept w' w'') : SaleKept w w'' :=
  ⟨h'.clock.trans h.clock, h'.states.trans h.states, h'.vestings.trans h.vestings, h'.mints.trans h.mints,
    h'.lamports.trans h.lamports⟩

theorem SaleKept.symm {w w' : World} (h : SaleKept w w') : SaleKept w' w :=
  ⟨h.clock.symm, h.states.symm, h.vestings.symm, h.mints.symm, h.lamports.symm⟩

theorem SameAccounts.ext {f g : TokenAccounts} (h : SameAccounts f g)
    (hb : ∀ a, TokenAccounts.balance f a = TokenAccounts.balance g a) : f = g := by
  funext a
  cases ha : f a with
  | none =>
    have hsame := h a
    rw [ha] at hsame
    exact (Option.map_eq_none_iff.1 hsame).symm
  | some t =>
    obtain ⟨n, hn⟩ := h.found ha
    have hbal : t.amount = n := by
      have hsame := hb a
      rwa [TokenAccounts.balance_of ha, TokenAccounts.balance_of hn] at hsame
    rw [hn, ← hbal]

section
variable {A u v : Pubkey} {t s : Settlement} {w w' w'' x' x'' : World} {p q r : StakePool}

/-- The pool a settlement leaves is up to date. -/
theorem Settled.left (h : Settled A u t w w' p) : ∃ totalStaked, totalStaked + t.returned = p.totalStaked + t.staked ∧
    w'.pools A = some { p.updated w.clock with totalStaked } ∧
    updatePool { p.updated w.clock with totalStaked } w'.clock = .ok { p.updated w.clock with totalStaked } ∧
    StakePool.updated { p.updated w.clock with totalStaked } w'.clock = { p.updated w.clock with totalStaked } := by
  obtain ⟨total, htotal, hpools⟩ := h.pools
  refine ⟨total, htotal, by rw [hpools, Function.update_self], ?_⟩
  apply updatePool_current
  rw [h.kept.clock]
  exact le_max_right _ _

/-- A settlement of `v` changes nothing a settlement of `u` looks at. -/
theorem Settled.sameFor (h : Settled A v t w w' p) (huv : u ≠ v) : SameFor A u w w' ∧ SameFor A u w' w := by
  obtain ⟨total, -, hpool, hupdate, hupdated⟩ := h.left
  have hrec : w'.userStakes u = w.userStakes u := by rw [h.userStakes, Function.update_of_ne huv]
  constructor
  · refine ⟨h.kept.clock, h.kept.states, h.kept.mints, hrec, h.accounts.own, p, _, h.pool, hpool, ?_, ?_⟩
    · rw [hupdated]; exact hupdate
    · rw [hupdated]
  · refine ⟨h.kept.clock.symm, h.kept.states.symm, h.kept.mints.symm, hrec.symm, h.accounts.symm.own, _, p, hpool, h.pool,
      h.updated, ?_⟩
    rw [hupdated]

/-- The pool after two settlements at one moment. -/
theorem Settled.twice (h : Settled A u t w w' p) (h' : Settled A v s w' w'' q) :
    ∃ totalStaked, totalStaked + (t.returned + s.returned) = p.totalStaked + (t.staked + s.staked) ∧
      w''.pools = Function.update w.pools A (some { p.updated w.clock with totalStaked }) := by
  obtain ⟨total, htotal, hpool, -, hupdated⟩ := h.left
  obtain ⟨total', htotal', hpools'⟩ := h'.pools
  obtain ⟨_, -, hpools⟩ := h.pools
  rw [h'.pool] at hpool; cases hpool
  refine ⟨total', ?_, ?_⟩
  · simp only at htotal'
    omega
  · rw [hpools', hupdated, hpools, Function.update_idem]

theorem Settled.balance_other {a : Address} (h : Settled A u t w w' p) (ha : a ≠ t.token) (hs : a ≠ .stakeVault A)
    (hr : a ≠ .rewardVault A) : w'.balance a = w.balance a := by
  unfold World.balance
  rw [h.other a ha hs hr]

/-- The token accounts of different users are different. -/
theorem Settled.token_ne (huv : u ≠ v) (ht : Settled A u t w w' p)
    (hs : ∃ a, w.tokenAccounts s.token = some a ∧ a.owner = .key v) : t.token ≠ s.token := by
  intro he
  obtain ⟨a, ha, hau⟩ := ht.target
  obtain ⟨b, hb, hbv⟩ := hs
  rw [he, hb] at ha; cases ha
  rw [hau] at hbv
  exact huv (Address.key.inj hbv)

/-- Two settlements of different users leave the same in either order. -/
theorem Settled.commute (ho : Owned w.tokenAccounts) (huv : u ≠ v) (ht : Settled A u t w w' p)
    (hs : Settled A v s w' w'' q) (hs' : Settled A v s w x' p) (ht' : Settled A u t x' x'' r) :
    x''.pools = w''.pools ∧ x''.userStakes = w''.userStakes ∧ x''.tokenAccounts = w''.tokenAccounts ∧
      SaleKept w'' x'' := by
  have hts := ht.token_ne huv hs'.target
  have htS := ho.ne_source (isVault_stakeVault A) ht.target
  have htR := ho.ne_source (isVault_rewardVault A) ht.target
  have hsS := ho.ne_source (isVault_stakeVault A) hs'.target
  have hsR := ho.ne_source (isVault_rewardVault A) hs'.target
  refine ⟨?_, ?_, ?_, (ht.kept.trans hs.kept).symm.trans (hs'.kept.trans ht'.kept)⟩
  · obtain ⟨n, hn, hpools⟩ := ht.twice hs
    obtain ⟨m, hm, hpools'⟩ := hs'.twice ht'
    obtain rfl : n = m := by omega
    rw [hpools, hpools']
  · rw [ht'.userStakes, hs'.userStakes, hs.userStakes, ht.userStakes, Function.update_comm huv]
  · apply SameAccounts.ext ((hs'.accounts.trans ht'.accounts).symm.trans (ht.accounts.trans hs.accounts))
    intro a
    have hbal : x''.balance a = w''.balance a := by
      by_cases hat : a = t.token
      · subst hat
        have := ht.own
        have := hs.balance_other hts htS.symm htR.symm
        have := hs'.balance_other hts htS.symm htR.symm
        have := ht'.own
        omega
      by_cases has : a = s.token
      · subst has
        have := ht.balance_other hts.symm hsS.symm hsR.symm
        have := hs.own
        have := hs'.own
        have := ht'.balance_other hts.symm hsS.symm hsR.symm
        omega
      by_cases haS : a = .stakeVault A
      · subst haS
        have := ht.stakeVault
        have := hs.stakeVault
        have := hs'.stakeVault
        have := ht'.stakeVault
        omega
      by_cases haR : a = .rewardVault A
      · subst haR
        have := ht.rewardVault
        have := hs.rewardVault
        have := hs'.rewardVault
        have := ht'.rewardVault
        omega
      · rw [ht'.balance_other hat haS haR, hs'.balance_other has haS haR, hs.balance_other has haS haR,
          ht.balance_other hat haS haR]
    exact hbal

end

/-! ## Either order -/

/-- Where a settlement finds the same it is the same. -/
theorem SameFor.settlement {A u : Pubkey} {w x : World} {p q : StakePool} (h : SameFor A u w x) (c : Call)
    (hp : w.pools A = some p) (hq : x.pools A = some q) :
    c.settlement (x.userStake u) (q.updated x.clock).accruedPerShare =
      c.settlement (w.userStake u) (p.updated w.clock).accruedPerShare := by
  obtain ⟨p', q', hp', hq', -, hacc⟩ := h.pool
  rw [hp] at hp'; cases hp'
  rw [hq] at hq'; cases hq'
  rw [hacc, userStake_same h.record]

section
variable {ctx : InitializeStaking} {rate : ℕ} {w₁ w w' w'' : World} {tr : List Transition} {u v : Pubkey} {c d : Call}

/-- Settlements of two users at one moment that succeed in one order succeed in the other, and leave
the same pool, stake records and token accounts. -/
theorem poolRun_settlements_commute (h : PoolRun ctx rate w₁ tr w) (hsupply : SupplyBelow (2 ^ 64) w.tokenAccounts)
    (huv : u ≠ v) (hc : c.staker = some (ctx.state, u)) (hd : d.staker = some (ctx.state, v))
    (h₁ : exec c w = .ok w') (h₂ : exec d w' = .ok w'') :
    ∃ x' x'', exec d w = .ok x' ∧ exec c x' = .ok x'' ∧ x''.pools = w''.pools ∧ x''.userStakes = w''.userStakes ∧
      x''.tokenAccounts = w''.tokenAccounts ∧ SaleKept w'' x'' := by
  obtain ⟨p, hst⟩ := h.staking
  have ho := hst.owned
  obtain ⟨_, t, htc, ht⟩ := exec_settled ho h₁ hc
  obtain rfl := hst.found rfl ht.pool
  obtain ⟨q, s, hsc, hs⟩ := exec_settled (ht.accounts.owned ho) h₂ hd
  have hback := (ht.sameFor huv.symm).2
  -- the two users' accounts, and the stake vault
  have htarget : ∃ a, w.tokenAccounts s.token = some a ∧ a.owner = .key v := by
    obtain ⟨a, ha, hav⟩ := hs.target
    obtain ⟨n, hn⟩ := hback.accounts _ _ ha (.inr (.inr hav))
    exact ⟨_, hn, hav⟩
  have hts := ht.token_ne huv htarget
  have htS := ho.ne_source (isVault_stakeVault ctx.state) ht.target
  have hsS := ho.ne_source (isVault_stakeVault ctx.state) htarget
  have htR := ho.ne_source (isVault_rewardVault ctx.state) ht.target
  have hsR := ho.ne_source (isVault_rewardVault ctx.state) htarget
  -- the stake vault backs what both take out, and no total overflows
  have hbacked : p.totalStaked ≤ w.balance (.stakeVault ctx.state) := hst.books.total ▸ h.principalBacked
  have hpair : (w.userStake u).amount + (w.userStake v).amount ≤ p.totalStaked :=
    hst.books.total ▸ Custody.add_le_sum (fun u => (w.userStake u).amount) huv
  have hfits : w.balance (.stakeVault ctx.state) + w.balance t.token + w.balance s.token < 2 ^ 64 :=
    Custody.Below.triple hsupply htS hsS hts
  have hheld := ht.held
  have hheld' : s.returned ≤ (w.userStake v).amount := by
    rw [userStake_same hback.record]
    exact hs.held
  have hcovered := ht.covered
  have hcovered' : s.staked ≤ w.balance s.token := by
    rw [← ht.balance_other hts.symm hsS.symm hsR.symm]
    exact hs.covered
  have hreward := ht.rewardVault
  have hreward' := hs.rewardVault
  -- `d` goes first
  obtain ⟨x', hx'⟩ := exec_replay h₂ hd hback hs.pool ht.pool hsc hcovered' (by omega) (by omega) (by omega) (by omega)
  obtain ⟨_, s', hsc', hs'⟩ := exec_settled ho hx' hd
  obtain rfl := hst.found rfl hs'.pool
  rw [hback.settlement d hs.pool hst.pool, hsc] at hsc'; cases hsc'
  have hforth := (hs'.sameFor huv).1
  obtain ⟨total, htotal, hleft, -, -⟩ := hs'.left
  have hvault := hs'.stakeVault
  have hvault' := hs'.rewardVault
  have hown := hs'.balance_other hts htS.symm htR.symm
  -- then `c`
  obtain ⟨x'', hx''⟩ := exec_replay h₁ hc hforth ht.pool hleft htc (by omega) (by omega) (by omega) (by simp only; omega)
    (by simp only; omega)
  obtain ⟨r, t', htc', ht'⟩ := exec_settled (hs'.accounts.owned ho) hx'' hc
  rw [hforth.settlement c ht.pool ht'.pool, htc] at htc'; cases htc'
  exact ⟨x', x'', hx', hx'', ht.commute ho huv hs hs' ht'⟩

end

/-- Two users stake and earn a reward. -/
def sampleEarners : List Act := [sampleReward 100, sampleStake 2 10, sampleStake 3 20, .wait 40]

theorem poolRun_settlements_commute_sample :
    ∃ x' x'', exec (.claimRewards ⟨1, 3, 100, .ata (.key 3) 100⟩) (play (sampleOpened 2) sampleEarners) = .ok x' ∧
      exec (.unstake ⟨1, 2, 100, .ata (.key 2) 100⟩ 4) x' = .ok x'' ∧
      x''.pools = (play (play (play (sampleOpened 2) sampleEarners) [sampleUnstake 2 4]) [sampleClaim 3]).pools := by
  have hrun : PoolRun samplePool 2 (sampleOpened 2) (steps (sampleOpened 2) sampleEarners)
      (play (sampleOpened 2) sampleEarners) :=
    poolRun_play sampleWorld_genesis (by decide +kernel) (by decide) (by decide +kernel) (by decide +kernel)
      (by decide +kernel) (by decide +kernel)
  have hsupply : SupplyBelow (2 ^ 64) (play (sampleOpened 2) sampleEarners).tokenAccounts :=
    (steps_supplyBelow (by decide) (sampleOpened_supplyBelow 2)).1
  have hunstake : failure (play (sampleOpened 2) sampleEarners) (.unstake ⟨1, 2, 100, .ata (.key 2) 100⟩ 4) = none := by
    decide +kernel
  have hclaim : failure (play (play (sampleOpened 2) sampleEarners) [sampleUnstake 2 4])
      (.claimRewards ⟨1, 3, 100, .ata (.key 3) 100⟩) = none := by decide +kernel
  have huv : (2 : Pubkey) ≠ 3 := by decide
  obtain ⟨x', x'', hx', hx'', hpools, -⟩ := poolRun_settlements_commute hrun hsupply huv rfl rfl
    (exec_of_play hunstake) (exec_of_play hclaim)
  exact ⟨x', x'', hx', hx'', hpools⟩

end Presale

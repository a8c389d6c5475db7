/-
The end of a pool: everyone who has staked can take everything out at one moment, in any order, exactly
when the reward vault holds what is due to them together.
-/
import Presale.Stake.Commute
import Presale.Stake.Overflow
import Presale.Stake.ProRata
import Presale.Stake.Rewards
import Presale.System.Ranges
import Presale.System.Supply

namespace Presale

open World Checked

/-! ## An unstake that succeeds -/

/-- There is a token account of `mint` at `a`, and it is `owner`'s. -/
def HasAccount (w : World) (a : Address) (mint : Pubkey) (owner : Address) : Prop :=
  ∃ t ∈ w.tokenAccounts a, t.mint = mint ∧ t.owner = owner

instance (w : World) (a : Address) (mint : Pubkey) (owner : Address) : Decidable (HasAccount w a mint owner) :=
  match h : w.tokenAccounts a with
  | none => isFalse fun ⟨t, ht, _⟩ => by rw [h] at ht; cases ht
  | some t => decidable_of_iff (t.mint = mint ∧ t.owner = owner)
      ⟨fun hp => ⟨t, h, hp⟩, fun ⟨t', ht', hp⟩ => by rw [h] at ht'; cases ht'; exact hp⟩

/-- The reward of `u` in the pool of `A`, as an unstake pays it. -/
def World.due (w : World) (A u : Pubkey) : ℕ :=
  match w.pools A with
  | some p => (w.userStake u).pending (p.updated w.clock) % 2 ^ 64
  | none => 0

section
variable {w w' : World} {A u mint : Pubkey} {a owner : Address} {p : StakePool} {st : PresaleState} {m : Mint}

theorem HasAccount.same (h : HasAccount w a mint owner) (hs : SameAccounts w.tokenAccounts w'.tokenAccounts) :
    HasAccount w' a mint owner := by
  obtain ⟨t, ht, hmint, howner⟩ := h
  obtain ⟨n, hn⟩ := hs.found ht
  exact ⟨_, hn, hmint, howner⟩

theorem due_of (hp : w.pools A = some p) : w.due A u = (w.userStake u).pending (p.updated w.clock) % 2 ^ 64 := by
  unfold due
  rw [hp]

/-- The pool of `A` can settle any record: a hundred years and the highest rate, an accumulator no amount
overflows with, and stakes that the stake vault backs. -/
structure CanSettle (A : Pubkey) (w : World) (p : StakePool) : Prop where
  staking : Staking A w p
  years : w.clock ≤ p.lastUpdateTime + century
  rate : p.rewardRatePerSecond ≤ maxRewardRatePerSecond
  acc : (p.updated w.clock).accruedPerShare ≤ 2 ^ 64 + 1
  backed : p.totalStaked ≤ w.balance (.stakeVault A)
  total : IsU64 p.totalStaked

theorem CanSettle.amount (h : CanSettle A w p) (u : Pubkey) : IsU64 (w.userStake u).amount :=
  (h.staking.amount_le u).trans_lt h.total

theorem CanSettle.product (h : CanSettle A w p) {amount : ℕ} (hamount : IsU64 amount) :
    amount * (p.updated w.clock).accruedPerShare < 2 ^ 128 :=
  product_fits_iff.2 h.acc amount hamount

end

/-! ## Everyone leaves -/

/-- The unstake of all that `u` has staked in `w`, to the token account `token u`. -/
def InitializeStaking.exit (ctx : InitializeStaking) (token : Pubkey → Address) (w : World) (u : Pubkey) : Call :=
  .unstake ⟨ctx.state, u, ctx.mint, token u⟩ (w.userStake u).amount

/-- From `w` to `w'` each of `us` took out what they had staked and was paid what was due, and nobody
else anything. -/
structure Exited (A : Pubkey) (token : Pubkey → Address) (us : List Pubkey) (w w' : World) : Prop where
  left : ∀ u ∈ us, (w'.userStake u).amount = 0 ∧ (w'.userStake u).rewardDebt = 0
  received : ∀ u ∈ us, w'.balance (token u) = w.balance (token u) + (w.userStake u).amount + w.due A u
  others : ∀ u, u ∉ us → w'.userStake u = w.userStake u
  untouched : ∀ a, (∀ u ∈ us, a ≠ token u) → a ≠ .stakeVault A → a ≠ .rewardVault A → w'.balance a = w.balance a
  stakeVault : w'.balance (.stakeVault A) + (us.map fun u => (w.userStake u).amount).sum = w.balance (.stakeVault A)
  rewardVault : w'.balance (.rewardVault A) + (us.map (w.due A)).sum = w.balance (.rewardVault A)

section
variable {ctx : InitializeStaking} {u : Pubkey} {us : List Pubkey} {token : Pubkey → Address}
  {w₀ w w' w'' : World} {p : StakePool} {t : Settlement} {st : PresaleState}

theorem Exited.nil (A : Pubkey) (token : Pubkey → Address) (w : World) : Exited A token [] w w where
  left _ hu := absurd hu List.not_mem_nil
  received _ hu := absurd hu List.not_mem_nil
  others _ _ := rfl
  untouched _ _ _ _ := rfl
  stakeVault := rfl
  rewardVault := rfl

/-- A settlement leaves the stakes of others, and what is due to them. -/
theorem Settled.others {A v : Pubkey} (h : Settled A u t w w' p) (hv : v ≠ u) :
    w'.userStake v = w.userStake v ∧ w'.due A v = w.due A v := by
  obtain ⟨total, -, hpool, -, hupdated⟩ := h.left
  have hrec : w'.userStake v = w.userStake v := userStake_same (by rw [h.userStakes, Function.update_of_ne hv])
  refine ⟨hrec, ?_⟩
  rw [due_of hpool, due_of h.pool, hupdated, hrec]
  rfl

/-- One exit, and then the rest of the queue. -/
theorem Exited.cons (hs : Settled ctx.state u t w w' p)
    (ht : (ctx.exit token w₀ u).settlement (w.userStake u) (p.updated w.clock).accruedPerShare = some t)
    (hamount : (w₀.userStake u).amount = (w.userStake u).amount) (hu : u ∉ us)
    (hvaults : token u ≠ .stakeVault ctx.state ∧ token u ≠ .rewardVault ctx.state)
    (htokens : ∀ v ∈ us, token v ≠ token u ∧ token v ≠ .stakeVault ctx.state ∧ token v ≠ .rewardVault ctx.state)
    (h : Exited ctx.state token us w' w'') : Exited ctx.state token (u :: us) w w'' := by
  have hrec : w'.userStake u = t.record := userStake_of (by rw [hs.userStakes, Function.update_self])
  have hdue := due_of (u := u) hs.pool
  have hmem : ∀ v ∈ us, v ≠ u := by
    rintro v hv rfl
    exact hu hv
  have hown := hs.own
  have hstake := hs.stakeVault
  have hreward := hs.rewardVault
  cases ht
  simp only [hamount, Nat.sub_self, Nat.zero_mul, Nat.zero_div] at hrec hown hstake hreward
  have hpaid : ((w.userStake u).amount * (p.updated w.clock).accruedPerShare / precision - (w.userStake u).rewardDebt) %
      2 ^ 64 = w.due ctx.state u := hdue.symm
  rw [hpaid] at hown hreward
  have hself : w''.balance (token u) = w'.balance (token u) :=
    h.untouched _ (fun v hv => (htokens v hv).1.symm) hvaults.1 hvaults.2
  constructor
  · intro v hv
    rcases List.mem_cons.1 hv with rfl | hv
    · rw [h.others v hu, hrec]
      exact ⟨rfl, rfl⟩
    · exact h.left v hv
  · intro v hv
    rcases List.mem_cons.1 hv with rfl | hv
    · rw [hself]
      exact hown
    · obtain ⟨hstake, hdue⟩ := hs.others (hmem v hv)
      obtain ⟨hne, hS, hR⟩ := htokens v hv
      rw [h.received v hv, hstake, hdue, hs.balance_other hne hS hR]
  · intro v hv
    rw [h.others v (List.not_mem_of_not_mem_cons hv), (hs.others (List.ne_of_not_mem_cons hv)).1]
  · intro a ha hS hR
    rw [h.untouched a (fun v hv => ha v (List.mem_cons_of_mem _ hv)) hS hR,
      hs.balance_other (ha u List.mem_cons_self) hS hR]
  · have hrest := h.stakeVault
    have hsum : us.map (fun v => (w'.userStake v).amount) = us.map (fun v => (w.userStake v).amount) :=
      List.map_congr_left fun v hv => by rw [(hs.others (hmem v hv)).1]
    rw [hsum] at hrest
    rw [List.map_cons, List.sum_cons]
    omega
  · have hrest := h.rewardVault
    have hsum : us.map (w'.due ctx.state) = us.map (w.due ctx.state) :=
      List.map_congr_left fun v hv => (hs.others (hmem v hv)).2
    rw [hsum] at hrest
    rw [List.map_cons, List.sum_cons]
    omega

/-- The pool can settle and the sale lets stakers out, and the users `us` still have the stake they had in
`w₀`, and a token account each. -/
structure Exitable (ctx : InitializeStaking) (token : Pubkey → Address) (w₀ : World) (st : PresaleState)
    (us : List Pubkey) (w : World) : Prop where
  pool : ∃ p, CanSettle ctx.state w p
  state : w.states ctx.state = some st
  allowed : st.StakingAllowed w.clock
  mint : ∃ m, w.mints ctx.mint = some m
  stakeVault : HasAccount w (.stakeVault ctx.state) ctx.mint (.vaultAuthority ctx.state)
  rewardVault : HasAccount w (.rewardVault ctx.state) ctx.mint (.vaultAuthority ctx.state)
  nodup : us.Nodup
  amount : ∀ u ∈ us, (w₀.userStake u).amount = (w.userStake u).amount ∧ 0 < (w₀.userStake u).amount
  tokens : ∀ u ∈ us, HasAccount w (token u) ctx.mint (.key u)

/-- An unstake settles the record of its user, and the pool can settle the others after it. -/
theorem CanSettle.unstaked {c : Unstake} {x : ℕ} (h : CanSettle c.state w p) (hok : Presale.unstake c x w = .ok w') :
    ∃ t, Call.settlement (w.userStake c.user) (p.updated w.clock).accruedPerShare (.unstake c x) = some t ∧
      Settled c.state c.user t w w' p ∧ ∃ q, CanSettle c.state w' q := by
  have ho := h.staking.owned
  obtain ⟨st, p', s, paid, hu⟩ := unstake_ok hok
  obtain rfl := h.staking.found rfl hu.pool
  obtain ⟨t, ht, hs⟩ := hu.settled ho
  refine ⟨t, ht, hs, ?_⟩
  obtain ⟨total, htotal, hpool, -, hupdated⟩ := hs.left
  obtain ⟨q, hq⟩ := h.staking.step hu.frame (.unstake rfl hu)
  obtain rfl := hq.found rfl hpool
  have hvault := hs.stakeVault
  have hbacked := h.backed
  refine ⟨_, hq, ?_, h.rate, ?_, ?_, ?_⟩
  · rw [hs.kept.clock]
    have hmax : w.clock ≤ max p.lastUpdateTime w.clock := le_max_right _ _
    show w.clock ≤ max p.lastUpdateTime w.clock + century
    omega
  · rw [hupdated]
    exact h.acc
  · show total ≤ w'.balance (.stakeVault c.state)
    omega
  · cases ht
    have := h.total
    show total < 2 ^ 64
    unfold IsU64 at this
    simp only at htotal
    omega

/-- The first of the queue takes everything out, and the rest of it still can. -/
theorem Exitable.leave (h : Exitable ctx token w₀ st (u :: us) w) (hok : exec (ctx.exit token w₀ u) w = .ok w') :
    Exitable ctx token w₀ st us w' ∧ us.map (w'.due ctx.state) = us.map (w.due ctx.state) ∧
      w'.balance (.rewardVault ctx.state) + w.due ctx.state u = w.balance (.rewardVault ctx.state) ∧
      ∀ w'', Exited ctx.state token us w' w'' → Exited ctx.state token (u :: us) w w'' := by
  obtain ⟨p, hfits⟩ := h.pool
  obtain ⟨m, hm⟩ := h.mint
  obtain ⟨t, ht, hs, hfits'⟩ := hfits.unstaked hok
  obtain ⟨hu, hnodup⟩ := List.nodup_cons.1 h.nodup
  have hmem : ∀ v ∈ us, v ≠ u := by
    rintro v hv rfl
    exact hu hv
  -- whose a token account is tells it from the vaults and from those of others
  have hvaults : ∀ v ∈ u :: us, token v ≠ .stakeVault ctx.state ∧ token v ≠ .rewardVault ctx.state := by
    intro v hv
    obtain ⟨a, ha, -, howner⟩ := h.tokens v hv
    have ho := hfits.staking.owned
    exact ⟨(ho.ne_source (isVault_stakeVault _) ⟨a, ha, howner⟩).symm,
      (ho.ne_source (isVault_rewardVault _) ⟨a, ha, howner⟩).symm⟩
  have htokens : ∀ v ∈ us, token v ≠ token u := by
    intro v hv he
    obtain ⟨a, ha, -, hau⟩ := h.tokens u List.mem_cons_self
    obtain ⟨b, hb, -, hbv⟩ := h.tokens v (List.mem_cons_of_mem _ hv)
    rw [he] at hb
    obtain rfl := Option.some.inj (ha.symm.trans hb)
    exact hmem v hv (Address.key.inj (hbv.symm.trans hau))
  refine ⟨?_, List.map_congr_left fun v hv => (hs.others (hmem v hv)).2, ?_, ?_⟩
  · refine ⟨hfits', by rw [hs.kept.states]; exact h.state, by rw [hs.kept.clock]; exact h.allowed,
      ⟨m, by rw [hs.kept.mints]; exact hm⟩, h.stakeVault.same hs.accounts, h.rewardVault.same hs.accounts, hnodup, ?_,
      fun v hv => (h.tokens v (List.mem_cons_of_mem _ hv)).same hs.accounts⟩
    intro v hv
    rw [(hs.others (hmem v hv)).1]
    exact h.amount v (List.mem_cons_of_mem _ hv)
  · have hreward := hs.rewardVault
    rw [due_of hfits.staking.pool]
    cases ht
    exact hreward
  · intro w'' hrest
    exact hrest.cons hs ht (h.amount u List.mem_cons_self).1 hu (hvaults u List.mem_cons_self)
      fun v hv => ⟨htokens v hv, hvaults v (List.mem_cons_of_mem _ hv)⟩

/-- Whoever is in a queue that is served has left with everything. -/
theorem Exitable.paid (h : Exitable ctx token w₀ st us w)
    (hturns : turnsOut w (us.map (ctx.exit token w₀)) = us.map fun u => .ok (ctx.exit token w₀ u)) :
    Exited ctx.state token us w (leadsTo w (us.map (ctx.exit token w₀))) := by
  refine served_pays (J := Exitable ctx token w₀ st) (Exited.nil _ _) ?_ h hturns
  intro u us w w' h hok
  obtain ⟨hnext, -, -, hall⟩ := h.leave hok
  exact ⟨hnext, hall⟩

end

/-! ## At any moment of a pool -/

section
variable {ctx : InitializeStaking} {rate : ℕ} {w₁ w : World} {tr : List Transition} {st : PresaleState} {p : StakePool}
  {us : List Pubkey} {token : Pubkey → Address}

/-- The vaults of a pool stay, and so does its mint. -/
theorem PoolRun.vaults (h : PoolRun ctx rate w₁ tr w) : (∃ m, w.mints ctx.mint = some m) ∧
    HasAccount w (.stakeVault ctx.state) ctx.mint (.vaultAuthority ctx.state) ∧
    HasAccount w (.rewardVault ctx.state) ctx.mint (.vaultAuthority ctx.state) := by
  obtain ⟨w₀, pre, wₒ, h0, hpre, honly, hstep⟩ := h.opened
  cases hstep with
  | ok _ hok =>
    obtain ⟨st, ho⟩ := initializeStaking_ok hok
    obtain ⟨m, hm⟩ := initializeStaking_mint hok
    obtain ⟨⟨m', hm', -⟩, -⟩ := h.run.mints (k := ctx.mint) (m := m) (by rw [ho.kept.mints]; exact hm)
    refine ⟨⟨m', hm'⟩, ?_⟩
    refine h.induct (P := fun _ => True) (J := fun _ w => HasAccount w (.stakeVault ctx.state) ctx.mint
      (.vaultAuthority ctx.state) ∧ HasAccount w (.rewardVault ctx.state) ctx.mint (.vaultAuthority ctx.state))
      (fun _ _ => trivial) ?_ ?_
    · constructor
      · exact ⟨_, by rw [ho.tokenAccounts, Function.update_of_ne (by simp), Function.update_self]; rfl, rfl, rfl⟩
      · exact ⟨_, by rw [ho.tokenAccounts, Function.update_self]; rfl, rfl, rfl⟩
    · rintro tr w p l w' hst hstep - - ⟨⟨v, hv, hvault⟩, r, hr, hreward⟩
      have hevolves := (hstep.frame hst.owned).evolves
      obtain ⟨n, hn⟩ := hevolves.kept _ v (isVault_stakeVault _) hv
      obtain ⟨k, hk⟩ := hevolves.kept _ r (isVault_rewardVault _) hr
      exact ⟨⟨_, hn, hvault⟩, _, hk, hreward⟩

/-- Where the rewards are covered the vault holds what is due to any queue. -/
theorem RewardsCovered.due {A : Pubkey} (h : RewardsCovered A w p) (hst : Staking A w p) (hnodup : us.Nodup) :
    (us.map (w.due A)).sum ≤ w.balance (.rewardVault A) := by
  have hnow := h.updated hst.books w.clock
  have hcovers : Custody.Backed (w.due A) (w.balance (.rewardVault A)) := by
    refine (Finset.sum_le_sum fun u _ => ?_).trans ((Nat.le_add_right _ _).trans (Share.Solvent.covers hnow precision_pos))
    rw [due_of hst.pool]
    exact Nat.mod_le _ _
  exact hcovers.queue hnodup

end

end Presale

/-
The books of one presale: its counters against its stages and against the vesting records, kept by
every purchase, claim, refund and flag, and so in every state of every run of the presale.
-/
import Presale.Program.Script
import Presale.Sale.Walk
import Presale.Steps.Sale

namespace Presale

open World Finset

/-! ## The books -/

/-- What never changes after the launch. -/
def PresaleState.config (st : PresaleState) : PresaleState :=
  { st with
    tokensSold := 0, totalRaisedLamports := 0, totalReferralBonuses := 0, isActive := true, isPaused := false,
    stages := [], currentStageIndex := 0, adminActionsLockedUntil := 0 }

/-- States with one configuration agree on what it holds. -/
theorem config_congr {α : Type} {st st₀ : PresaleState} (h : st.config = st₀.config) (g : PresaleState → α)
    (hg : ∀ s, g s = g s.config) : g st = g st₀ := by
  rw [hg st, h, ← hg st₀]

/-- The state `st` of a presale launched as `st₀` agrees with the vesting records `f`. -/
structure Books (st₀ st : PresaleState) (f : Pubkey → UserVesting) : Prop where
  config : st.config = st₀.config
  sold : st.tokensSold = ∑ u, (f u).totalLocked
  grown : StagesGrown st₀.stages st.stages
  stages : soldInStages st.stages = soldInStages st₀.stages + st.tokensSold
  hardCap : st.totalRaisedLamports ≤ st.hardCapLamports
  walletCap : ∀ u, (f u).contributedLamports ≤ st.maxContributionLamports
  bonuses : 10000 * st.totalReferralBonuses ≤ st.referralBonusBps * st.tokensSold
  vestsFromEnd : ∀ u, 0 < (f u).totalLocked → (f u).startTime = st.endTime
  claimed : ∀ u, (f u).alreadyClaimed ≤ (f u).totalLocked

section
variable {st₀ st : PresaleState} {f : Pubkey → UserVesting} {w w' : World}

theorem Books.endTime (h : Books st₀ st f) : st.endTime = st₀.endTime := config_congr h.config _ fun _ => rfl

theorem Books.softCap (h : Books st₀ st f) : st.softCapLamports = st₀.softCapLamports :=
  config_congr h.config _ fun _ => rfl

theorem Books.tokensForSale (h : Books st₀ st f) : st.tokensForSale = st₀.tokensForSale :=
  config_congr h.config _ fun _ => rfl

/-- A property of all records survives a change of one record that has it. -/
theorem forall_record {p : UserVesting → Prop} {u : Pubkey} {v : UserVesting} (hf : ∀ x, p (f x)) (hv : p v) :
    ∀ x, p (Function.update f u v x) := by
  intro x
  by_cases hx : x = u
  · subst hx; simpa using hv
  · simpa [Function.update_of_ne hx] using hf x

/-- A presale opens with its books in order. -/
theorem Books.open (h0 : ∀ u, f u = {}) (hsold : st.tokensSold = 0) (hraised : st.totalRaisedLamports = 0)
    (hbonus : st.totalReferralBonuses = 0) : Books st st f where
  config := rfl
  sold := by simp [h0, hsold]
  grown := .refl _
  stages := by rw [hsold]; rfl
  hardCap := by rw [hraised]; exact Nat.zero_le _
  walletCap u := by rw [h0]; exact Nat.zero_le _
  bonuses := by rw [hbonus]; exact Nat.zero_le _
  vestsFromEnd u hu := by rw [h0] at hu; exact absurd hu (lt_irrefl 0)
  claimed u := by rw [h0]

theorem bonus_le (st : PresaleState) (tokens : ℕ) (referrer : Option Address) :
    10000 * st.bonus tokens referrer ≤ st.referralBonusBps * tokens := by
  unfold PresaleState.bonus
  split
  · exact Nat.zero_le _
  · rw [Nat.mul_comm st.referralBonusBps]
    exact Nat.mul_div_le _ _

theorem Books.buy {ctx : BuyTokens} {solAmount : ℕ} {referrer : Option Address} {m : Mint} {wk : Walk}
    {solUsed bonus : ℕ} (h : Books st₀ st w.vesting) (hb : Bought ctx solAmount referrer w w' st m wk solUsed bonus) :
    Books st₀ (st.bought wk solUsed bonus) w'.vesting := by
  have hwalk : Walk.From st₀.stages (st.walkFrom solAmount) wk := Walk.From.run h.grown hb.walk
  rw [vesting_update hb.vestings]
  refine ⟨h.config, ?_, hwalk.grown, ?_, hb.hardCap, ?_, ?_, ?_, ?_⟩
  · have := Custody.sum_field (·.totalLocked) w.vesting ctx.buyer
      ((w.vesting ctx.buyer).bought ctx.buyer st.endTime wk.tokens solUsed)
    have := h.sold
    simp only [UserVesting.bought, PresaleState.bought] at this ⊢
    simp only [UserVesting.bought] at *
    omega
  · have := hwalk.sold
    have := h.stages
    simp only [PresaleState.walkFrom, PresaleState.bought] at *
    omega
  · exact forall_record (p := fun v => v.contributedLamports ≤ st.maxContributionLamports) h.walletCap hb.walletCap
  · have hle := bonus_le st wk.tokens referrer
    rw [← hb.bonusEq] at hle
    have := h.bonuses
    simp only [PresaleState.bought, Nat.mul_add]
    omega
  · refine forall_record (p := fun v => 0 < v.totalLocked → v.startTime = st.endTime) h.vestsFromEnd ?_
    intro _
    simp only [UserVesting.bought]
    split
    · rfl
    · exact h.vestsFromEnd _ (by omega)
  · refine forall_record (p := fun v => v.alreadyClaimed ≤ v.totalLocked) h.claimed ?_
    exact (h.claimed _).trans (Nat.le_add_right _ _)

theorem UserVesting.vestedAt_le (v : UserVesting) (st : PresaleState) (now : ℤ) : v.vestedAt st now ≤ v.totalLocked :=
  Schedule.due_le _ _ _

theorem Books.claim {ctx : ClaimVested} {v : UserVesting} {paid : ℕ} (h : Books st₀ st w.vesting)
    (hc : Claimed ctx w w' st v paid) : Books st₀ st w'.vesting := by
  have hv := vesting_of hc.vesting
  have hsum := Custody.sum_field (·.totalLocked) w.vesting ctx.user { v with alreadyClaimed := v.alreadyClaimed + paid }
  rw [vesting_update hc.vestings]
  refine ⟨h.config, ?_, h.grown, h.stages, h.hardCap, ?_, h.bonuses, ?_, ?_⟩
  · have := h.sold
    simp only [hv] at hsum
    omega
  · exact forall_record (p := fun v => v.contributedLamports ≤ st.maxContributionLamports) h.walletCap
      (hv ▸ h.walletCap ctx.user)
  · exact forall_record (p := fun v => 0 < v.totalLocked → v.startTime = st.endTime) h.vestsFromEnd
      (hv ▸ h.vestsFromEnd ctx.user)
  · refine forall_record (p := fun v => v.alreadyClaimed ≤ v.totalLocked) h.claimed ?_
    have := v.vestedAt_le st w.clock
    have := hc.claimed
    have := hc.paidEq
    simp only
    omega

theorem Books.refund {ctx : ClaimRefund} {v : UserVesting} (h : Books st₀ st w.vesting)
    (hr : Refunded ctx w w' st v) : Books st₀ st w'.vesting := by
  have hv := vesting_of hr.vesting
  have hsum := Custody.sum_field (·.totalLocked) w.vesting ctx.user { v with contributedLamports := 0 }
  rw [vesting_update hr.vestings]
  refine ⟨h.config, ?_, h.grown, h.stages, h.hardCap, ?_, h.bonuses, ?_, ?_⟩
  · have := h.sold
    simp only [hv] at hsum
    omega
  · exact forall_record (p := fun v => v.contributedLamports ≤ st.maxContributionLamports) h.walletCap
      (Nat.zero_le _)
  · exact forall_record (p := fun v => 0 < v.totalLocked → v.startTime = st.endTime) h.vestsFromEnd
      (hv ▸ h.vestsFromEnd ctx.user)
  · exact forall_record (p := fun v => v.alreadyClaimed ≤ v.totalLocked) h.claimed (hv ▸ h.claimed ctx.user)

theorem Books.withFlags {active paused : Bool} {lock : ℤ} (h : Books st₀ st f) :
    Books st₀ (st.withFlags active paused lock) f :=
  ⟨h.config, h.sold, h.grown, h.stages, h.hardCap, h.walletCap, h.bonuses, h.vestsFromEnd, h.claimed⟩

/-- No more is sold than was for sale, when the stages add up to it. -/
theorem Books.sold_le (h : Books st₀ st f) (hs : (st₀.stages.map (·.tokensAvailable)).sum = st₀.tokensForSale) :
    st.tokensSold ≤ st.tokensForSale := by
  have := h.grown.sold_le
  have := h.stages
  have := h.tokensForSale
  omega

end

/-! ## Runs of a presale -/

/-- The presale of `ctx.admin` is launched and no other presale ever writes a vesting record: the
presale starts in `w₁` and the steps `tr` lead to `w`. -/
structure SaleRun (ctx : InitializePresale) (args : InitializePresaleArgs) (w₁ : World) (tr : List Transition)
    (w : World) : Prop where
  launch : ∃ w₀ pre wₗ, Genesis w₀ ∧ Run w₀ pre wₗ ∧ (∀ x ∈ pre, x.label.OnlySale ctx.admin) ∧
    Step wₗ (.ok (.initializePresale ctx args)) w₁
  run : Run w₁ tr w
  only : ∀ x ∈ tr, x.label.OnlySale ctx.admin

/-- The presale is there, its books are in order, and so are the vaults. -/
structure Open (ctx : InitializePresale) (args : InitializePresaleArgs) (w : World) (st : PresaleState) : Prop where
  state : w.states ctx.admin = some st
  books : Books (args.toState ctx) st w.vesting
  owned : Owned w.tokenAccounts
  vault : ∃ t, w.tokenAccounts (.tokenVault ctx.admin) = some t ∧ t.mint = ctx.mint ∧
    t.owner = .vaultAuthority ctx.admin

section
variable {ctx : InitializePresale} {args : InitializePresaleArgs} {w₁ w w' : World} {tr : List Transition}

theorem Open.endTime {st : PresaleState} (h : Open ctx args w st) : st.endTime = args.endTime := h.books.endTime

theorem Open.startTime {st : PresaleState} (h : Open ctx args w st) : st.startTime = args.startTime :=
  config_congr h.books.config (·.startTime) fun _ => rfl

/-- The schedule is that of the launch. -/
theorem Open.schedule {st : PresaleState} (h : Open ctx args w st) :
    st.vestingCliff = args.vestingCliff ∧ st.vestingDuration = args.vestingDuration :=
  ⟨config_congr h.books.config (·.vestingCliff) fun _ => rfl,
    config_congr h.books.config (·.vestingDuration) fun _ => rfl⟩

/-- Before the launch nobody holds a vesting record. -/
theorem no_vesting_before {A : Pubkey} {w₀ : World} (h0 : Genesis w₀) (h : Run w₀ tr w)
    (honly : ∀ x ∈ tr, x.label.OnlySale A) (hA : w.states A = none) : ∀ u, w.vestings u = none := by
  refine (Runs.Run.invariant (I := fun w => Owned w.tokenAccounts ∧ (w.states A = none → ∀ u, w.vestings u = none))
    ⟨h0.owned, fun _ => h0.vestings⟩ ?_ h honly).2 hA
  rintro s l t ⟨ho, hnone⟩ hs hl
  refine ⟨(hs.frame ho).evolves.owned ho, ?_⟩
  intro ht
  -- a presale that is there stays, and only a presale that is there sells, pays or refunds
  cases hs.sale ho hl with
  | launch hA hl => rw [hl.states, hA] at ht; simp at ht
  | buy hA hb => rw [hb.states, hA] at ht; simp at ht
  | claim hA hc => rw [hc.states, ← hA, hc.state] at ht; cases ht
  | refund hA hr => rw [hr.states, ← hA, hr.state] at ht; cases ht
  | flags _ hf => rw [hf.states] at ht; simp at ht
  | withdrawFunds hA hw => rw [hw.states, ← hA, hw.state] at ht; cases ht
  | withdrawUnsold hA hw => rw [hw.states, ← hA, hw.state] at ht; cases ht
  | quiet _ hq =>
    rw [hq.vestings]
    exact hnone (hq.state ▸ ht)

theorem SaleRun.launched (h : SaleRun ctx args w₁ tr w) :
    (∃ wₗ, Launched ctx args wₗ w₁) ∧ Open ctx args w₁ (args.toState ctx) ∧ ∀ u, w₁.vesting u = {} := by
  obtain ⟨w₀, pre, wₗ, h0, hpre, honly, hstep⟩ := h.launch
  have hown := hpre.owned h0.owned
  have hown₁ := (hstep.frame hown).evolves.owned hown
  cases hstep with
  | ok _ hok =>
    have hl := initializePresale_ok hok
    have hnone := no_vesting_before h0 hpre honly hl.fresh
    have hzero : ∀ u, w₁.vesting u = {} := by
      intro u
      unfold vesting
      rw [hl.vestings, hnone u]
      rfl
    exact ⟨⟨wₗ, hl⟩, ⟨by rw [hl.states]; simp, .open hzero rfl rfl rfl, hown₁,
      ⟨_, by rw [hl.tokenAccounts]; exact Function.update_self _ _ _, rfl, rfl⟩⟩, hzero⟩

/-- A step keeps the presale open. -/
theorem Open.step {st : PresaleState} {l : Label} (h : Open ctx args w st) (hf : Frame w l w')
    (hs : SaleStep ctx.admin w l w') : ∃ st', Open ctx args w' st' := by
  have hown := hf.evolves.owned h.owned
  have hvault : ∃ t, w'.tokenAccounts (.tokenVault ctx.admin) = some t ∧ t.mint = ctx.mint ∧
      t.owner = .vaultAuthority ctx.admin := by
    obtain ⟨t, ht, hm, ho⟩ := h.vault
    obtain ⟨n, hn⟩ := hf.evolves.kept _ t (isVault_tokenVault _) ht
    exact ⟨_, hn, hm, ho⟩
  have hst := h.state
  cases hs with
  | launch hA hl => rw [← hA, hl.fresh] at hst; cases hst
  | buy hA hb =>
    rw [← hA, hb.state] at hst; cases hst
    exact ⟨_, by rw [hb.states, hA, Function.update_self], h.books.buy hb, hown, hvault⟩
  | claim hA hc =>
    rw [← hA, hc.state] at hst; cases hst
    exact ⟨_, by rw [hc.states]; exact h.state, h.books.claim hc, hown, hvault⟩
  | refund hA hr =>
    rw [← hA, hr.state] at hst; cases hst
    exact ⟨_, by rw [hr.states]; exact h.state, h.books.refund hr, hown, hvault⟩
  | flags _ hfl =>
    rw [hfl.state] at hst; cases hst
    refine ⟨_, by rw [hfl.states, Function.update_self], ?_, hown, hvault⟩
    rw [vesting_congr hfl.vestings]
    exact h.books.withFlags
  | withdrawFunds hA hw =>
    refine ⟨st, by rw [hw.states]; exact h.state, ?_, hown, hvault⟩
    rw [vesting_congr hw.vestings]
    exact h.books
  | withdrawUnsold hA hw =>
    refine ⟨st, by rw [hw.states]; exact h.state, ?_, hown, hvault⟩
    rw [vesting_congr hw.vestings]
    exact h.books
  | quiet _ hq =>
    refine ⟨st, by rw [hq.state]; exact h.state, ?_, hown, hvault⟩
    rw [vesting_congr hq.vestings]
    exact h.books

/-- Induction over the steps of an open presale. -/
theorem SaleRun.induct {P : Transition → Prop} {J : List Transition → World → Prop} (h : SaleRun ctx args w₁ tr w)
    (hP : ∀ x ∈ tr, P x) (h0 : J [] w₁)
    (hs : ∀ tr w st l w', Open ctx args w st → Step w l w' → SaleStep ctx.admin w l w' → P ⟨w, l, w'⟩ → J tr w →
      J (tr ++ [⟨w, l, w'⟩]) w') : J tr w := by
  refine (Runs.Run.induct (P := fun x => x.label.OnlySale ctx.admin ∧ P x)
    (J := fun tr w => (∃ st, Open ctx args w st) ∧ J tr w) ⟨⟨_, h.launched.2.1⟩, h0⟩ ?_ h.run
    fun x hx => ⟨h.only x hx, hP x hx⟩).2
  rintro tr s l t - ⟨⟨st, hopen⟩, hJ⟩ hstep ⟨honly, hp⟩
  have hsale := hstep.sale hopen.owned honly
  exact ⟨hopen.step (hstep.frame hopen.owned) hsale, hs tr s st l t hopen hstep hsale hp hJ⟩

/-- What the steps after the end of the sale keep holds after all of them. -/
theorem Open.after_end {P : Transition → Prop} {I : World → Prop} {st : PresaleState} (ho : Open ctx args w st)
    (hrun : Run w tr w') (honly : ∀ x ∈ tr, x.label.OnlySale ctx.admin) (hP : ∀ x ∈ tr, P x)
    (hended : args.endTime < w.clock) (h0 : I w)
    (hs : ∀ s st l t, Open ctx args s st → args.endTime < s.clock → Step s l t → SaleStep ctx.admin s l t →
      P ⟨s, l, t⟩ → I s → I t) : I w' := by
  refine (Runs.Run.invariant (P := fun x => x.label.OnlySale ctx.admin ∧ P x)
    (I := fun s => ((∃ st, Open ctx args s st) ∧ args.endTime < s.clock) ∧ I s) ⟨⟨⟨st, ho⟩, hended⟩, h0⟩ ?_ hrun
    fun x hx => ⟨honly x hx, hP x hx⟩).2
  rintro s l t ⟨⟨⟨st, ho⟩, hend⟩, hI⟩ hstep ⟨hl, hp⟩
  have hsale := hstep.sale ho.owned hl
  have hframe := hstep.frame ho.owned
  exact ⟨⟨ho.step hframe hsale, lt_of_lt_of_le hend hframe.clock⟩, hs s st l t ho hend hstep hsale hp hI⟩

/-- The presale is open in every state of its runs. -/
theorem SaleRun.open (h : SaleRun ctx args w₁ tr w) : ∃ st, Open ctx args w st :=
  h.induct (P := fun _ => True) (J := fun _ w => ∃ st, Open ctx args w st) (fun _ _ => trivial) ⟨_, h.launched.2.1⟩
    fun _ _ _ _ _ hopen hstep hsale _ _ => hopen.step (hstep.frame hopen.owned) hsale

theorem SaleRun.accepted (h : SaleRun ctx args w₁ tr w) : args.Accepted w₁.clock := by
  obtain ⟨⟨wₗ, hl⟩, -⟩ := h.launched
  rw [hl.clock]
  exact hl.accepted

/-- What has vested is what the schedule of the launch has released. -/
theorem Open.vestedAt {st : PresaleState} (h : Open ctx args w st) (v : UserVesting) (now : ℤ) :
    v.vestedAt st now = v.vestedAt (args.toState ctx) now := by
  obtain ⟨hcliff, hduration⟩ := h.schedule
  unfold UserVesting.vestedAt
  rw [hcliff, hduration]
  rfl

/-- What was bought vests from the end of the sale. -/
theorem Open.vestedAt_end {st : PresaleState} (h : Open ctx args w st) {u : Pubkey} (hu : 0 < (w.vesting u).totalLocked)
    (now : ℤ) : (w.vesting u).vestedAt st now = Schedule.due (w.vesting u).totalLocked args.vestingDuration.toNat
      (now - (args.endTime + args.vestingCliff)).toNat := by
  rw [h.vestedAt]
  unfold UserVesting.vestedAt
  rw [h.books.vestsFromEnd u hu, h.endTime]
  rfl

/-- A claim pays only after the end of the sale and the cliff: what was bought vests from there. -/
theorem Open.claim_vested {st : PresaleState} {c : ClaimVested} {v : UserVesting} {paid : ℕ} {now : ℤ}
    (ho : Open ctx args w st) (ha : args.Accepted now) (hc : Claimed c w w' st v paid) :
    args.endTime + args.vestingCliff < w.clock := by
  have hpos := hc.pos
  have hpaid := hc.paidEq
  have hrec := vesting_of hc.vesting
  rcases Nat.eq_zero_or_pos v.totalLocked with h0 | hlocked
  · have := v.vestedAt_le st w.clock
    omega
  · have hvested := ho.vestedAt_end (u := c.user) (by rw [hrec]; exact hlocked) w.clock
    rw [hrec] at hvested
    by_contra hlt
    -- nothing has vested by then
    have hzero : v.vestedAt st w.clock = 0 := by
      have := ha.duration
      have helapsed : (w.clock - (args.endTime + args.vestingCliff)).toNat = 0 := by omega
      rw [hvested, helapsed]
      exact Schedule.due_zero _ (by omega)
    omega

theorem Open.claim_ended {st : PresaleState} {c : ClaimVested} {v : UserVesting} {paid : ℕ} {now : ℤ}
    (ho : Open ctx args w st) (ha : args.Accepted now) (hc : Claimed c w w' st v paid) : args.endTime < w.clock := by
  have := ho.claim_vested ha hc
  have := ha.cliff.1
  omega

/-- A run of the presale goes on with any of its steps. -/
theorem SaleRun.append {tr' : List Transition} (h : SaleRun ctx args w₁ tr w) (h' : Run w tr' w')
    (honly : ∀ x ∈ tr', x.label.OnlySale ctx.admin) : SaleRun ctx args w₁ (tr ++ tr') w' := by
  refine ⟨h.launch, h.run.append h', ?_⟩
  intro x hx
  rcases List.mem_append.1 hx with hx | hx
  · exact h.only x hx
  · exact honly x hx

/-- A script played after a launch is a run of the presale. -/
theorem saleRun_play {w₀ : World} {acts : List Act} (h0 : Genesis w₀) (hargs : args.InRange)
    (hok : (play w₀ [.call (.initializePresale ctx args)]).states ctx.admin ≠ none)
    (hplay : Playable (play w₀ [.call (.initializePresale ctx args)]) acts)
    (honly : ∀ x ∈ steps (play w₀ [.call (.initializePresale ctx args)]) acts, x.label.OnlySale ctx.admin) :
    SaleRun ctx args (play w₀ [.call (.initializePresale ctx args)])
      (steps (play w₀ [.call (.initializePresale ctx args)]) acts)
      (play (play w₀ [.call (.initializePresale ctx args)]) acts) := by
  refine ⟨⟨w₀, [], w₀, h0, .nil, fun x hx => absurd hx List.not_mem_nil, ?_⟩, play_run hplay, honly⟩
  simp only [play, Act.perform] at hok ⊢
  rcases he : exec (.initializePresale ctx args) w₀ with e | w'
  · rw [he] at hok
    exact absurd (h0.states ctx.admin) hok
  · exact .ok hargs he

end

end Presale

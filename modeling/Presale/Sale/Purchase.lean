/-
When a purchase fails. The walk through the stages buys what the lamports buy of the stages' offers,
and it fails only where the lamports do not fit 64 bits when counted in base units. From there every
error of a purchase is decided by what it finds: that all stages are sold out is never reported, and
an overflow is, also for amounts within the caps.
-/
import Presale.Sale.Books
import Presale.Sale.Charges
import Presale.Sale.Order

namespace Presale

open World Checked

/-! ## The walk against the offers -/

/-- What a stage offers: its price and what it has left. -/
def PresaleStage.offer (stage : PresaleStage) : ℕ × ℕ :=
  (stage.pricePerToken, stage.tokensAvailable - stage.tokensSoldInStage)

/-- What the walk has before it. -/
def Walk.offers (s : Walk) : List (ℕ × ℕ) := (s.stages.drop s.idx).map PresaleStage.offer

section
variable {tokenUnit : ℕ} {s s' t : Walk} {stage : PresaleStage}

theorem Walk.offers_current (h : s.stages[s.idx]? = some stage) :
    s.offers = stage.offer :: (s.stages.drop (s.idx + 1)).map PresaleStage.offer := by
  unfold Walk.offers
  rw [drop_current h]
  rfl

/-- A purchase leaves the rest of its stage's offer before the walk, if there is one. -/
theorem BuyPass.offers {bought cost : ℕ} (h : BuyPass tokenUnit s s' stage bought cost) (r : ℕ) :
    Price.fillAll tokenUnit s'.offers r = Price.fillAll tokenUnit
      ((stage.pricePerToken, stage.tokensAvailable - stage.tokensSoldInStage - bought) ::
        (s.stages.drop (s.idx + 1)).map PresaleStage.offer) r := by
  have hdrop : s'.stages.drop (s.idx + 1) = s.stages.drop (s.idx + 1) := by
    rw [h.next]
    exact List.drop_set_of_lt (Nat.lt_succ_self _)
  by_cases hfull : stage.tokensAvailable ≤ stage.tokensSoldInStage + bought
  · have hidx : s'.idx = s.idx + 1 := by rw [h.next]; exact if_pos hfull
    have hnothing : stage.tokensAvailable - stage.tokensSoldInStage - bought = 0 := by omega
    rw [hnothing, Price.fillAll_skip, ← hdrop, ← hidx]
    rfl
  · obtain ⟨hidx, hcur⟩ := h.stays (by omega)
    rw [Walk.offers_current hcur, hidx, hdrop, PresaleStage.offer, Nat.sub_sub]

/-- A successful walk buys what its lamports buy of the offers before it. -/
theorem stageWalk_fills (h : (stageWalk tokenUnit).run s = .ok t) :
    t.tokens = s.tokens + (Price.fillAll tokenUnit s.offers s.remainingSol).1 ∧
      t.remainingSol = (Price.fillAll tokenUnit s.offers s.remainingSol).2 := by
  refine (stageWalk tokenUnit).run_induction (P := fun s t =>
    t.tokens = s.tokens + (Price.fillAll tokenUnit s.offers s.remainingSol).1 ∧
      t.remainingSol = (Price.fillAll tokenUnit s.offers s.remainingSol).2) ?_ ?_ h
  · intro s t hexit
    have hnone : Price.fillAll tokenUnit s.offers s.remainingSol = (0, s.remainingSol) := by
      obtain ⟨-, hzero | hend | ⟨stage, hcur, hleft, haff⟩⟩ := stagePass_inr hexit
      · rw [hzero]
        exact Price.fillAll_zero _ _
      · have hdrop : s.offers = [] := by
          unfold Walk.offers
          rw [List.drop_eq_nil_iff.2 (List.getElem?_eq_none_iff.1 hend)]
          rfl
        rw [hdrop]
        rfl
      · rw [Walk.offers_current hcur]
        exact Price.fillAll_stop haff (by omega)
    rw [hnone, (stagePass_inr hexit).1]
    exact ⟨rfl, rfl⟩
  · intro s s' t hpass _ ih
    rcases stagePass_inl hpass with ⟨stage, hcur, hsold, rfl⟩ | ⟨stage, bought, cost, hb⟩
    · have hskip : Price.fillAll tokenUnit s.offers s.remainingSol =
          Price.fillAll tokenUnit (Walk.offers { s with idx := s.idx + 1 }) s.remainingSol := by
        rw [Walk.offers_current hcur, PresaleStage.offer, hsold, Nat.sub_self]
        exact Price.fillAll_skip _ _ _ _
      rw [hskip]
      exact ih
    · have hbuy : Price.fillAll tokenUnit (stage.offer :: (s.stages.drop (s.idx + 1)).map PresaleStage.offer)
          s.remainingSol = _ := Price.fillAll_buy hb.boughtEq hb.bought_pos
      have hcost : cost = Price.cost tokenUnit stage.pricePerToken bought := hb.costEq
      obtain ⟨htokens, hleft⟩ := ih
      have hrest : s'.remainingSol = s.remainingSol - cost := by rw [hb.next]
      rw [hb.offers, hrest, hcost] at htokens hleft
      rw [Walk.offers_current hb.current, hbuy, htokens, hleft]
      refine ⟨?_, rfl⟩
      rw [show s'.tokens = s.tokens + bought by rw [hb.next], Nat.add_assoc]

/-! ## When the walk fits -/

/-- The counters of a walk leave room for all that is left in the stages. -/
structure Walk.Fits (s : Walk) : Prop where
  within : StagesWithin s.stages
  priced : ∀ stage ∈ s.stages, 0 < stage.pricePerToken ∧ stage.tokensAvailable < 2 ^ 64
  few : s.stages.length < 2 ^ 64
  supply : s.tokens + (s.stages.map fun stage => stage.tokensAvailable - stage.tokensSoldInStage).sum < 2 ^ 64

/-- What a stage has left is part of what all have left. -/
theorem left_le_sum {l : List PresaleStage} {i : ℕ} (h : l[i]? = some stage) :
    stage.tokensAvailable - stage.tokensSoldInStage ≤
      (l.map fun stage => stage.tokensAvailable - stage.tokensSoldInStage).sum :=
  List.le_sum_of_mem (List.mem_map.2 ⟨stage, List.mem_of_getElem? h, rfl⟩)

theorem Walk.Fits.pass (h : s.Fits) (hp : stagePass tokenUnit s = .ok (.inl s')) : s'.Fits := by
  have hfrom : Walk.From s.stages s s' := Walk.From.pass ⟨.refl _, rfl, le_rfl⟩ hp
  have hwithin := hfrom.grown.stagesWithin h.within
  refine ⟨hwithin, hfrom.grown.offered (p := fun price available => 0 < price ∧ available < 2 ^ 64) h.priced,
    hfrom.grown.length_eq ▸ h.few, ?_⟩
  have hbefore := h.within.left_add_sold
  have hafter := hwithin.left_add_sold
  have hsupply := hfrom.grown.supply
  have hsold := hfrom.sold
  have := h.supply
  omega

/-- In a stage with something left a pass succeeds where the lamports, in base units, fit. -/
theorem Walk.Fits.stagePass_ok (h : s.Fits) (hu : 0 < tokenUnit) (hcur : s.stages[s.idx]? = some stage)
    (hfits : s.remainingSol * tokenUnit < 2 ^ 64) : ∃ r, stagePass tokenUnit s = .ok r := by
  have hmem := List.mem_of_getElem? hcur
  obtain ⟨hprice, havail⟩ := h.priced stage hmem
  have hwithin := h.within stage hmem
  have hleft := left_le_sum hcur
  have hlt := (List.getElem?_eq_some_iff.1 hcur).1
  have hidx : s.idx + 1 < 2 ^ 64 := by have := h.few; omega
  unfold stagePass
  split
  · exact ⟨_, rfl⟩
  rw [hcur]
  have hsub : checkedSub stage.tokensAvailable stage.tokensSoldInStage = .ok _ :=
    okOr_eq_ok.2 (sub_eq_some.2 ⟨hwithin, rfl⟩)
  simp only
  rw [bind_of_ok hsub]
  split
  · simp only [bind_ok_iff, okOr_eq_ok, add_eq_some, pure_ok_iff]
    exact ⟨_, _, ⟨hidx, rfl⟩, rfl⟩
  have hmul : checkedMul s.remainingSol tokenUnit = .ok _ := okOr_eq_ok.2 (mul_eq_some.2 ⟨hfits, rfl⟩)
  have hdiv : checkedDiv (s.remainingSol * tokenUnit) stage.pricePerToken = .ok _ :=
    okOr_eq_ok.2 (div_eq_some.2 ⟨hprice.ne', rfl⟩)
  rw [bind_of_ok hmul, bind_of_ok hdiv]
  split
  · exact ⟨_, rfl⟩
  -- what is bought is within what is affordable and within what is left, and so is all that follows
  have hafford := Nat.div_mul_le_self (s.remainingSol * tokenUnit) stage.pricePerToken
  generalize hbought : min (s.remainingSol * tokenUnit / stage.pricePerToken)
    (stage.tokensAvailable - stage.tokensSoldInStage) = bought
  have hsupply := h.supply
  have hmul_le : bought * stage.pricePerToken ≤ s.remainingSol * tokenUnit :=
    (Nat.mul_le_mul_right _ (hbought ▸ Nat.min_le_left _ _)).trans hafford
  have hcost : bought * stage.pricePerToken / tokenUnit ≤ s.remainingSol :=
    Nat.div_le_of_le_mul (by rwa [Nat.mul_comm tokenUnit])
  have hnext : ∃ idx, nextIdx (stage.tokensSoldInStage + bought) stage.tokensAvailable s.idx = .ok idx := by
    unfold nextIdx
    split
    · exact ⟨_, okOr_eq_ok.2 (add_eq_some.2 ⟨hidx, rfl⟩)⟩
    · exact ⟨_, rfl⟩
  obtain ⟨idx, hnext⟩ := hnext
  simp only [bind_ok_iff, okOr_eq_ok, mul_eq_some, div_eq_some, add_eq_some, sub_eq_some, pure_ok_iff]
  exact ⟨_, _, ⟨by omega, rfl⟩, _, ⟨hu.ne', rfl⟩, _, ⟨by omega, rfl⟩, _, ⟨by omega, rfl⟩, _, ⟨hcost, rfl⟩, idx, hnext, rfl⟩

/-- In a stage with nothing left a pass goes on to the next stage. -/
theorem Walk.Fits.stagePass_skip (h : s.Fits) (hpos : 0 < s.remainingSol) (hcur : s.stages[s.idx]? = some stage)
    (hsold : stage.tokensSoldInStage = stage.tokensAvailable) :
    stagePass tokenUnit s = .ok (.inl { s with idx := s.idx + 1 }) := by
  have hlt := (List.getElem?_eq_some_iff.1 hcur).1
  have hsub : checkedSub stage.tokensAvailable stage.tokensSoldInStage = .ok _ :=
    okOr_eq_ok.2 (sub_eq_some.2 ⟨hsold.le, rfl⟩)
  have hadd : checkedAdd s.idx 1 = .ok (s.idx + 1) :=
    okOr_eq_ok.2 (add_eq_some.2 ⟨by have := h.few; omega, rfl⟩)
  unfold stagePass
  rw [if_neg hpos.ne', hcur]
  simp only
  rw [bind_of_ok hsub, if_pos (by omega), bind_of_ok hadd]
  rfl

/-- Where there is something to buy and the lamports, in base units, do not fit, a pass fails. -/
theorem Walk.Fits.stagePass_overflow (h : s.Fits) (hpos : 0 < s.remainingSol) (hcur : s.stages[s.idx]? = some stage)
    (hleft : stage.tokensSoldInStage < stage.tokensAvailable) (hbig : 2 ^ 64 ≤ s.remainingSol * tokenUnit) :
    stagePass tokenUnit s = .error (.presale .mathOverflow) := by
  have hsub : checkedSub stage.tokensAvailable stage.tokensSoldInStage = .ok _ :=
    okOr_eq_ok.2 (sub_eq_some.2 ⟨h.within stage (List.mem_of_getElem? hcur), rfl⟩)
  have hmul : checkedMul s.remainingSol tokenUnit = .error (.presale .mathOverflow) :=
    okOr_eq_error.2 ⟨if_neg (by omega), rfl⟩
  unfold stagePass
  rw [if_neg hpos.ne', hcur]
  simp only
  rw [bind_of_ok hsub, if_neg (by omega), hmul]
  rfl

/-- A walk with nothing to buy succeeds, whatever the lamports; so does one whose lamports, in base units,
fit. -/
theorem Walk.Fits.run_ok (h : s.Fits) (hu : 0 < tokenUnit)
    (hfits : s.remainingSol * tokenUnit < 2 ^ 64 ∨ ∀ stage ∈ s.stages, stage.tokensSoldInStage = stage.tokensAvailable) :
    ∃ t, (stageWalk tokenUnit).run s = .ok t := by
  refine (stageWalk tokenUnit).run_succeeds (I := fun x => x.Fits ∧ (x.remainingSol * tokenUnit < 2 ^ 64 ∨
    ∀ stage ∈ x.stages, stage.tokensSoldInStage = stage.tokensAvailable)) ?_ ?_ ⟨h, hfits⟩
  · rintro x x' ⟨hx, hfits⟩ hb
    refine ⟨hx.pass hb, ?_⟩
    rcases hfits with hlt | hsold
    · left
      have hfrom : Walk.From x.stages x x' := Walk.From.pass ⟨.refl _, rfl, le_rfl⟩ hb
      exact (Nat.mul_le_mul_right _ hfrom.spent).trans_lt hlt
    · right
      rcases stagePass_inl hb with ⟨_, _, _, rfl⟩ | ⟨stage, bought, cost, hbuy⟩
      · exact hsold
      · have := hsold stage (List.mem_of_getElem? hbuy.current)
        have := hbuy.unsold
        omega
  · rintro x e ⟨hx, hfits⟩ herr
    have herr' : stagePass tokenUnit x = .error e := herr
    rcases Nat.eq_zero_or_pos x.remainingSol with hzero | hpos
    · unfold stagePass at herr'
      rw [if_pos hzero] at herr'
      cases herr'
    rcases hcur : x.stages[x.idx]? with _ | stage
    · unfold stagePass at herr'
      rw [if_neg hpos.ne', hcur] at herr'
      cases herr'
    rcases hfits with hlt | hsold
    · obtain ⟨r, hr⟩ := hx.stagePass_ok hu hcur hlt
      rw [hr] at herr'
      cases herr'
    · rw [hx.stagePass_skip hpos hcur (hsold stage (List.mem_of_getElem? hcur))] at herr'
      cases herr'

/-- A walk with something to buy whose lamports, in base units, do not fit fails. -/
theorem Walk.Fits.run_overflow (h : s.Fits) (hpos : 0 < s.remainingSol) {i : ℕ} (hi : s.idx ≤ i)
    (hcur : s.stages[i]? = some stage) (hleft : stage.tokensSoldInStage < stage.tokensAvailable)
    (hbig : 2 ^ 64 ≤ s.remainingSol * tokenUnit) : (stageWalk tokenUnit).run s = .error (.presale .mathOverflow) := by
  -- on the way to the stage the walk can only pass over stages with nothing left
  induction hm : i - s.idx using Nat.strongRecOn generalizing s with
  | _ m ih =>
    have hlt := (List.getElem?_eq_some_iff.1 hcur).1
    obtain ⟨now, hnow⟩ : ∃ now, s.stages[s.idx]? = some now := ⟨_, List.getElem?_eq_getElem (by omega)⟩
    rw [Loop.run_eq]
    rcases (h.within now (List.mem_of_getElem? hnow)).lt_or_eq with hsome | hnone
    · have hbody : (stageWalk tokenUnit).body s = .error (.presale .mathOverflow) :=
        h.stagePass_overflow hpos hnow hsome hbig
      rw [hbody]
    · have hbody : (stageWalk tokenUnit).body s = .ok (.inl { s with idx := s.idx + 1 }) :=
        h.stagePass_skip hpos hnow hnone
      have hne : s.idx ≠ i := by
        rintro rfl
        rw [hcur] at hnow; cases hnow
        omega
      rw [hbody]
      exact ih (i - (s.idx + 1)) (by omega) (h.pass hbody) hpos (by show s.idx + 1 ≤ i; omega) hcur hbig rfl

end

/-! ## The state a purchase finds -/

/-- The state of a presale: its configuration is that of the launch, its stages are sold in order, and
its counters agree. -/
structure Sound (ctx : InitializePresale) (args : InitializePresaleArgs) (st : PresaleState) : Prop where
  config : st.config = (args.toState ctx).config
  order : SellsInOrder args.stages st
  counted : Counted (args.toState ctx) st
  bonuses : 10000 * st.totalReferralBonuses ≤ st.referralBonusBps * st.tokensSold

section
variable {ctx : InitializePresale} {args : InitializePresaleArgs} {w₁ w w' : World} {tr : List Transition}
  {st : PresaleState} {c : BuyTokens} {solAmount solUsed bonus : ℕ} {referrer : Option Address} {m : Mint} {wk : Walk}

theorem Sound.buy (h : Sound ctx args st) (hfew : args.stages.length ≤ 256)
    (hb : Bought c solAmount referrer w w' st m wk solUsed bonus) : Sound ctx args (st.bought wk solUsed bonus) := by
  refine ⟨h.config, h.order.buy hfew hb, h.counted.buy hb, ?_⟩
  have hle := bonus_le st wk.tokens referrer
  have := h.bonuses
  rw [← hb.bonusEq] at hle
  simp only [PresaleState.bought, Nat.mul_add]
  omega

theorem PresaleRun.sound (h : PresaleRun ctx args w₁ tr w) : ∃ st, w.states ctx.admin = some st ∧ Sound ctx args st := by
  have hstages := h.accepted.stages
  refine h.invariant (I := Sound ctx args) ?_ ?_ ?_
  · exact ⟨rfl, ⟨.start _, List.length_pos_of_ne_nil hstages.1⟩, ⟨.refl _, rfl, rfl⟩, Nat.zero_le _⟩
  · intro c solAmount referrer w w' st m wk solUsed bonus hI hb
    exact hI.buy (by omega) hb
  · intro st active paused lock hI
    exact ⟨hI.config, ⟨hI.order.order, hI.order.valid⟩, hI.counted.withFlags, hI.bonuses⟩

/-- The arguments of the launch have the types of the instruction. -/
theorem PresaleRun.inRange (h : PresaleRun ctx args w₁ tr w) : args.InRange := by
  obtain ⟨w₀, pre, wₗ, -, -, hstep⟩ := h.launch
  cases hstep with
  | ok hin _ => exact hin

/-- What was sold and what the stages have left is what was for sale, when the stages start unsold. -/
theorem Sound.left (h : Sound ctx args st) {now : ℤ} (ha : args.Accepted now)
    (hfresh : ∀ stage ∈ args.stages, stage.tokensSoldInStage = 0) : StagesWithin st.stages ∧
      st.tokensSold + (st.stages.map fun stage => stage.tokensAvailable - stage.tokensSoldInStage).sum =
        st.tokensForSale := by
  have hwithin : StagesWithin st.stages :=
    h.counted.grown.stagesWithin fun stage hs => by rw [hfresh stage hs]; exact Nat.zero_le _
  have hzero : soldInStages args.stages = 0 := List.sum_eq_zero (by simpa using hfresh)
  have hsold : soldInStages st.stages = soldInStages args.stages + st.tokensSold := h.counted.sold
  have hsupply : (st.stages.map (·.tokensAvailable)).sum = (args.stages.map (·.tokensAvailable)).sum :=
    h.counted.grown.supply
  have hsale : st.tokensForSale = args.tokensForSale := h.counted.forSale
  have hleft := hwithin.left_add_sold
  have := ha.supply
  exact ⟨hwithin, by omega⟩

theorem Sound.walk_fits (h : Sound ctx args st) {now : ℤ} (ha : args.Accepted now)
    (hfresh : ∀ stage ∈ args.stages, stage.tokensSoldInStage = 0) (solAmount : ℕ) : (st.walkFrom solAmount).Fits := by
  obtain ⟨hwithin, hleft⟩ := h.left ha hfresh
  have hsale : st.tokensForSale = args.tokensForSale := h.counted.forSale
  have hfits := ha.supplyFits
  refine ⟨hwithin, ?_, ?_, ?_⟩
  · refine h.counted.grown.offered (p := fun price available => 0 < price ∧ available < 2 ^ 64) ?_
    intro stage hs
    have hle : stage.tokensAvailable ≤ (args.stages.map (·.tokensAvailable)).sum :=
      List.le_sum_of_mem (List.mem_map_of_mem hs)
    have := ha.supply
    exact ⟨(ha.priced stage hs).1, by omega⟩
  · show st.stages.length < 2 ^ 64
    have := h.order.order.length
    have := ha.stages.2
    omega
  · show 0 + _ < 2 ^ 64
    simp only [PresaleState.walkFrom]
    omega

/-- All tokens are sold when no stage has any left. -/
theorem Sound.soldOut_iff (h : Sound ctx args st) {now : ℤ} (ha : args.Accepted now)
    (hfresh : ∀ stage ∈ args.stages, stage.tokensSoldInStage = 0) :
    st.tokensSold = st.tokensForSale ↔ ∀ stage ∈ st.stages, stage.tokensSoldInStage = stage.tokensAvailable := by
  obtain ⟨hwithin, hleft⟩ := h.left ha hfresh
  constructor
  · intro hsold stage hs
    have hzero : (st.stages.map fun stage => stage.tokensAvailable - stage.tokensSoldInStage).sum = 0 := by omega
    have := List.sum_eq_zero_iff_forall_eq_nat.1 hzero _ (List.mem_map_of_mem hs)
    have := hwithin stage hs
    omega
  · intro hall
    have hzero : (st.stages.map fun stage => stage.tokensAvailable - stage.tokensSoldInStage).sum = 0 := by
      refine List.sum_eq_zero fun x hx => ?_
      obtain ⟨stage, hs, rfl⟩ := List.mem_map.1 hx
      have := hall stage hs
      omega
    omega

/-- A walk sells no more than is left. -/
theorem Sound.walk_tokens (h : Sound ctx args st) {now : ℤ} (ha : args.Accepted now)
    (hfresh : ∀ stage ∈ args.stages, stage.tokensSoldInStage = 0) {tokenUnit : ℕ}
    (hr : (stageWalk tokenUnit).run (st.walkFrom solAmount) = .ok wk) :
    st.tokensSold + wk.tokens ≤ st.tokensForSale ∧ wk.remainingSol ≤ solAmount := by
  have hfrom : Walk.From st.stages (st.walkFrom solAmount) wk := Walk.From.run (.refl _) hr
  obtain ⟨hwithin, hleft⟩ := h.left ha hfresh
  have hbefore := hwithin.left_add_sold
  have hafter := (hfrom.grown.stagesWithin hwithin).left_add_sold
  have hsupply := hfrom.grown.supply
  have hsold := hfrom.sold
  have hspent := hfrom.spent
  simp only [PresaleState.walkFrom] at hsold hspent
  exact ⟨by omega, hspent⟩

/-! ## The errors of a purchase -/

section
variable {P : Error → Prop}

theorem BuyTokens.tryAccounts_fails (hruntime : ∀ r, P (.runtime r)) (c : BuyTokens) (w : World) :
    Fails P (c.tryAccounts w) := by
  unfold BuyTokens.tryAccounts account
  exact .bind (.okOr (hruntime _)) fun _ _ => .bind (.okOr (hruntime _)) fun _ _ => .bind (.okOr (hruntime _)) fun _ _ =>
    .pure _

/-- The stage walk fails in its arithmetic only. -/
theorem stageWalk_fails (hmath : P (.presale .mathOverflow)) (tokenUnit : ℕ) (s : Walk) :
    Fails P ((stageWalk tokenUnit).run s) := by
  refine (stageWalk tokenUnit).run_fails (fun x => ?_) s
  show Fails P (stagePass tokenUnit x)
  unfold stagePass nextIdx
  split
  · exact .ok rfl
  split
  · exact .ok rfl
  refine .bind (.okOr hmath) fun _ _ => ?_
  split
  · exact .bind (.okOr hmath) fun _ _ => .pure _
  refine .bind (.okOr hmath) fun _ _ => .bind (.okOr hmath) fun _ _ => ?_
  split
  · exact .pure _
  refine .bind (.okOr hmath) fun _ _ => .bind (.okOr hmath) fun _ _ => .bind (.okOr hmath) fun _ _ =>
    .bind (.okOr hmath) fun _ _ => .bind (.okOr hmath) fun _ _ => .bind ?_ fun _ _ => .pure _
  split
  · exact .okOr hmath
  · exact .ok rfl

theorem payReferral_fails {tokens : ℕ} (hmath : P (.presale .mathOverflow)) (hself : P (.presale .selfReferral))
    (haccount : P (.presale .invalidReferralAccount)) (hruntime : ∀ r, P (.runtime r)) :
    Fails P (payReferral c st m tokens referrer w) := by
  unfold payReferral
  cases referrer with
  | none => exact .pure _
  | some refKey =>
    refine .bind (.require hself) fun _ _ => .bind (.require haccount) fun _ _ => .bind (.require haccount) fun _ _ =>
      .bind (.okOr hmath) fun _ _ => .bind (.okOr hmath) fun _ _ => ?_
    split
    · exact .pure _
    · exact .bind (.okOr hmath) fun _ _ => .bind (transferChecked_fails hruntime) fun _ _ => .pure _

end

/-! ## Sold out -/

/-- A purchase that finds a stage at the index is not told that the presale is sold out. -/
theorem buyTokens_not_soldOut (hst : w.states c.state = some st) (hvalid : st.currentStageIndex < st.stages.length) :
    buyTokens c solAmount referrer w ≠ .error (.presale .soldOut) := by
  have hfails : Fails (· ≠ .presale .soldOut) (buyTokens c solAmount referrer w) := by
    unfold buyTokens
    refine .bind (BuyTokens.tryAccounts_fails (by simp) c w) ?_
    rintro ⟨st', m, v⟩ hfound
    obtain ⟨hst', -, -⟩ := BuyTokens.tryAccounts_ok hfound
    rw [hst] at hst'; cases hst'
    refine .bind (.require (by simp)) fun _ _ => .bind (.require (by simp)) fun _ _ => .after (require_ok hvalid) ?_
    refine .bind (.okOr (by simp)) fun _ _ => .bind (stageWalk_fails (by simp) _ _) fun _ _ => ?_
    refine .bind (.require (by simp)) fun _ _ => .bind (.okOr (by simp)) fun _ _ => .bind (.require (by simp)) fun _ _ => ?_
    refine .bind (.okOr (by simp)) fun _ _ => .bind (.require (by simp)) fun _ _ => ?_
    refine .bind (.okOr (by simp)) fun _ _ => .bind (.require (by simp)) fun _ _ => ?_
    refine .bind (.okOr (by simp)) fun _ _ => .bind (.okOr (by simp)) fun _ _ => ?_
    refine .bind (systemTransfer_fails (by simp)) fun _ _ => ?_
    exact .bind (payReferral_fails (by simp) (by simp) (by simp) (by simp)) fun _ _ => .pure _
  intro h
  exact hfails _ h rfl

/-- With nothing left a purchase that passes the checks before it is told that it bought nothing. -/
theorem buyTokens_nothing_left {v : UserVesting} (hacc : c.tryAccounts w = .ok (st, m, v))
    (hactive : st.isActive ∧ ¬ st.isPaused) (hwindow : w.clock ≥ st.startTime ∧ w.clock ≤ st.endTime)
    (hvalid : st.currentStageIndex < st.stages.length) (hunit : 10 ^ m.decimals < 2 ^ 64)
    (hrun : (stageWalk (10 ^ m.decimals)).run (st.walkFrom solAmount) = .ok wk) (hnone : wk.tokens = 0) :
    buyTokens c solAmount referrer w = .error (.presale .invalidTokenAmount) := by
  have hpow : checkedPow 10 m.decimals = .ok (10 ^ m.decimals) := okOr_eq_ok.2 (pow_eq_some.2 ⟨hunit, rfl⟩)
  have hreq : require (wk.tokens > 0) (Error.presale .invalidTokenAmount) = .error (.presale .invalidTokenAmount) :=
    require_eq_error.2 ⟨by omega, rfl⟩
  unfold PresaleState.walkFrom at hrun
  unfold buyTokens
  rw [bind_of_ok hacc]
  simp only
  rw [bind_of_ok (require_ok hactive), bind_of_ok (require_ok hwindow), bind_of_ok (require_ok hvalid), bind_of_ok hpow,
    bind_of_ok hrun, hreq]
  rfl

/-- That all tokens are sold is reported by no purchase: the guard against it looks at an index that is
always a stage's. So the report comes exactly when it should where something is left, and where nothing
is left a purchase is told of an invalid amount. -/
theorem presaleRun_sold_out (h : PresaleRun ctx args w₁ tr w)
    (hfresh : ∀ stage ∈ args.stages, stage.tokensSoldInStage = 0) (hc : c.state = ctx.admin) :
    ∃ st, w.states ctx.admin = some st ∧
      ((buyTokens c solAmount referrer w = .error (.presale .soldOut) ↔ st.tokensSold = st.tokensForSale) ↔
        ∃ stage ∈ st.stages, stage.tokensSoldInStage < stage.tokensAvailable) ∧
      (st.tokensSold = st.tokensForSale → st.isActive ∧ ¬ st.isPaused → st.startTime ≤ w.clock ∧ w.clock ≤ st.endTime →
        ∀ m v, c.tryAccounts w = .ok (st, m, v) → 10 ^ m.decimals < 2 ^ 64 →
          buyTokens c solAmount referrer w = .error (.presale .invalidTokenAmount)) := by
  have ha := h.accepted
  obtain ⟨st, hst, hsound⟩ := h.sound
  have hvalid := hsound.order.valid
  have hiff := hsound.soldOut_iff ha hfresh
  obtain ⟨hwithin, -⟩ := hsound.left ha hfresh
  have hnot : buyTokens c solAmount referrer w ≠ .error (.presale .soldOut) :=
    buyTokens_not_soldOut (hc ▸ hst) hvalid
  refine ⟨st, hst, ?_, ?_⟩
  · rw [iff_false_left hnot, hiff]
    push Not
    constructor
    · rintro ⟨stage, hs, hne⟩
      exact ⟨stage, hs, lt_of_le_of_ne (hwithin stage hs) hne⟩
    · rintro ⟨stage, hs, hlt⟩
      exact ⟨stage, hs, hlt.ne⟩
  · intro hsold hactive hwindow m v hacc hunit
    have hu : 0 < 10 ^ m.decimals := by positivity
    obtain ⟨wk, hrun⟩ := (hsound.walk_fits ha hfresh solAmount).run_ok hu (.inr (hiff.1 hsold))
    obtain ⟨hle, -⟩ := hsound.walk_tokens ha hfresh hrun
    exact buyTokens_nothing_left hacc hactive hwindow hvalid hunit hrun (by omega)

/-! ## Overflow -/

/-- A referrer that a purchase pays a bonus to: not the buyer, and with an account for the tokens sold. -/
def BuyTokens.Refers (ctx : BuyTokens) (state : PresaleState) (referrer : Option Address) (w : World) : Prop :=
  ∃ refKey, referrer = some refKey ∧ refKey ≠ .key ctx.buyer ∧ w.tokenAccounts ctx.referrerTokenAccount ≠ none ∧
    ctx.referrerTokenAccount = .ata refKey state.tokenMint

/-- With room for the bonus itself, the bonus fails to be computed only when a referrer is accepted and the
tokens times the rate do not fit. -/
theorem payReferral_mathOverflow_iff {tokens : ℕ}
    (hroom : st.totalReferralBonuses + tokens * st.referralBonusBps / 10000 < 2 ^ 64) :
    payReferral c st m tokens referrer w = .error (.presale .mathOverflow) ↔
      c.Refers st referrer w ∧ 2 ^ 64 ≤ tokens * st.referralBonusBps := by
  unfold payReferral BuyTokens.Refers
  cases referrer with
  | none => simp
  | some refKey =>
    simp only [bind_error_iff, require_eq_ok, require_eq_error, okOr_eq_ok, okOr_eq_error, mul_eq_some, mul_eq_none,
      div_eq_some, div_eq_none, reduceCtorEq, Error.presale.injEq, and_false, and_true, false_or, Option.some.injEq]
    constructor
    · rintro ⟨_, hself, _, haccount, _, hata, hbig | ⟨_, ⟨-, rfl⟩, _, ⟨-, rfl⟩, hbonus⟩⟩
      · exact ⟨⟨refKey, rfl, hself, haccount, hata⟩, hbig⟩
      · -- the bonus fits, and what is left to fail is the transfer
        split at hbonus
        · cases hbonus
        simp only [bind_error_iff, okOr_eq_error, add_eq_none, pure_ne_error, and_false, exists_false, or_false] at hbonus
        rcases hbonus with ⟨hover, -⟩ | ⟨_, -, htr⟩
        · omega
        · obtain ⟨r, hr⟩ := transferChecked_error htr
          cases hr
    · rintro ⟨⟨_, rfl, hself, haccount, hata⟩, hbig⟩
      exact ⟨(), hself, (), haccount, (), hata, .inl hbig⟩

/-- What the stages of a presale offer from the current one on. -/
def PresaleState.offers (st : PresaleState) : List (ℕ × ℕ) :=
  (st.stages.drop st.currentStageIndex).map PresaleStage.offer

/-- What `solAmount` lamports buy of a presale, and what they leave. -/
def PresaleState.filled (st : PresaleState) (m : Mint) (solAmount : ℕ) : ℕ × ℕ :=
  Price.fillAll (10 ^ m.decimals) st.offers solAmount

/-- What the stages offer and the lamports offered for it do not fit 64 bits, before anything is bought: a
token in base units; the lamports in base units, with something left to buy; what the buyer holds
together with what the offers give; or, with lamports that cover the price and a referrer that is
accepted, what the offers give times the referral rate. -/
structure BuyTokens.Overflows (ctx : BuyTokens) (solAmount : ℕ) (referrer : Option Address) (w : World)
    (st : PresaleState) (m : Mint) : Prop where
  active : st.isActive ∧ ¬ st.isPaused
  window : st.startTime ≤ w.clock ∧ w.clock ≤ st.endTime
  overflow : 2 ^ 64 ≤ 10 ^ m.decimals ∨
    (0 < solAmount ∧ st.tokensSold < st.tokensForSale ∧ 2 ^ 64 ≤ solAmount * 10 ^ m.decimals) ∨
    ((st.filled m solAmount).2 < solAmount ∧
      (2 ^ 64 ≤ (w.vesting ctx.buyer).totalLocked + (st.filled m solAmount).1 ∨
        solAmount - (st.filled m solAmount).2 ≤ w.lamports (.key ctx.buyer) ∧ ctx.Refers st referrer w ∧
          2 ^ 64 ≤ (st.filled m solAmount).1 * st.referralBonusBps))

/-- While something is left to buy some stage from the current one on has it. -/
theorem Sound.stage_left (h : Sound ctx args st) {now : ℤ} (ha : args.Accepted now)
    (hfresh : ∀ stage ∈ args.stages, stage.tokensSoldInStage = 0) (hleft : st.tokensSold < st.tokensForSale) :
    ∃ i stage, st.currentStageIndex ≤ i ∧ st.stages[i]? = some stage ∧
      stage.tokensSoldInStage < stage.tokensAvailable := by
  obtain ⟨hwithin, -⟩ := h.left ha hfresh
  have hnot : ¬ ∀ stage ∈ st.stages, stage.tokensSoldInStage = stage.tokensAvailable := by
    intro hall
    have := (h.soldOut_iff ha hfresh).2 hall
    omega
  push Not at hnot
  obtain ⟨stage, hs, hne⟩ := hnot
  obtain ⟨i, hi⟩ := List.mem_iff_getElem?.1 hs
  refine ⟨i, stage, ?_, hi, lt_of_le_of_ne (hwithin stage hs) hne⟩
  by_contra hlt
  exact hne (h.order.order.before i stage (not_le.1 hlt) hi)

/-- The walk of a purchase fails exactly where the lamports, in base units, do not fit and something is
left to buy. -/
theorem Sound.walk_error_iff (h : Sound ctx args st) {now : ℤ} (ha : args.Accepted now)
    (hfresh : ∀ stage ∈ args.stages, stage.tokensSoldInStage = 0) (m : Mint) (solAmount : ℕ) :
    (stageWalk (10 ^ m.decimals)).run (st.walkFrom solAmount) = .error (.presale .mathOverflow) ↔
      0 < solAmount ∧ st.tokensSold < st.tokensForSale ∧ 2 ^ 64 ≤ solAmount * 10 ^ m.decimals := by
  have hfits := h.walk_fits ha hfresh solAmount
  have hu : 0 < 10 ^ m.decimals := by positivity
  constructor
  · intro herr
    have hno : ¬ ∃ t, (stageWalk (10 ^ m.decimals)).run (st.walkFrom solAmount) = .ok t := by
      rintro ⟨t, ht⟩
      rw [ht] at herr
      cases herr
    have hbig : 2 ^ 64 ≤ solAmount * 10 ^ m.decimals := by
      by_contra hlt
      exact hno (hfits.run_ok hu (.inl (not_le.1 hlt)))
    refine ⟨Nat.pos_of_mul_pos_right (by omega : 0 < solAmount * 10 ^ m.decimals), ?_, hbig⟩
    obtain ⟨-, hsum⟩ := h.left ha hfresh
    by_contra hge
    exact hno (hfits.run_ok hu (.inr ((h.soldOut_iff ha hfresh).1 (by omega))))
  · rintro ⟨hpos, hleft, hbig⟩
    obtain ⟨i, stage, hi, hcur, hlt⟩ := h.stage_left ha hfresh hleft
    exact hfits.run_overflow hpos hi hcur hlt hbig

/-- A walk that succeeds buys what the offers give. -/
theorem walk_filled (hr : (stageWalk (10 ^ m.decimals)).run (st.walkFrom solAmount) = .ok wk) :
    wk.tokens = (st.filled m solAmount).1 ∧ wk.remainingSol = (st.filled m solAmount).2 := by
  obtain ⟨htokens, hleft⟩ := stageWalk_fills hr
  refine ⟨?_, hleft⟩
  rw [htokens]
  exact Nat.zero_add _

/-- The rates and caps of a presale are those of its launch. -/
theorem Sound.limits (h : Sound ctx args st) : st.maxContributionLamports = args.maxContribution ∧
    st.hardCapLamports = args.hardCap ∧ st.referralBonusBps = args.referralBonusBps :=
  ⟨config_congr h.config (·.maxContributionLamports) fun _ => rfl,
    config_congr h.config (·.hardCapLamports) fun _ => rfl, config_congr h.config (·.referralBonusBps) fun _ => rfl⟩

/-- The bonuses of all that is for sale fit. -/
theorem Sound.bonus_fits (h : Sound ctx args st) {now : ℤ} (ha : args.Accepted now) {tokens : ℕ}
    (hle : st.tokensSold + tokens ≤ st.tokensForSale) :
    st.totalReferralBonuses + tokens * st.referralBonusBps / 10000 < 2 ^ 64 := by
  have hsale : st.tokensForSale = args.tokensForSale := h.counted.forSale
  have hfits := ha.supplyFits
  have hbonuses := h.bonuses
  have hrate : st.referralBonusBps ≤ 2500 := by rw [h.limits.2.2]; exact ha.bps
  have hmul : st.referralBonusBps * (st.tokensSold + tokens) ≤ 2500 * st.tokensForSale := Nat.mul_le_mul hrate hle
  rw [Nat.mul_add, Nat.mul_comm st.referralBonusBps tokens] at hmul
  omega

theorem systemTransfer_covered {src dst : Address} {amount : ℕ} (h : amount ≤ w.lamports src) :
    ∃ w', systemTransfer w src dst amount = .ok w' := by
  unfold systemTransfer
  rw [bind_of_ok (require_ok h)]
  exact ⟨_, rfl⟩

/-- Within the caps a purchase reports an overflow exactly where it finds a value out of range. -/
theorem Sound.overflow_iff (h : Sound ctx args st) {now : ℤ} (ha : args.Accepted now) (hin : args.InRange)
    (hfresh : ∀ stage ∈ args.stages, stage.tokensSoldInStage = 0)
    (hwallet : (w.vesting c.buyer).contributedLamports + solAmount ≤ st.maxContributionLamports)
    (hhard : st.totalRaisedLamports + solAmount ≤ st.hardCapLamports)
    (hacc : c.tryAccounts w = .ok (st, m, w.vesting c.buyer)) :
    buyTokens c solAmount referrer w = .error (.presale .mathOverflow) ↔ c.Overflows solAmount referrer w st m := by
  -- the sums that the caps and the supply keep in range
  obtain ⟨hmax, hcap, -⟩ := h.limits
  have hmaxFits := hin.maxContribution
  have hcapFits := hin.hardCap
  have hsale : st.tokensForSale = args.tokensForSale := h.counted.forSale
  have hsaleFits := ha.supplyFits
  have hwalk := h.walk_error_iff ha hfresh m solAmount
  unfold buyTokens
  rw [bind_of_ok hacc]
  simp only [bind_error_iff, require_eq_ok, require_eq_error, okOr_eq_ok, okOr_eq_error, pure_ne_error, pow_eq_some,
    pow_eq_none, add_eq_some, add_eq_none, sub_eq_some, sub_eq_none, reduceCtorEq, Error.presale.injEq, and_false,
    and_true, false_or, exists_false, or_false]
  constructor
  · rintro ⟨_, hactive, _, hwindow, _, -, hunit | ⟨_, ⟨hunit, rfl⟩, hrun | ⟨wk, hr, _, htok, hrest⟩⟩⟩
    · exact ⟨hactive, hwindow, .inl hunit⟩
    · exact ⟨hactive, hwindow, .inr (.inl (hwalk.1 hrun))⟩
    · obtain ⟨htokens, hleft⟩ := walk_filled hr
      obtain ⟨hsold, hspent⟩ := h.walk_tokens ha hfresh hr
      have hroom := h.bonus_fits ha hsold
      refine ⟨hactive, hwindow, .inr (.inr ?_)⟩
      rw [← htokens, ← hleft]
      rcases hrest with hsub | ⟨_, ⟨-, rfl⟩, _, hused, hadd | ⟨_, ⟨-, rfl⟩, _, -, hadd | ⟨_, ⟨-, rfl⟩, _, -, hadd |
        ⟨_, ⟨-, rfl⟩, hlocked | ⟨_, ⟨-, rfl⟩, htr | ⟨w₁, htr, href⟩⟩⟩⟩⟩⟩
      · omega
      · omega
      · omega
      · omega
      · exact ⟨by omega, .inl hlocked⟩
      · exact absurd rfl (systemTransfer_fails (P := (· ≠ .presale .mathOverflow)) (by simp) _ htr)
      · obtain ⟨hpaid, rfl⟩ := systemTransfer_ok htr
        obtain ⟨hrefers, hbonus⟩ := (payReferral_mathOverflow_iff (by exact hroom)).1 href
        exact ⟨by omega, .inr ⟨hpaid, hrefers, hbonus⟩⟩
  · intro ho
    refine ⟨(), ho.active, (), ho.window, (), h.order.valid, ?_⟩
    rcases Nat.lt_or_ge (10 ^ m.decimals) (2 ^ 64) with hunit | hunit
    swap
    · exact .inl hunit
    refine .inr ⟨_, ⟨hunit, rfl⟩, ?_⟩
    rcases hr : (stageWalk (10 ^ m.decimals)).run (st.walkFrom solAmount) with e | wk
    · have hmath := stageWalk_fails (P := (· = .presale .mathOverflow)) rfl _ _ e hr
      exact .inl (hmath ▸ hr)
    obtain ⟨htokens, hleft⟩ := walk_filled hr
    obtain ⟨hsold, hspent⟩ := h.walk_tokens ha hfresh hr
    have hroom := h.bonus_fits ha hsold
    have hok : ¬ (0 < solAmount ∧ st.tokensSold < st.tokensForSale ∧ 2 ^ 64 ≤ solAmount * 10 ^ m.decimals) := by
      intro hbig
      rw [hwalk.2 hbig] at hr
      cases hr
    obtain ⟨hused, hover⟩ := (ho.overflow.resolve_left (by omega)).resolve_left hok
    rw [← htokens] at hover
    rw [← hleft] at hused hover
    have hpos : 0 < wk.tokens := by
      by_contra hnone
      have hnothing : (st.filled m solAmount).2 = solAmount := Price.fillAll_nothing (by
        show (st.filled m solAmount).1 = 0
        omega)
      omega
    refine .inr ⟨wk, hr, (), hpos, .inr ⟨_, ⟨hspent, rfl⟩, (), by omega, .inr ⟨_, ⟨by omega, rfl⟩, (), by omega, .inr ⟨_,
      ⟨by omega, rfl⟩, (), by omega, .inr ⟨_, ⟨by omega, rfl⟩, ?_⟩⟩⟩⟩⟩
    rcases Nat.lt_or_ge ((w.vesting c.buyer).totalLocked + wk.tokens) (2 ^ 64) with hlocked | hlocked
    swap
    · exact .inl hlocked
    obtain ⟨hlamports, hrefers, hbonus⟩ := hover.resolve_left (by omega)
    obtain ⟨w₁, htr⟩ : ∃ w₁, systemTransfer w (.key c.buyer) (.solVault c.state) _ = .ok w₁ :=
      systemTransfer_covered hlamports
    refine .inr ⟨_, ⟨hlocked, rfl⟩, .inr ⟨w₁, htr, ?_⟩⟩
    obtain ⟨-, rfl⟩ := systemTransfer_ok htr
    exact (payReferral_mathOverflow_iff (by exact hroom)).2 ⟨hrefers, hbonus⟩

/-- A purchase within the wallet's and the presale's caps reports an overflow exactly where the offers of
the stages and the amount it brings do not fit 64 bits. -/
theorem presaleRun_buy_overflow_iff (h : PresaleRun ctx args w₁ tr w)
    (hfresh : ∀ stage ∈ args.stages, stage.tokensSoldInStage = 0) (hc : c.state = ctx.admin) :
    ∃ st, w.states ctx.admin = some st ∧
      ((w.vesting c.buyer).contributedLamports + solAmount ≤ st.maxContributionLamports →
        st.totalRaisedLamports + solAmount ≤ st.hardCapLamports →
        (buyTokens c solAmount referrer w ≠ .error (.presale .mathOverflow) ↔
          ∀ m v, c.tryAccounts w = .ok (st, m, v) → ¬ c.Overflows solAmount referrer w st m)) := by
  obtain ⟨st, hst, hsound⟩ := h.sound
  refine ⟨st, hst, ?_⟩
  intro hwallet hhard
  constructor
  · intro hne m v hacc ho
    obtain ⟨-, -, rfl⟩ := BuyTokens.tryAccounts_ok hacc
    exact hne ((hsound.overflow_iff h.accepted h.inRange hfresh hwallet hhard hacc).2 ho)
  · intro hno herr
    rcases hacc : c.tryAccounts w with e | ⟨st', m, v⟩
    · have hne := BuyTokens.tryAccounts_fails (P := (· ≠ .presale .mathOverflow)) (by simp) c w e hacc
      unfold buyTokens at herr
      rw [hacc] at herr
      exact hne (Except.error.inj herr)
    · obtain ⟨hst', -, rfl⟩ := BuyTokens.tryAccounts_ok hacc
      rw [hc, hst] at hst'; cases hst'
      exact hno m _ hacc ((hsound.overflow_iff h.accepted h.inRange hfresh hwallet hhard hacc).1 herr)

end

/-- The sample presale starts unsold. -/
theorem sampleArgs_fresh : ∀ stage ∈ (sampleArgs 10).stages, stage.tokensSoldInStage = 0 := by decide

/-- Half way, and no purchase is told otherwise. -/
theorem presaleRun_sold_out_sample : ∃ st,
    (play (sampleLaunched 10) [.wait 15, sampleBuy 3 500 none]).states 1 = some st ∧
    ((buyTokens ⟨1, 2, 100, .ata (.key 5) 100⟩ 10 none (play (sampleLaunched 10) [.wait 15, sampleBuy 3 500 none]) =
        .error (.presale .soldOut) ↔ st.tokensSold = st.tokensForSale) ↔
      ∃ stage ∈ st.stages, stage.tokensSoldInStage < stage.tokensAvailable) := by
  obtain ⟨st, hst, hiff, -⟩ := presaleRun_sold_out (c := ⟨1, 2, 100, .ata (.key 5) 100⟩) sampleSold_run sampleArgs_fresh rfl
  exact ⟨st, hst, hiff⟩

/-- Sixteen hundred lamports buy all that is for sale, and the next purchase is told of an invalid amount. -/
theorem buyTokens_hides_sold_out :
    PresaleRun sampleCtx (sampleArgs 10) (sampleLaunched 10)
      (steps (sampleLaunched 10) [.wait 15, sampleBuy 3 1600 none])
      (play (sampleLaunched 10) [.wait 15, sampleBuy 3 1600 none]) ∧
    (∃ st, (play (sampleLaunched 10) [.wait 15, sampleBuy 3 1600 none]).states 1 = some st ∧
      st.tokensSold = st.tokensForSale ∧ (∀ stage ∈ st.stages, stage.tokensSoldInStage = stage.tokensAvailable) ∧
      (st.isActive ∧ ¬ st.isPaused) ∧ st.startTime ≤ 15 ∧ 15 ≤ st.endTime) ∧
    (play (sampleLaunched 10) [.wait 15, sampleBuy 3 1600 none]).clock = 15 ∧
    buyTokens ⟨1, 2, 100, .ata (.key 5) 100⟩ 10 none (play (sampleLaunched 10) [.wait 15, sampleBuy 3 1600 none]) =
      .error (.presale .invalidTokenAmount) ∧
    buyTokens ⟨1, 2, 100, .ata (.key 5) 100⟩ 10 none (play (sampleLaunched 10) [.wait 15, sampleBuy 3 1600 none]) ≠
      .error (.presale .soldOut) := by
  have hstate : ∃ st, (play (sampleLaunched 10) [.wait 15, sampleBuy 3 1600 none]).states 1 = some st ∧
      st.tokensSold = st.tokensForSale ∧ (∀ stage ∈ st.stages, stage.tokensSoldInStage = stage.tokensAvailable) ∧
      (st.isActive ∧ ¬ st.isPaused) ∧ st.startTime ≤ 15 ∧ 15 ≤ st.endTime := by
    refine ⟨_, rfl, ?_⟩
    decide +kernel
  have hbuy : buyTokens ⟨1, 2, 100, .ata (.key 5) 100⟩ 10 none (play (sampleLaunched 10) [.wait 15, sampleBuy 3 1600 none]) =
      .error (.presale .invalidTokenAmount) :=
    exec_of_failure (c := .buyTokens ⟨1, 2, 100, .ata (.key 5) 100⟩ 10 none) (by decide +kernel)
  refine ⟨⟨⟨sampleWorld, [], sampleWorld, sampleWorld_genesis, .nil, .ok (by decide) (exec_of_play (by decide +kernel))⟩,
    play_run (by decide +kernel)⟩, hstate, by decide +kernel, hbuy, ?_⟩
  rw [hbuy]
  simp

/-- A purchase of ten lamports in the second stage is within the caps, and all its values fit. -/
theorem presaleRun_buy_overflow_iff_sample : ∃ st,
    (play (sampleLaunched 10) [.wait 15, sampleBuy 3 500 none]).states 1 = some st ∧
    (buyTokens ⟨1, 2, 100, .ata (.key 5) 100⟩ 10 none (play (sampleLaunched 10) [.wait 15, sampleBuy 3 500 none]) ≠
        .error (.presale .mathOverflow) ↔
      ∀ m v, BuyTokens.tryAccounts ⟨1, 2, 100, .ata (.key 5) 100⟩
          (play (sampleLaunched 10) [.wait 15, sampleBuy 3 500 none]) = .ok (st, m, v) →
        ¬ BuyTokens.Overflows ⟨1, 2, 100, .ata (.key 5) 100⟩ 10 none
          (play (sampleLaunched 10) [.wait 15, sampleBuy 3 500 none]) st m) := by
  have hcaps : ∀ st ∈ (play (sampleLaunched 10) [.wait 15, sampleBuy 3 500 none]).states 1,
      ((play (sampleLaunched 10) [.wait 15, sampleBuy 3 500 none]).vesting 2).contributedLamports + 10 ≤
          st.maxContributionLamports ∧ st.totalRaisedLamports + 10 ≤ st.hardCapLamports := by decide +kernel
  obtain ⟨st, hst, hiff⟩ :=
    presaleRun_buy_overflow_iff (c := ⟨1, 2, 100, .ata (.key 5) 100⟩) sampleSold_run sampleArgs_fresh rfl
  obtain ⟨hwallet, hhard⟩ := hcaps st hst
  exact ⟨st, hst, hiff hwallet hhard⟩

/-- A mint with nine decimals, and wallets with a thousand SOL each. -/
def nanoWorld : World :=
  blank (fun k => if k = 100 then some ⟨none, 9⟩ else none) (fun _ => none)
    (fun
      | .key k => if k ∈ ([1, 2, 3, 4, 5] : List Pubkey) then 1000000000000 else 0
      | _ => 0)

/-- A billion tokens, a thousand of them for a SOL; a hundred SOL at most, fifty of them a wallet. -/
def nanoArgs : InitializePresaleArgs :=
  { sampleArgs 10 with
    hardCap := 100000000000, maxContribution := 50000000000, tokensForSale := 1000000000000000000
    stages := [⟨1000000, 1000000000000000000, 0⟩] }

def nanoLaunched : World := play nanoWorld [.call (.initializePresale sampleCtx nanoArgs)]

/-- Twenty SOL are within the caps, and twenty thousand tokens for them are on offer; but they do not fit
64 bits in base units. -/
theorem buyTokens_overflows :
    PresaleRun sampleCtx nanoArgs nanoLaunched (steps nanoLaunched [.wait 15]) (play nanoLaunched [.wait 15]) ∧
    (∀ stage ∈ nanoArgs.stages, stage.tokensSoldInStage = 0) ∧
    (play nanoLaunched [.wait 15]).mints 100 = some ⟨none, 9⟩ ∧
    (∀ st ∈ (play nanoLaunched [.wait 15]).states 1,
      ((play nanoLaunched [.wait 15]).vesting 3).contributedLamports + 20000000000 ≤ st.maxContributionLamports ∧
        st.totalRaisedLamports + 20000000000 ≤ st.hardCapLamports) ∧
    buyTokens ⟨1, 3, 100, .ata (.key 5) 100⟩ 20000000000 none (play nanoLaunched [.wait 15]) =
      .error (.presale .mathOverflow) := by
  have hgenesis : Genesis nanoWorld := blank_genesis _ _ _
  have hbuy : buyTokens ⟨1, 3, 100, .ata (.key 5) 100⟩ 20000000000 none (play nanoLaunched [.wait 15]) =
      .error (.presale .mathOverflow) :=
    exec_of_failure (c := .buyTokens ⟨1, 3, 100, .ata (.key 5) 100⟩ 20000000000 none) (by decide +kernel)
  exact ⟨⟨⟨nanoWorld, [], nanoWorld, hgenesis, .nil, .ok (by decide) (exec_of_play (by decide +kernel))⟩,
    play_run (by decide +kernel)⟩, by decide, by decide +kernel, by decide +kernel, hbuy⟩

end Presale

/-
The order in which a presale sells its stages. The index a purchase leaves behind is that of the
first stage not sold out, or of the last stage: the stages before it are sold out and those after it
untouched, so the next purchase goes on where the last one stopped; and a purchase stops only where
its lamports buy no more.
-/
import Presale.Sale.Stages

namespace Presale

open World

/-! ## In order -/

/-- The stages `l`, launched as `l₀`, are sold up to the index: those before it are sold out, and those
after it are as they were. -/
structure InOrder (l₀ l : List PresaleStage) (idx : ℕ) : Prop where
  length : l.length = l₀.length
  before : ∀ i stage, i < idx → l[i]? = some stage → stage.tokensSoldInStage = stage.tokensAvailable
  after : ∀ i, idx < i → l[i]? = l₀[i]?

section
variable {l₀ l : List PresaleStage} {idx tokenUnit : ℕ} {stage stage' : PresaleStage} {s s' t : Walk}

theorem InOrder.start (l : List PresaleStage) : InOrder l l 0 :=
  ⟨rfl, fun _ _ h => absurd h (Nat.not_lt_zero _), fun _ _ => rfl⟩

/-- The index may go past a stage that is sold out. -/
theorem InOrder.skip (h : InOrder l₀ l idx) (hcur : l[idx]? = some stage)
    (hsold : stage.tokensSoldInStage = stage.tokensAvailable) : InOrder l₀ l (idx + 1) := by
  refine ⟨h.length, ?_, fun i hi => h.after i (by omega)⟩
  intro i x hi hx
  rcases Nat.lt_or_ge i idx with hlt | hge
  · exact h.before i x hlt hx
  · obtain rfl : i = idx := by omega
    rw [hcur] at hx; cases hx
    exact hsold

/-- The stage at the index may change. -/
theorem InOrder.set (h : InOrder l₀ l idx) (stage' : PresaleStage) : InOrder l₀ (l.set idx stage') idx := by
  refine ⟨List.length_set.trans h.length, ?_, ?_⟩
  · intro i x hi hx
    rw [List.getElem?_set_ne (by omega)] at hx
    exact h.before i x hi hx
  · intro i hi
    rw [List.getElem?_set_ne (by omega)]
    exact h.after i hi

/-- A pass that goes on sells in order. -/
theorem InOrder.pass (h : InOrder l₀ s.stages s.idx) (hp : stagePass tokenUnit s = .ok (.inl s')) :
    InOrder l₀ s'.stages s'.idx := by
  rcases stagePass_inl hp with ⟨stage, hcur, hsold, rfl⟩ | ⟨stage, bought, cost, hb⟩
  · exact h.skip hcur hsold.symm
  · have hset := h.set { stage with tokensSoldInStage := stage.tokensSoldInStage + bought }
    have hnew : (s.stages.set s.idx { stage with tokensSoldInStage := stage.tokensSoldInStage + bought })[s.idx]? =
        some { stage with tokensSoldInStage := stage.tokensSoldInStage + bought } :=
      List.getElem?_set_self (List.getElem?_eq_some_iff.1 hb.current).1
    have hle := hb.bought_le
    have := hb.unsold
    rw [hb.next]
    show InOrder l₀ _ (if _ then s.idx + 1 else s.idx)
    split
    · refine hset.skip hnew ?_
      show stage.tokensSoldInStage + bought = stage.tokensAvailable
      omega
    · exact hset

/-- The walk sells in order. -/
theorem InOrder.run (h : InOrder l₀ s.stages s.idx) (hr : (stageWalk tokenUnit).run s = .ok t) :
    InOrder l₀ t.stages t.idx := by
  refine (stageWalk tokenUnit).run_invariant (I := fun x => InOrder l₀ x.stages x.idx)
    (Q := fun x => InOrder l₀ x.stages x.idx) ?_ ?_ h hr
  · intro x x' hx hb
    exact hx.pass hb
  · intro x y hx hb
    obtain ⟨rfl, -⟩ := stagePass_inr hb
    exact hx

/-- The index of the last stage stands for that of no stage. -/
theorem InOrder.clamp (h : InOrder l₀ l idx) : InOrder l₀ l (min idx (l.length - 1)) := by
  refine ⟨h.length, fun i x hi => h.before i x (by omega), ?_⟩
  intro i hi
  rcases Nat.lt_or_ge idx i with hlt | hge
  · exact h.after i hlt
  · have hlen := h.length
    rw [List.getElem?_eq_none_iff.2 (by omega), List.getElem?_eq_none_iff.2 (by omega)]

/-- Lamports are left only when all stages are sold out, or when they afford nothing of the stage the
walk stopped at. -/
theorem walk_left (h : (stageWalk tokenUnit).run s = .ok t) : t.remainingSol = 0 ∨ t.stages.length ≤ t.idx ∨
    ∃ stage, t.stages[t.idx]? = some stage ∧ t.remainingSol * tokenUnit / stage.pricePerToken = 0 := by
  refine (stageWalk tokenUnit).run_invariant (I := fun _ => True) (Q := fun t => t.remainingSol = 0 ∨
    t.stages.length ≤ t.idx ∨ ∃ stage, t.stages[t.idx]? = some stage ∧
      t.remainingSol * tokenUnit / stage.pricePerToken = 0) (fun _ _ _ _ => trivial) ?_ trivial h
  rintro x y - hb
  obtain ⟨rfl, hzero | hend | ⟨stage, hcur, -, haff⟩⟩ := stagePass_inr hb
  · exact .inl hzero
  · exact .inr (.inl (List.getElem?_eq_none_iff.1 hend))
  · exact .inr (.inr ⟨stage, hcur, haff⟩)

end

/-! ## Runs in order -/

/-- The state of a presale with the stages `l₀` at its launch. -/
structure SellsInOrder (l₀ : List PresaleStage) (st : PresaleState) : Prop where
  order : InOrder l₀ st.stages st.currentStageIndex
  valid : st.currentStageIndex < st.stages.length

section
variable {ctx : InitializePresale} {args : InitializePresaleArgs} {w₁ w w' : World} {tr : List Transition}
  {st : PresaleState} {l₀ : List PresaleStage} {c : BuyTokens} {solAmount : ℕ} {referrer : Option Address} {m : Mint}
  {wk : Walk} {solUsed bonus : ℕ}

/-- With at most 256 stages the cast of the index to a byte does not change it. -/
theorem bought_stageIndex (hfew : wk.stages.length ≤ 256) :
    (st.bought wk solUsed bonus).currentStageIndex = min wk.idx (wk.stages.length - 1) := by
  show min wk.idx (wk.stages.length - 1) % 256 = _
  exact Nat.mod_eq_of_lt (by omega)

theorem SellsInOrder.buy (h : SellsInOrder l₀ st) (hfew : l₀.length ≤ 256)
    (hb : Bought c solAmount referrer w w' st m wk solUsed bonus) : SellsInOrder l₀ (st.bought wk solUsed bonus) := by
  have horder : InOrder l₀ wk.stages wk.idx := InOrder.run (s := st.walkFrom solAmount) h.order hb.walk
  have hlen := horder.length
  have hvalid := h.valid
  have := h.order.length
  have hindex : (st.bought wk solUsed bonus).currentStageIndex = _ := bought_stageIndex (by omega)
  constructor
  · rw [hindex]
    exact horder.clamp
  · rw [hindex]
    show _ < wk.stages.length
    omega

/-- A presale sells in order in every state of every run. -/
theorem PresaleRun.sellsInOrder (h : PresaleRun ctx args w₁ tr w) :
    ∃ st, w.states ctx.admin = some st ∧ SellsInOrder args.stages st := by
  have hstages := h.accepted.stages
  refine h.invariant (I := SellsInOrder args.stages) ⟨.start _, List.length_pos_of_ne_nil hstages.1⟩ ?_ ?_
  · intro c solAmount referrer w w' st m wk solUsed bonus hI hb
    exact hI.buy (by omega) hb
  · intro st active paused lock hI
    exact ⟨hI.order, hI.valid⟩

/-- Stages are sold in order and greedily: in every state of every run the index is that of a stage,
the stages before it are sold out and those after it are as at the launch; and a successful purchase
leaves lamports unspent only when all stages are sold out or the stage it stopped at has become too
expensive for them. -/
theorem presaleRun_in_order (h : PresaleRun ctx args w₁ tr w) :
    ∃ st, w.states ctx.admin = some st ∧ st.currentStageIndex < st.stages.length ∧
      InOrder args.stages st.stages st.currentStageIndex ∧
      ∀ c solAmount referrer w', c.state = ctx.admin → buyTokens c solAmount referrer w = .ok w' →
        ∃ st' m unspent, w'.states ctx.admin = some st' ∧ w.mints c.mint = some m ∧
          st'.totalRaisedLamports + unspent = st.totalRaisedLamports + solAmount ∧
          (0 < unspent → (∀ stage ∈ st'.stages, stage.tokensSoldInStage = stage.tokensAvailable) ∨
            ∃ stage, st'.stages[st'.currentStageIndex]? = some stage ∧
              unspent * 10 ^ m.decimals < stage.pricePerToken) := by
  obtain ⟨st, hst, hsells⟩ := h.sellsInOrder
  refine ⟨st, hst, hsells.valid, hsells.order, ?_⟩
  intro c solAmount referrer w' hc hok
  obtain ⟨st', m, wk, solUsed, bonus, hb⟩ := buyTokens_ok hok
  have hst' := hb.state
  rw [hc, hst] at hst'; cases hst'
  have hraised : (st.bought wk solUsed bonus).totalRaisedLamports + wk.remainingSol =
      st.totalRaisedLamports + solAmount := by
    have := hb.spent
    show st.totalRaisedLamports + solUsed + wk.remainingSol = _
    omega
  refine ⟨st.bought wk solUsed bonus, m, wk.remainingSol, by rw [hb.states, hc, Function.update_self], hb.mint, hraised, ?_⟩
  intro hleft
  have horder : InOrder args.stages wk.stages wk.idx := InOrder.run (s := st.walkFrom solAmount) hsells.order hb.walk
  have hlen := horder.length
  have hfew := h.accepted.stages.2
  rcases walk_left hb.walk with hzero | hend | ⟨stage, hcur, haff⟩
  · omega
  · left
    intro stage hs
    obtain ⟨i, hi⟩ := List.mem_iff_getElem?.1 hs
    have hlt : i < wk.stages.length := (List.getElem?_eq_some_iff.1 hi).1
    exact horder.before i stage (by omega) hi
  · right
    have hlt : wk.idx < wk.stages.length := (List.getElem?_eq_some_iff.1 hcur).1
    have hindex : (st.bought wk solUsed bonus).currentStageIndex = wk.idx := by
      rw [bought_stageIndex (by omega)]
      omega
    refine ⟨stage, by rw [hindex]; exact hcur, ?_⟩
    obtain ⟨st'', hst'', hcounted⟩ := h.counted
    rw [hst] at hst''; cases hst''
    have hgrown : StagesGrown args.stages wk.stages := (hcounted.buy hb).grown
    have hprice := hgrown.offered (p := fun price _ => 0 < price) (fun s hs => (h.accepted.priced s hs).1) stage
      (List.mem_of_getElem? hcur)
    exact (Nat.div_eq_zero_iff_lt hprice).1 haff

end

/-- Five hundred lamports buy out the first stage and stop in the second, whose tokens cost two lamports
each; of three more lamports one is left. -/
theorem presaleRun_in_order_sample :
    ∃ st st' : PresaleState, ∃ m : Mint, (play (sampleLaunched 10) [.wait 15, sampleBuy 3 500 none]).states 1 = some st ∧
      st.currentStageIndex < st.stages.length ∧ InOrder (sampleArgs 10).stages st.stages st.currentStageIndex ∧
      (play (sampleLaunched 10) [.wait 15, sampleBuy 3 500 none, sampleBuy 4 3 none]).states 1 = some st' ∧
      st'.totalRaisedLamports + 1 = st.totalRaisedLamports + 3 ∧
      ((∀ stage ∈ st'.stages, stage.tokensSoldInStage = stage.tokensAvailable) ∨
        ∃ stage, st'.stages[st'.currentStageIndex]? = some stage ∧ 1 * 10 ^ m.decimals < stage.pricePerToken) := by
  obtain ⟨st, hst, hvalid, horder, hgreedy⟩ := presaleRun_in_order sampleSold_run
  have hbuy : buyTokens ⟨1, 4, 100, .ata (.key 5) 100⟩ 3 none (play (sampleLaunched 10) [.wait 15, sampleBuy 3 500 none]) =
      .ok (play (sampleLaunched 10) [.wait 15, sampleBuy 3 500 none, sampleBuy 4 3 none]) :=
    exec_of_play (c := .buyTokens ⟨1, 4, 100, .ata (.key 5) 100⟩ 3 none) (by decide +kernel)
  obtain ⟨st', m, unspent, hst', -, hraised, hleft⟩ := hgreedy _ 3 none _ rfl hbuy
  have hone : unspent = 1 := by
    have h500 : ((play (sampleLaunched 10) [.wait 15, sampleBuy 3 500 none]).states 1).map (·.totalRaisedLamports) =
        some 500 := by decide +kernel
    have h502 : ((play (sampleLaunched 10) [.wait 15, sampleBuy 3 500 none, sampleBuy 4 3 none]).states 1).map
        (·.totalRaisedLamports) = some 502 := by decide +kernel
    rw [show sampleCtx.admin = 1 from rfl] at hst hst'
    rw [hst] at h500
    rw [hst'] at h502
    have hbefore : st.totalRaisedLamports = 500 := Option.some.inj h500
    have hafter : st'.totalRaisedLamports = 502 := Option.some.inj h502
    omega
  subst hone
  exact ⟨st, st', m, hst, hvalid, horder, hst', hraised, hleft (by decide)⟩

end Presale

/-
The stages' sold counters against the tokens sold. A launch takes the stages as the caller gives
them, sold counters included, and counts the tokens sold from zero: the counters agree in the states
of a presale exactly when the caller gave none of them a head start.
-/
import Presale.Program.Script
import Presale.Sale.Walk
import Presale.Steps.Sale

namespace Presale

open World

/-! ## Runs of a presale among others -/

/-- The presale of `ctx.admin` is launched in a run of the program: it starts in `w₁` and the steps
`tr`, of whatever presale, lead to `w`. -/
structure PresaleRun (ctx : InitializePresale) (args : InitializePresaleArgs) (w₁ : World) (tr : List Transition)
    (w : World) : Prop where
  launch : ∃ w₀ pre wₗ, Genesis w₀ ∧ Run w₀ pre wₗ ∧ Step wₗ (.ok (.initializePresale ctx args)) w₁
  run : Run w₁ tr w

/-- The stages of the presale launched as `st₀` have grown by what was sold since. -/
structure Counted (st₀ st : PresaleState) : Prop where
  grown : StagesGrown st₀.stages st.stages
  sold : soldInStages st.stages = soldInStages st₀.stages + st.tokensSold
  forSale : st.tokensForSale = st₀.tokensForSale

section
variable {ctx : InitializePresale} {args : InitializePresaleArgs} {w₁ w w' : World} {tr : List Transition}
  {st₀ st : PresaleState}

theorem Counted.buy {c : BuyTokens} {solAmount : ℕ} {referrer : Option Address} {m : Mint} {wk : Walk}
    {solUsed bonus : ℕ} (h : Counted st₀ st) (hb : Bought c solAmount referrer w w' st m wk solUsed bonus) :
    Counted st₀ (st.bought wk solUsed bonus) := by
  have hwalk : Walk.From st₀.stages (st.walkFrom solAmount) wk := Walk.From.run h.grown hb.walk
  refine ⟨hwalk.grown, ?_, h.forSale⟩
  have hsold := hwalk.sold
  have := h.sold
  simp only [PresaleState.walkFrom, PresaleState.bought] at hsold ⊢
  omega

theorem Counted.withFlags {active paused : Bool} {lock : ℤ} (h : Counted st₀ st) :
    Counted st₀ (st.withFlags active paused lock) :=
  ⟨h.grown, h.sold, h.forSale⟩

/-- A step keeps what purchases and flags keep of the state. -/
theorem StateStep.keeps {A : Pubkey} {l : Label} {I : PresaleState → Prop} (hs : StateStep A w l w')
    (hst : w.states A = some st) (hI : I st)
    (hbuy : ∀ {c : BuyTokens} {solAmount : ℕ} {referrer : Option Address} {w w' : World} {st : PresaleState} {m : Mint}
      {wk : Walk} {solUsed bonus : ℕ}, I st → Bought c solAmount referrer w w' st m wk solUsed bonus →
      I (st.bought wk solUsed bonus))
    (hflags : ∀ {st : PresaleState} {active paused : Bool} {lock : ℤ}, I st → I (st.withFlags active paused lock)) :
    ∃ st', w'.states A = some st' ∧ I st' := by
  cases hs with
  | launch hA hl => rw [← hA, hl.fresh] at hst; cases hst
  | buy hA hb =>
    rw [← hA, hb.state] at hst; cases hst
    exact ⟨_, by rw [hb.states, hA, Function.update_self], hbuy hI hb⟩
  | flags hset _ =>
    rw [hset.state] at hst; cases hst
    exact ⟨_, by rw [hset.states, Function.update_self], hflags hI⟩
  | kept hk => exact ⟨st, hk.trans hst, hI⟩

theorem PresaleRun.accepted (h : PresaleRun ctx args w₁ tr w) : args.Accepted w₁.clock := by
  obtain ⟨w₀, pre, wₗ, -, -, hstep⟩ := h.launch
  cases hstep with
  | ok _ hok =>
    have hl := initializePresale_ok hok
    rw [hl.clock]
    exact hl.accepted

/-- What holds of the state at the launch, and is kept by purchases and flags, holds in every state of
every run. -/
theorem PresaleRun.invariant {I : PresaleState → Prop} (h : PresaleRun ctx args w₁ tr w) (h0 : I (args.toState ctx))
    (hbuy : ∀ {c : BuyTokens} {solAmount : ℕ} {referrer : Option Address} {w w' : World} {st : PresaleState} {m : Mint}
      {wk : Walk} {solUsed bonus : ℕ}, I st → Bought c solAmount referrer w w' st m wk solUsed bonus →
      I (st.bought wk solUsed bonus))
    (hflags : ∀ {st : PresaleState} {active paused : Bool} {lock : ℤ}, I st → I (st.withFlags active paused lock)) :
    ∃ st, w.states ctx.admin = some st ∧ I st := by
  obtain ⟨w₀, pre, wₗ, hgenesis, hpre, hstep⟩ := h.launch
  have hown := hpre.owned hgenesis.owned
  have hown₁ := (hstep.frame hown).evolves.owned hown
  have hstart : ∃ st, w₁.states ctx.admin = some st ∧ I st := by
    cases hstep with
    | ok _ hok =>
      have hl := initializePresale_ok hok
      exact ⟨_, by rw [hl.states, Function.update_self], h0⟩
  refine (Runs.Run.preserves (I := fun w => Owned w.tokenAccounts ∧ ∃ st, w.states ctx.admin = some st ∧ I st) ?_ h.run
    ⟨hown₁, hstart⟩).2
  rintro s l t ⟨ho, st, hst, hI⟩ hs
  exact ⟨(hs.frame ho).evolves.owned ho, (hs.stateStep ho ctx.admin).keeps hst hI hbuy hflags⟩

/-- The stages are counted in every state of every run. -/
theorem PresaleRun.counted (h : PresaleRun ctx args w₁ tr w) :
    ∃ st, w.states ctx.admin = some st ∧ Counted (args.toState ctx) st :=
  h.invariant (I := Counted (args.toState ctx)) ⟨.refl _, rfl, rfl⟩ Counted.buy Counted.withFlags

end

/-! ## True counters -/

/-- The stages' counters tell the truth: no stage has sold more than it has, together they sold what
the presale sold, what they have left is what is left for sale, and no purchase finds a stage it
cannot subtract in. -/
structure CountersTrue (st : PresaleState) : Prop where
  within : ∀ stage ∈ st.stages, stage.tokensSoldInStage ≤ stage.tokensAvailable
  sold : (st.stages.map (·.tokensSoldInStage)).sum = st.tokensSold
  left : (st.stages.map fun stage => stage.tokensAvailable - stage.tokensSoldInStage).sum + st.tokensSold =
    st.tokensForSale
  subtracts : ∀ tokenUnit solAmount, ∀ s ∈ (stageWalk tokenUnit).visited (st.walkFrom solAmount),
    ∀ stage ∈ s.stages[s.idx]?, ∃ left, checkedSub stage.tokensAvailable stage.tokensSoldInStage = .ok left

/-- A walk over stages within their supply stays within it. -/
theorem StagesWithin.visited {tokenUnit : ℕ} {s : Walk} (h : StagesWithin s.stages) :
    ∀ x ∈ (stageWalk tokenUnit).visited s, StagesWithin x.stages := by
  intro x hx
  have hfrom : Walk.From s.stages s x := by
    refine (stageWalk tokenUnit).visited_invariant (I := Walk.From s.stages s) ?_ ⟨.refl _, rfl, le_rfl⟩ x hx
    intro a b ha hb
    exact ha.pass hb
  exact hfrom.grown.stagesWithin h

section
variable {ctx : InitializePresale} {args : InitializePresaleArgs} {w₁ w : World} {tr : List Transition}

/-- In every state of every run of a presale the stage counters tell the truth if and only if the
presale was launched with stages none of which had sold anything. -/
theorem stage_counters_iff (h : PresaleRun ctx args w₁ tr w) :
    ∃ st, w.states ctx.admin = some st ∧ (CountersTrue st ↔ ∀ stage ∈ args.stages, stage.tokensSoldInStage = 0) := by
  obtain ⟨st, hst, hc⟩ := h.counted
  have hsold : soldInStages st.stages = soldInStages args.stages + st.tokensSold := hc.sold
  refine ⟨st, hst, ?_, ?_⟩
  · intro ht
    have htrue : soldInStages st.stages = st.tokensSold := ht.sold
    have hzero : soldInStages args.stages = 0 := by omega
    intro stage hs
    exact List.sum_eq_zero_iff_forall_eq_nat.1 hzero _ (List.mem_map_of_mem hs)
  · intro hfresh
    have hzero : soldInStages args.stages = 0 := List.sum_eq_zero (by simpa using hfresh)
    have hwithin : StagesWithin st.stages :=
      hc.grown.stagesWithin fun stage hs => by rw [hfresh stage hs]; exact Nat.zero_le _
    refine ⟨hwithin, by unfold soldInStages at hsold hzero; omega, ?_, ?_⟩
    · have hleft := hwithin.left_add_sold
      have hsupply : (st.stages.map (·.tokensAvailable)).sum = (args.stages.map (·.tokensAvailable)).sum :=
        hc.grown.supply
      have := h.accepted.supply
      have hsale : st.tokensForSale = args.tokensForSale := hc.forSale
      omega
    · intro tokenUnit solAmount s hs stage hcur
      have hin := StagesWithin.visited (s := st.walkFrom solAmount) hwithin s hs stage (List.mem_of_getElem? hcur)
      exact ⟨_, Checked.okOr_eq_ok.2 (Checked.sub_eq_some.2 ⟨hin, rfl⟩)⟩

end

theorem sampleSold_run : PresaleRun sampleCtx (sampleArgs 10) (sampleLaunched 10)
    (steps (sampleLaunched 10) [.wait 15, sampleBuy 3 500 none])
    (play (sampleLaunched 10) [.wait 15, sampleBuy 3 500 none]) :=
  ⟨⟨sampleWorld, [], sampleWorld, sampleWorld_genesis, .nil, .ok (by decide) (exec_of_play (by decide +kernel))⟩,
    play_run (by decide +kernel)⟩

theorem stage_counters_iff_sample :
    ∃ st, (play (sampleLaunched 10) [.wait 15, sampleBuy 3 500 none]).states sampleCtx.admin = some st ∧
      (CountersTrue st ↔ ∀ stage ∈ (sampleArgs 10).stages, stage.tokensSoldInStage = 0) :=
  stage_counters_iff sampleSold_run

/-- One stage of a thousand tokens, given with more sold than it has. -/
def oversoldArgs : InitializePresaleArgs := { sampleArgs 10 with stages := [⟨1, 1000, 1001⟩] }

/-- The launch is accepted; the stage has sold more than it has while the presale has sold nothing,
and a purchase fails in the subtraction. -/
theorem stage_counters_oversold :
    PresaleRun sampleCtx oversoldArgs (play sampleWorld [.call (.initializePresale sampleCtx oversoldArgs)])
      (steps (play sampleWorld [.call (.initializePresale sampleCtx oversoldArgs)]) [.wait 15])
      (play (play sampleWorld [.call (.initializePresale sampleCtx oversoldArgs)]) [.wait 15]) ∧
    (∃ st, (play (play sampleWorld [.call (.initializePresale sampleCtx oversoldArgs)]) [.wait 15]).states 1 = some st ∧
      ¬ (∀ stage ∈ st.stages, stage.tokensSoldInStage ≤ stage.tokensAvailable) ∧
      (st.stages.map (·.tokensSoldInStage)).sum ≠ st.tokensSold) ∧
    exec (.buyTokens ⟨1, 3, 100, .ata (.key 5) 100⟩ 10 none)
        (play (play sampleWorld [.call (.initializePresale sampleCtx oversoldArgs)]) [.wait 15]) =
      .error (.presale .mathOverflow) :=
  ⟨⟨⟨sampleWorld, [], sampleWorld, sampleWorld_genesis, .nil, .ok (by decide) (exec_of_play (by decide +kernel))⟩,
      play_run (by decide +kernel)⟩,
    ⟨oversoldArgs.toState sampleCtx, by decide +kernel, by decide +kernel, by decide +kernel⟩,
    exec_of_failure (by decide +kernel)⟩

end Presale

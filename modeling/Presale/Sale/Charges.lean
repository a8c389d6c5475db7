/-
What the stage walk of `buy_tokens` charges for the tokens it takes from each stage: never more than
the stage's price, and in total what the buyer pays and every counter grows by. One purchase in a
stage is short of the stage's price by less than a lamport; the walk comes back to a stage it has not
sold out, and a second purchase there leaves a whole lamport or more unpaid. So the stages are paid
exactly when no stage is bought from twice.
-/
import Presale.Effects.Investor
import Presale.Lib.Price
import Presale.Program.Script
import Presale.Steps.Sale

namespace Presale

open World

/-! ## What the passes take and charge -/

/-- The base units the passes took from stage `i`. -/
def takenFrom (i : ℕ) (passes : List (Walk × Walk)) : ℕ :=
  (passes.map fun p => if p.1.idx = i then p.2.tokens - p.1.tokens else 0).sum

/-- The lamports the passes charged for stage `i`. -/
def chargedFor (i : ℕ) (passes : List (Walk × Walk)) : ℕ :=
  (passes.map fun p => if p.1.idx = i then p.1.remainingSol - p.2.remainingSol else 0).sum

/-- Every stage the passes took from is paid at its price, up to less than one lamport. -/
def StagesPaid (tokenUnit : ℕ) (stages : List PresaleStage) (passes : List (Walk × Walk)) : Prop :=
  ∀ i stage, stages[i]? = some stage → 0 < takenFrom i passes →
    takenFrom i passes * stage.pricePerToken < (chargedFor i passes + 1) * tokenUnit

section
variable {tokenUnit i bought cost : ℕ} {s s' t : Walk} {stage : PresaleStage} {p : Walk × Walk}
  {passes : List (Walk × Walk)}

theorem takenFrom_cons : takenFrom i (p :: passes) =
    (if p.1.idx = i then p.2.tokens - p.1.tokens else 0) + takenFrom i passes := by
  simp only [takenFrom, List.map_cons, List.sum_cons]

theorem chargedFor_cons : chargedFor i (p :: passes) =
    (if p.1.idx = i then p.1.remainingSol - p.2.remainingSol else 0) + chargedFor i passes := by
  simp only [chargedFor, List.map_cons, List.sum_cons]

theorem BuyPass.took (h : BuyPass tokenUnit s s' stage bought cost) : s'.tokens - s.tokens = bought := by
  rw [h.next]; exact Nat.add_sub_cancel_left _ _

theorem BuyPass.charged (h : BuyPass tokenUnit s s' stage bought cost) : s.remainingSol - s'.remainingSol = cost := by
  rw [h.next]; exact Nat.sub_sub_self h.costLe

theorem BuyPass.bought_pos (h : BuyPass tokenUnit s s' stage bought cost) : 0 < bought := by
  have := h.affordable
  have := h.unsold
  rw [h.boughtEq]; omega

/-- A pass does not go back. -/
theorem stagePass_idx_le (h : stagePass tokenUnit s = .ok (.inl s')) : s.idx ≤ s'.idx := by
  rcases stagePass_inl h with ⟨_, _, _, rfl⟩ | ⟨stage, bought, cost, hb⟩
  · exact Nat.le_succ _
  · rw [hb.next]
    show s.idx ≤ if _ then s.idx + 1 else s.idx
    split
    · exact Nat.le_succ _
    · exact le_rfl

theorem history_idx_le : ∀ p ∈ (stageWalk tokenUnit).history s, s.idx ≤ p.1.idx := by
  intro p hp
  refine ((stageWalk tokenUnit).history_invariant (I := fun x => s.idx ≤ x.idx) ?_ le_rfl p hp).1
  intro x x' hx hb
  exact hx.trans (stagePass_idx_le hb)

/-- What is summed over the passes in a stage behind the walk is zero: there are none. -/
theorem sum_behind (f : Walk × Walk → ℕ) (h : i < s.idx) :
    (((stageWalk tokenUnit).history s).map fun p => if p.1.idx = i then f p else 0).sum = 0 := by
  refine List.sum_eq_zero fun x hx => ?_
  obtain ⟨p, hp, rfl⟩ := List.mem_map.1 hx
  have := history_idx_le p hp
  exact if_neg (by omega)

theorem takenFrom_behind (h : i < s.idx) : takenFrom i ((stageWalk tokenUnit).history s) = 0 := sum_behind _ h

theorem chargedFor_behind (h : i < s.idx) : chargedFor i ((stageWalk tokenUnit).history s) = 0 := sum_behind _ h

/-- A pass leaves the prices. -/
theorem stagePass_price (h : stagePass tokenUnit s = .ok (.inl s')) :
    s'.stages[i]?.map (·.pricePerToken) = s.stages[i]?.map (·.pricePerToken) := by
  rcases stagePass_inl h with ⟨_, _, _, rfl⟩ | ⟨stage, bought, cost, hb⟩
  · rfl
  · rw [hb.next]
    show (s.stages.set s.idx _)[i]?.map _ = _
    by_cases hi : s.idx = i
    · subst hi
      rw [List.getElem?_set_self (List.getElem?_eq_some_iff.1 hb.current).1, hb.current]
      rfl
    · rw [List.getElem?_set_ne hi]

/-- No pass charges more than the price. -/
theorem chargedFor_mul_le (h : s.stages[i]? = some stage) :
    chargedFor i ((stageWalk tokenUnit).history s) * tokenUnit ≤
      takenFrom i ((stageWalk tokenUnit).history s) * stage.pricePerToken := by
  have hpasses : ∀ p ∈ (stageWalk tokenUnit).history s,
      p.1.stages[i]?.map (·.pricePerToken) = some stage.pricePerToken ∧
        stagePass tokenUnit p.1 = .ok (.inl p.2) := by
    refine (stageWalk tokenUnit).history_invariant
      (I := fun x => x.stages[i]?.map (·.pricePerToken) = some stage.pricePerToken) ?_ (by rw [h]; rfl)
    intro x x' hx hb
    exact (stagePass_price hb).trans hx
  simp only [chargedFor, takenFrom, ← List.sum_map_mul_right]
  refine List.sum_le_sum fun p hp => ?_
  obtain ⟨hprice, hb⟩ := hpasses p hp
  split
  · rename_i hi
    rcases stagePass_inl hb with ⟨_, _, _, hskip⟩ | ⟨stage', bought, cost, hbuy⟩
    · rw [hskip]
      simp
    · have hcur := hbuy.current
      rw [hi] at hcur
      rw [hcur] at hprice
      simp only [Option.map_some, Option.some.injEq] at hprice
      rw [hbuy.took, hbuy.charged, hbuy.costEq, ← hprice]
      exact Price.cost_mul_le tokenUnit stage'.pricePerToken bought
  · simp

end

/-! ## The totals -/

section
variable {tokenUnit : ℕ} {s s' t : Walk}

/-- What is summed stage by stage is summed over all passes. -/
theorem sum_stages {n : ℕ} (f : Walk × Walk → ℕ) : ∀ {passes : List (Walk × Walk)}, (∀ p ∈ passes, p.1.idx < n) →
    ∑ i ∈ Finset.range n, (passes.map fun p => if p.1.idx = i then f p else 0).sum = (passes.map f).sum
  | [], _ => by simp
  | p :: passes, h => by
    have hrest := sum_stages f fun x hx => h x (List.mem_cons_of_mem _ hx)
    have hfirst : p.1.idx ∈ Finset.range n := Finset.mem_range.2 (h p List.mem_cons_self)
    simp only [List.map_cons, List.sum_cons]
    rw [Finset.sum_add_distrib, hrest, Finset.sum_ite_eq, if_pos hfirst]

/-- Every pass is in one of the stages. -/
theorem history_idx_lt : ∀ p ∈ (stageWalk tokenUnit).history s, p.1.idx < s.stages.length := by
  intro p hp
  obtain ⟨hlen, hb⟩ := (stageWalk tokenUnit).history_invariant (I := fun x => x.stages.length = s.stages.length)
    (fun x x' hx hb => by
      rcases stagePass_inl hb with ⟨_, _, _, rfl⟩ | ⟨stage, bought, cost, hbuy⟩
      · exact hx
      · rw [hbuy.next, ← hx]
        exact List.length_set) rfl p hp
  rw [← hlen]
  rcases stagePass_inl hb with ⟨stage, hcur, _, _⟩ | ⟨stage, bought, cost, hbuy⟩
  · exact (List.getElem?_eq_some_iff.1 hcur).1
  · exact (List.getElem?_eq_some_iff.1 hbuy.current).1

/-- The tokens the walk counted are those taken from the stages. -/
theorem sum_takenFrom (h : (stageWalk tokenUnit).run s = .ok t) :
    t.tokens = s.tokens + ∑ i ∈ Finset.range s.stages.length, takenFrom i ((stageWalk tokenUnit).history s) := by
  have htotal := (stageWalk tokenUnit).sum_history (f := fun x => x.tokens) (g := fun p => p.2.tokens - p.1.tokens) ?_ ?_ h
  · simp only [takenFrom]
    rw [sum_stages _ history_idx_lt]
    exact_mod_cast htotal
  · intro x x' hb
    rcases stagePass_inl hb with ⟨_, _, _, rfl⟩ | ⟨stage, bought, cost, hbuy⟩
    · simp
    · show (x'.tokens : ℤ) = x.tokens + ((x'.tokens - x.tokens : ℕ) : ℤ)
      rw [hbuy.took, hbuy.next]
      exact Nat.cast_add _ _
  · intro x y hb
    rw [(stagePass_inr hb).1]

/-- The lamports the walk spent are those charged for the stages. -/
theorem sum_chargedFor (h : (stageWalk tokenUnit).run s = .ok t) : s.remainingSol =
    t.remainingSol + ∑ i ∈ Finset.range s.stages.length, chargedFor i ((stageWalk tokenUnit).history s) := by
  have htotal := (stageWalk tokenUnit).sum_history (f := fun x => -x.remainingSol)
    (g := fun p => p.1.remainingSol - p.2.remainingSol) ?_ ?_ h
  · simp only [chargedFor]
    rw [sum_stages _ history_idx_lt]
    omega
  · intro x x' hb
    rcases stagePass_inl hb with ⟨_, _, _, rfl⟩ | ⟨stage, bought, cost, hbuy⟩
    · simp
    · show -(x'.remainingSol : ℤ) = -x.remainingSol + ((x.remainingSol - x'.remainingSol : ℕ) : ℤ)
      have := hbuy.costLe
      rw [hbuy.charged, hbuy.next]
      push_cast
      omega
  · intro x y hb
    rw [(stagePass_inr hb).1]

end

/-- No purchase is charged more than the prices of what it takes, stage by stage; and what the stages
gave and charged is what every counter grows by and what the vault receives, within the amount offered. -/
theorem buyTokens_totals {ctx : BuyTokens} {solAmount : ℕ} {referrer : Option Address} {w w' : World}
    {st : PresaleState} {m : Mint} {passes : List (Walk × Walk)} (h : buyTokens ctx solAmount referrer w = .ok w')
    (hst : w.states ctx.state = some st) (hm : w.mints ctx.mint = some m)
    (hpasses : passes = (stageWalk (10 ^ m.decimals)).history (st.walkFrom solAmount)) :
    (∀ i stage, st.stages[i]? = some stage →
      chargedFor i passes * 10 ^ m.decimals ≤ takenFrom i passes * stage.pricePerToken) ∧
    ∃ st' taken charged, w'.states ctx.state = some st' ∧
      taken = ∑ i ∈ Finset.range st.stages.length, takenFrom i passes ∧
      charged = ∑ i ∈ Finset.range st.stages.length, chargedFor i passes ∧ charged ≤ solAmount ∧
      w'.lamports (.solVault ctx.state) = w.lamports (.solVault ctx.state) + charged ∧
      (w'.vesting ctx.buyer).contributedLamports = (w.vesting ctx.buyer).contributedLamports + charged ∧
      st'.totalRaisedLamports = st.totalRaisedLamports + charged ∧
      (w'.vesting ctx.buyer).totalLocked = (w.vesting ctx.buyer).totalLocked + taken ∧
      st'.tokensSold = st.tokensSold + taken := by
  subst hpasses
  obtain ⟨st', m', wk, solUsed, bonus, hb⟩ := buyTokens_ok h
  rw [hb.state] at hst; cases hst
  rw [hb.mint] at hm; cases hm
  have htaken : wk.tokens = _ := sum_takenFrom hb.walk
  have hcharged : solAmount = wk.remainingSol + _ := sum_chargedFor hb.walk
  have hused : solUsed = ∑ i ∈ Finset.range st.stages.length,
      chargedFor i ((stageWalk (10 ^ m.decimals)).history (st.walkFrom solAmount)) := by
    have := hb.spent.2.1
    simp only [PresaleState.walkFrom] at hcharged ⊢
    omega
  have hvault : w'.lamports (.solVault ctx.state) = w.lamports (.solVault ctx.state) + solUsed := by
    rw [hb.lamports]
    exact movedLamports_target _ _ (by simp)
  refine ⟨fun i stage hi => chargedFor_mul_le hi, _, wk.tokens, solUsed, by rw [hb.states, Function.update_self],
    by simpa [PresaleState.walkFrom] using htaken, hused, by have := hb.spent.2.1; omega, hvault, ?_, rfl, ?_, rfl⟩
  · rw [vesting_update hb.vestings, Function.update_self]
    rfl
  · rw [vesting_update hb.vestings, Function.update_self]
    rfl

/-- Five hundred lamports buy out the first stage for four hundred and take fifty tokens of the second
for the rest. -/
theorem buyTokens_totals_sample : ∃ st',
    (play (sampleLaunched 10) [.wait 15, sampleBuy 3 500 none]).states 1 = some st' ∧
    (play (sampleLaunched 10) [.wait 15, sampleBuy 3 500 none]).lamports (.solVault 1) = rentMinimum + 500 ∧
    ((play (sampleLaunched 10) [.wait 15, sampleBuy 3 500 none]).vesting 3).contributedLamports = 500 ∧
    st'.totalRaisedLamports = 500 ∧
    ((play (sampleLaunched 10) [.wait 15, sampleBuy 3 500 none]).vesting 3).totalLocked = 450 ∧ st'.tokensSold = 450 ∧
    chargedFor 0 ((stageWalk (10 ^ 0)).history (((sampleArgs 10).toState sampleCtx).walkFrom 500)) * 10 ^ 0 ≤
      takenFrom 0 ((stageWalk (10 ^ 0)).history (((sampleArgs 10).toState sampleCtx).walkFrom 500)) * 1 := by
  have hbuy : buyTokens ⟨1, 3, 100, .ata (.key 5) 100⟩ 500 none (play (sampleLaunched 10) [.wait 15]) =
      .ok (play (sampleLaunched 10) [.wait 15, sampleBuy 3 500 none]) :=
    exec_of_play (c := .buyTokens ⟨1, 3, 100, .ata (.key 5) 100⟩ 500 none) (by decide +kernel)
  have hstate : (play (sampleLaunched 10) [.wait 15]).states 1 = some ((sampleArgs 10).toState sampleCtx) := by
    decide +kernel
  have hmint : (play (sampleLaunched 10) [.wait 15]).mints 100 = some ⟨none, 0⟩ := by decide +kernel
  obtain ⟨hpaid, st', taken, charged, hst', htaken, hcharged, -, hvault, hcontributed, hraised, hlocked, hsold⟩ :=
    buyTokens_totals hbuy hstate hmint rfl
  obtain rfl : taken = 450 := by rw [htaken]; decide +kernel
  obtain rfl : charged = 500 := by rw [hcharged]; decide +kernel
  have hnew : (play (sampleLaunched 10) [.wait 15]).vesting 3 = {} := by decide +kernel
  have hrent : (play (sampleLaunched 10) [.wait 15]).lamports (.solVault 1) = rentMinimum := by decide +kernel
  refine ⟨st', hst', hvault.trans ?_, hcontributed.trans ?_, hraised, hlocked.trans ?_, hsold, hpaid 0 ⟨1, 400, 0⟩ rfl⟩
  · rw [hrent]
  · rw [hnew]
  · rw [hnew]

/-! ## One purchase a stage -/

/-- A purchase of `sol` lamports that starts at the first of the stages buys from each of them once
at most: where the lamports do not sell a stage out, what its purchase leaves of them affords no
further base unit of the stage. -/
def OnePass (tokenUnit : ℕ) : List PresaleStage → ℕ → Prop
  | [], _ => True
  | stage :: rest, sol =>
    let left := stage.tokensAvailable - stage.tokensSoldInStage
    let affordable := Price.afford tokenUnit stage.pricePerToken sol
    if left = 0 then OnePass tokenUnit rest sol
    else if left ≤ affordable then OnePass tokenUnit rest (sol - Price.cost tokenUnit stage.pricePerToken left)
    else Price.afford tokenUnit stage.pricePerToken (sol - Price.cost tokenUnit stage.pricePerToken affordable) = 0

section
variable {tokenUnit bought cost sol : ℕ} {s s' t : Walk} {stage : PresaleStage} {rest : List PresaleStage}

theorem onePass_skip (h : stage.tokensAvailable - stage.tokensSoldInStage = 0) :
    OnePass tokenUnit (stage :: rest) sol ↔ OnePass tokenUnit rest sol := by
  rw [OnePass]
  exact iff_of_eq (if_pos h)

theorem onePass_soldOut (h : stage.tokensSoldInStage < stage.tokensAvailable)
    (hall : stage.tokensAvailable - stage.tokensSoldInStage ≤ Price.afford tokenUnit stage.pricePerToken sol) :
    OnePass tokenUnit (stage :: rest) sol ↔ OnePass tokenUnit rest
      (sol - Price.cost tokenUnit stage.pricePerToken (stage.tokensAvailable - stage.tokensSoldInStage)) := by
  rw [OnePass]
  exact iff_of_eq ((if_neg (by omega)).trans (if_pos hall))

theorem onePass_partly (h : Price.afford tokenUnit stage.pricePerToken sol <
      stage.tokensAvailable - stage.tokensSoldInStage) :
    OnePass tokenUnit (stage :: rest) sol ↔ Price.afford tokenUnit stage.pricePerToken
      (sol - Price.cost tokenUnit stage.pricePerToken (Price.afford tokenUnit stage.pricePerToken sol)) = 0 := by
  rw [OnePass]
  exact iff_of_eq ((if_neg (by omega)).trans (if_neg (by omega)))

/-- Nothing is bought without lamports. -/
theorem onePass_zero : ∀ stages : List PresaleStage, OnePass tokenUnit stages 0
  | [] => trivial
  | stage :: rest => by
    rcases Nat.eq_zero_or_pos (stage.tokensAvailable - stage.tokensSoldInStage) with h | h
    · exact (onePass_skip h).2 (onePass_zero rest)
    · have hzero : Price.afford tokenUnit stage.pricePerToken 0 = 0 := by simp [Price.afford]
      refine (onePass_partly (by omega)).2 ?_
      rw [Nat.zero_sub, hzero]

/-- What the walk sees from its index on. -/
theorem drop_current (h : s.stages[s.idx]? = some stage) :
    s.stages.drop s.idx = stage :: s.stages.drop (s.idx + 1) := by
  obtain ⟨hlt, rfl⟩ := List.getElem?_eq_some_iff.1 h
  exact List.drop_eq_getElem_cons hlt

/-- Where the walk leaves the loop there is no purchase to come. -/
theorem onePass_exit (h : stagePass tokenUnit s = .ok (.inr t)) :
    OnePass tokenUnit (s.stages.drop s.idx) s.remainingSol := by
  obtain ⟨-, hzero | hend | ⟨stage, hcur, hleft, haff⟩⟩ := stagePass_inr h
  · rw [hzero]; exact onePass_zero _
  · rw [List.drop_eq_nil_iff.2 (List.getElem?_eq_none_iff.1 hend)]
    exact trivial
  · have haff' : Price.afford tokenUnit stage.pricePerToken s.remainingSol = 0 := haff
    rw [drop_current hcur]
    refine (onePass_partly (by omega)).2 ?_
    rw [haff', show Price.cost tokenUnit stage.pricePerToken 0 = 0 by simp [Price.cost], Nat.sub_zero, haff']

theorem stagesPaid_nil {stages : List PresaleStage} : StagesPaid tokenUnit stages [] := by
  intro i stage _ h
  simp [takenFrom] at h

/-- A pass that takes nothing changes nothing about what is paid. -/
theorem stagesPaid_skip {stages : List PresaleStage} {passes : List (Walk × Walk)} {i : ℕ} :
    StagesPaid tokenUnit stages ((s, { s with idx := i }) :: passes) ↔ StagesPaid tokenUnit stages passes := by
  simp only [StagesPaid, takenFrom_cons, chargedFor_cons, Nat.sub_self, ite_self, Nat.zero_add]

/-- The first purchase in a stage goes before what the rest of the walk takes there. -/
theorem BuyPass.takes (h : BuyPass tokenUnit s s' stage bought cost) (passes : List (Walk × Walk)) :
    takenFrom s.idx ((s, s') :: passes) = bought + takenFrom s.idx passes ∧
      chargedFor s.idx ((s, s') :: passes) = cost + chargedFor s.idx passes := by
  rw [takenFrom_cons, chargedFor_cons, if_pos rfl, if_pos rfl, h.took, h.charged]
  exact ⟨rfl, rfl⟩

theorem BuyPass.lt_cost (h : BuyPass tokenUnit s s' stage bought cost) (hu : 0 < tokenUnit) :
    bought * stage.pricePerToken < (cost + 1) * tokenUnit := by
  rw [h.costEq]
  exact Price.lt_cost_mul hu

/-- A purchase that is the only one in its stage leaves the stage paid, so the other passes decide. -/
theorem BuyPass.stagesPaid_cons (h : BuyPass tokenUnit s s' stage bought cost) (hu : 0 < tokenUnit)
    {passes : List (Walk × Walk)} (htaken : takenFrom s.idx passes = 0)
    (hcharged : chargedFor s.idx passes = 0) :
    StagesPaid tokenUnit s.stages ((s, s') :: passes) ↔ StagesPaid tokenUnit s'.stages passes := by
  have hother : ∀ i, s.idx ≠ i → s'.stages[i]? = s.stages[i]? := by
    intro i hi
    rw [h.next]
    exact List.getElem?_set_ne hi
  constructor
  · intro hp i stage' hs hpos
    have hi : s.idx ≠ i := by rintro rfl; omega
    have := hp i stage' (hother i hi ▸ hs)
    rw [takenFrom_cons, chargedFor_cons, if_neg hi, if_neg hi, Nat.zero_add, Nat.zero_add] at this
    exact this hpos
  · intro hp i stage' hs hpos
    by_cases hi : s.idx = i
    · subst hi
      rw [h.current] at hs
      cases hs
      rw [(h.takes _).1, (h.takes _).2, htaken, hcharged]
      exact h.lt_cost hu
    · rw [takenFrom_cons, chargedFor_cons, if_neg hi, if_neg hi, Nat.zero_add, Nat.zero_add] at *
      exact hp i stage' ((hother i hi).trans hs) hpos

/-- Where the walk is after a purchase that did not sell its stage out. -/
theorem BuyPass.stays (h : BuyPass tokenUnit s s' stage bought cost)
    (hpart : stage.tokensSoldInStage + bought < stage.tokensAvailable) :
    s'.idx = s.idx ∧
      s'.stages[s'.idx]? = some { stage with tokensSoldInStage := stage.tokensSoldInStage + bought } := by
  have hidx : s'.idx = s.idx := by rw [h.next]; exact if_neg (by omega)
  refine ⟨hidx, ?_⟩
  rw [hidx, h.next]
  exact List.getElem?_set_self (List.getElem?_eq_some_iff.1 h.current).1

theorem BuyPass.bought_partly (h : BuyPass tokenUnit s s' stage bought cost)
    (hpart : stage.tokensSoldInStage + bought < stage.tokensAvailable) :
    bought = Price.afford tokenUnit stage.pricePerToken s.remainingSol := by
  have hmin : bought = min (Price.afford tokenUnit stage.pricePerToken s.remainingSol) _ := h.boughtEq
  omega

/-- What a purchase leaves to spend. -/
theorem BuyPass.leaves (h : BuyPass tokenUnit s s' stage bought cost) :
    s'.remainingSol = s.remainingSol - Price.cost tokenUnit stage.pricePerToken bought := by
  rw [h.next, show cost = Price.cost tokenUnit stage.pricePerToken bought from h.costEq]

/-- A second purchase in a stage leaves it unpaid, whatever the walk does after it. -/
theorem BuyPass.unpaid {bought₂ cost₂ : ℕ} {s'' : Walk} {stage' : PresaleStage}
    (h : BuyPass tokenUnit s s' stage bought cost) (hu : 0 < tokenUnit)
    (hpart : stage.tokensSoldInStage + bought < stage.tokensAvailable)
    (hpass : stagePass tokenUnit s' = .ok (.inl s''))
    (h' : BuyPass tokenUnit s' s'' stage' bought₂ cost₂) :
    ¬ StagesPaid tokenUnit s.stages ((s, s') :: (s', s'') :: (stageWalk tokenUnit).history s'') := by
  intro hp
  obtain ⟨hidx, hcur⟩ := h.stays hpart
  have hprice : stage'.pricePerToken = stage.pricePerToken := by
    rw [h'.current] at hcur; cases hcur; rfl
  -- what the two purchases took and charged
  have hcost : cost = Price.cost tokenUnit stage.pricePerToken bought := h.costEq
  have hcost₂ : cost₂ = Price.cost tokenUnit stage.pricePerToken bought₂ := by
    rw [← hprice]; exact h'.costEq
  have hle : bought₂ ≤ Price.afford tokenUnit stage.pricePerToken s'.remainingSol := by
    rw [← hprice, h'.boughtEq]
    exact Nat.min_le_left _ _
  have htwo := Price.second_purchase h.price hu h'.bought_pos (by rw [← h.bought_partly hpart, ← h.leaves]; exact hle)
  rw [← h.bought_partly hpart, ← hcost, ← hcost₂] at htwo
  -- the passes after them charge no more than the price
  have hrest : chargedFor s.idx ((stageWalk tokenUnit).history s'') * tokenUnit ≤
      takenFrom s.idx ((stageWalk tokenUnit).history s'') * stage.pricePerToken := by
    have hmap := stagePass_price (i := s.idx) hpass
    rw [← hidx, h'.current, Option.map_some] at hmap
    obtain ⟨stage'', hcur'', hprice'⟩ := Option.map_eq_some_iff.1 hmap
    rw [← hprice, ← hprice', ← hidx]
    exact chargedFor_mul_le hcur''
  have htail := h'.takes ((stageWalk tokenUnit).history s'')
  rw [hidx] at htail
  have hpaid := hp s.idx stage h.current
  rw [(h.takes _).1, (h.takes _).2, htail.1, htail.2] at hpaid
  have hlt := hpaid (by have := h.bought_pos; omega)
  nlinarith

/-- A stage that a purchase does not sell out is paid if and only if the walk leaves it there. -/
theorem BuyPass.stagesPaid_partly (h : BuyPass tokenUnit s s' stage bought cost) (hu : 0 < tokenUnit)
    (hpart : stage.tokensSoldInStage + bought < stage.tokensAvailable) (hrun : (stageWalk tokenUnit).run s' = .ok t) :
    StagesPaid tokenUnit s.stages ((s, s') :: (stageWalk tokenUnit).history s') ↔
      Price.afford tokenUnit stage.pricePerToken s'.remainingSol = 0 := by
  obtain ⟨-, hcur⟩ := h.stays hpart
  rcases hb : stagePass tokenUnit s' with e | (s'' | t')
  · have hbody : (stageWalk tokenUnit).body s' = .error e := hb
    rw [Loop.run_eq, hbody] at hrun
    cases hrun
  · rw [(stageWalk tokenUnit).history_pass hb]
    rcases stagePass_inl hb with ⟨stage', hcur', hsold, -⟩ | ⟨stage', bought₂, cost₂, h'⟩
    · rw [hcur] at hcur'; cases hcur'
      simp only at hsold
      omega
    · refine iff_of_false (h.unpaid hu hpart hb h') ?_
      have haff := h'.affordable
      rw [h'.current] at hcur; cases hcur
      exact haff.ne'
  · rw [(stageWalk tokenUnit).history_exit hb]
    refine iff_of_true ((h.stagesPaid_cons hu rfl rfl).2 stagesPaid_nil) ?_
    obtain ⟨-, hzero | hend | ⟨stage', hcur', -, haff⟩⟩ := stagePass_inr hb
    · rw [hzero]; simp [Price.afford]
    · rw [hcur] at hend; cases hend
    · rw [hcur] at hcur'; cases hcur'
      exact haff

/-- Along a successful walk every stage is paid if and only if none is bought from twice. -/
theorem stagesPaid_iff (hu : 0 < tokenUnit) (h : (stageWalk tokenUnit).run s = .ok t) :
    StagesPaid tokenUnit s.stages ((stageWalk tokenUnit).history s) ↔
      OnePass tokenUnit (s.stages.drop s.idx) s.remainingSol := by
  refine (stageWalk tokenUnit).run_induction (P := fun s _ =>
    StagesPaid tokenUnit s.stages ((stageWalk tokenUnit).history s) ↔
      OnePass tokenUnit (s.stages.drop s.idx) s.remainingSol) ?_ ?_ h
  · intro s t hexit
    rw [(stageWalk tokenUnit).history_exit hexit]
    exact iff_of_true stagesPaid_nil (onePass_exit hexit)
  · intro s s' t hpass hrun ih
    rw [(stageWalk tokenUnit).history_pass hpass]
    rcases stagePass_inl hpass with ⟨stage, hcur, hsold, rfl⟩ | ⟨stage, bought, cost, hbuy⟩
    · rw [drop_current hcur, onePass_skip (by omega)]
      exact stagesPaid_skip.trans ih
    by_cases hfull : stage.tokensAvailable ≤ stage.tokensSoldInStage + bought
    · -- the stage is sold out, and the walk is past it
      have hidx : s'.idx = s.idx + 1 := by rw [hbuy.next]; exact if_pos hfull
      have hbought : bought = stage.tokensAvailable - stage.tokensSoldInStage :=
        le_antisymm (by rw [hbuy.boughtEq]; exact Nat.min_le_right _ _) (by omega)
      have hall : stage.tokensAvailable - stage.tokensSoldInStage ≤
          Price.afford tokenUnit stage.pricePerToken s.remainingSol := by
        rw [← hbought, hbuy.boughtEq]; exact Nat.min_le_left _ _
      rw [hbuy.stagesPaid_cons hu (takenFrom_behind (by omega)) (chargedFor_behind (by omega)), ih, hidx,
        drop_current hbuy.current, onePass_soldOut hbuy.unsold hall, ← hbought]
      have hdrop : s'.stages.drop (s.idx + 1) = s.stages.drop (s.idx + 1) := by
        rw [hbuy.next]; exact List.drop_set_of_lt (Nat.lt_succ_self _)
      rw [hdrop, hbuy.leaves]
    · -- the walk comes back to the stage
      have hpart : stage.tokensSoldInStage + bought < stage.tokensAvailable := by omega
      have hbought := hbuy.bought_partly hpart
      rw [drop_current hbuy.current, onePass_partly (by omega), ← hbought, ← hbuy.leaves]
      exact hbuy.stagesPaid_partly hu hpart hrun

end

/-- A successful purchase pays every stage it takes from, up to less than one lamport, if and only
if it buys from no stage twice. -/
theorem buyTokens_pays_iff {ctx : BuyTokens} {solAmount : ℕ} {referrer : Option Address} {w w' : World}
    {st : PresaleState} {m : Mint} (h : buyTokens ctx solAmount referrer w = .ok w')
    (hst : w.states ctx.state = some st) (hm : w.mints ctx.mint = some m) :
    StagesPaid (10 ^ m.decimals) st.stages ((stageWalk (10 ^ m.decimals)).history (st.walkFrom solAmount)) ↔
      OnePass (10 ^ m.decimals) (st.stages.drop st.currentStageIndex) solAmount := by
  obtain ⟨st', m', wk, solUsed, bonus, hb⟩ := buyTokens_ok h
  rw [hb.state] at hst; cases hst
  rw [hb.mint] at hm; cases hm
  exact stagesPaid_iff (by positivity) hb.walk

theorem buyTokens_pays_sample :
    StagesPaid (10 ^ 0) (sampleArgs 10).stages
        ((stageWalk (10 ^ 0)).history (((sampleArgs 10).toState sampleCtx).walkFrom 500)) ↔
      OnePass (10 ^ 0) ((sampleArgs 10).stages.drop 0) 500 :=
  have hbuy : buyTokens ⟨1, 3, 100, .ata (.key 5) 100⟩ 500 none (play (sampleLaunched 10) [.wait 15]) =
      .ok (play (sampleLaunched 10) [.wait 15, sampleBuy 3 500 none]) :=
    exec_of_play (c := .buyTokens ⟨1, 3, 100, .ata (.key 5) 100⟩ 500 none) (by decide +kernel)
  have hstate : (play (sampleLaunched 10) [.wait 15]).states 1 = some ((sampleArgs 10).toState sampleCtx) := by
    decide +kernel
  have hmint : (play (sampleLaunched 10) [.wait 15]).mints 100 = some ⟨none, 0⟩ := by decide +kernel
  buyTokens_pays_iff (m := ⟨none, 0⟩) hbuy hstate hmint

/-- Tokens with one decimal, twelve base units of them at three lamports a token. -/
def tenthsArgs : InitializePresaleArgs := { sampleArgs 10 with tokensForSale := 12, stages := [⟨3, 12, 0⟩] }

def tenthsLaunched : World :=
  play { sampleWorld with mints := fun k => if k = 100 then some ⟨none, 1⟩ else none }
    [.call (.initializePresale sampleCtx tenthsArgs), .wait 15]

/-- Two lamports buy the whole stage in two passes for a single lamport: it is worth `12 * 3`, and
`2 * 10` is already past what one lamport of rounding allows. -/
theorem buyTokens_undercharges :
    failure tenthsLaunched (.buyTokens ⟨1, 3, 100, .ata (.key 5) 100⟩ 2 none) = none ∧
      tenthsLaunched.states 1 = some (tenthsArgs.toState sampleCtx) ∧
      tenthsLaunched.mints 100 = some ⟨none, 1⟩ ∧
      takenFrom 0 ((stageWalk 10).history ((tenthsArgs.toState sampleCtx).walkFrom 2)) = 12 ∧
      chargedFor 0 ((stageWalk 10).history ((tenthsArgs.toState sampleCtx).walkFrom 2)) = 1 ∧
      ¬ StagesPaid (10 ^ 1) tenthsArgs.stages
        ((stageWalk (10 ^ 1)).history ((tenthsArgs.toState sampleCtx).walkFrom 2)) := by
  have htaken : takenFrom 0 ((stageWalk 10).history ((tenthsArgs.toState sampleCtx).walkFrom 2)) = 12 := by
    decide +kernel
  have hcharged : chargedFor 0 ((stageWalk 10).history ((tenthsArgs.toState sampleCtx).walkFrom 2)) = 1 := by
    decide +kernel
  refine ⟨by decide +kernel, by decide +kernel, by decide +kernel, htaken, hcharged, ?_⟩
  intro hp
  have := hp 0 ⟨3, 12, 0⟩ rfl (by rw [pow_one, htaken]; decide)
  rw [pow_one, htaken, hcharged] at this
  exact absurd this (by decide)

end Presale

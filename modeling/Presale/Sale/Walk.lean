/-
The stage walk of `buy_tokens` as a whole: what it sells it takes from the stages, no stage sells
more than it has, and prices and supplies stay; and it ends.
-/
import Presale.Program.Investor

namespace Presale

/-! ## Stages -/

/-- The stage with more of it sold, within its supply. -/
structure PresaleStage.Grown (s s' : PresaleStage) : Prop where
  price : s'.pricePerToken = s.pricePerToken
  available : s'.tokensAvailable = s.tokensAvailable
  sold : s.tokensSoldInStage ≤ s'.tokensSoldInStage
  within : s'.tokensSoldInStage ≤ max s.tokensSoldInStage s.tokensAvailable

theorem PresaleStage.Grown.refl (s : PresaleStage) : s.Grown s := ⟨rfl, rfl, le_rfl, le_max_left _ _⟩

/-- The stages with more of them sold, none of them past its supply. -/
abbrev StagesGrown : List PresaleStage → List PresaleStage → Prop := List.Forall₂ PresaleStage.Grown

/-- The total of the stages' sold counters. -/
def soldInStages (stages : List PresaleStage) : ℕ := (stages.map (·.tokensSoldInStage)).sum

theorem StagesGrown.refl (stages : List PresaleStage) : StagesGrown stages stages :=
  List.forall₂_same.2 fun s _ => .refl s

/-- Selling `bought` out of what a stage has left. -/
theorem StagesGrown.set : ∀ {l l' : List PresaleStage} {i : ℕ} {s : PresaleStage} {bought : ℕ}, StagesGrown l l' →
    l'[i]? = some s → bought ≤ s.tokensAvailable - s.tokensSoldInStage →
    StagesGrown l (l'.set i { s with tokensSoldInStage := s.tokensSoldInStage + bought })
  | _, _, _, _, _, .nil, h, _ => by simp at h
  | _, _, 0, s, bought, .cons hg hrest, h, hb => by
    simp only [List.getElem?_cons_zero, Option.some.injEq] at h
    subst h
    have := hg.available
    have := hg.sold
    have := hg.within
    exact .cons ⟨hg.price, hg.available, by simp only; omega, by simp only; omega⟩ hrest
  | _, _, i + 1, _, _, .cons hg hrest, h, hb => by
    simp only [List.getElem?_cons_succ] at h
    exact .cons hg (StagesGrown.set hrest h hb)

/-- The sold counters grow by no more than the supply. -/
theorem StagesGrown.sold_le : ∀ {l l' : List PresaleStage}, StagesGrown l l' →
    soldInStages l' ≤ soldInStages l + (l.map (·.tokensAvailable)).sum
  | _, _, .nil => le_rfl
  | _, _, .cons hg hrest => by
    have := StagesGrown.sold_le hrest
    have := hg.within
    simp only [soldInStages, List.map_cons, List.sum_cons] at this ⊢
    unfold soldInStages at *
    omega

/-- Grown stages have the supply they had. -/
theorem StagesGrown.supply : ∀ {l l' : List PresaleStage}, StagesGrown l l' →
    (l'.map (·.tokensAvailable)).sum = (l.map (·.tokensAvailable)).sum
  | _, _, .nil => rfl
  | _, _, .cons hg hrest => by
    simp only [List.map_cons, List.sum_cons, hg.available, StagesGrown.supply hrest]

/-- No stage has sold more than it has. -/
def StagesWithin (stages : List PresaleStage) : Prop :=
  ∀ stage ∈ stages, stage.tokensSoldInStage ≤ stage.tokensAvailable

theorem StagesGrown.stagesWithin : ∀ {l l' : List PresaleStage}, StagesGrown l l' → StagesWithin l → StagesWithin l'
  | _, _, .nil, _ => fun _ h => absurd h List.not_mem_nil
  | _, _, .cons (a := a) hg hrest, h => by
    intro stage hs
    rcases List.mem_cons.1 hs with rfl | hs
    · have := h a List.mem_cons_self
      have := hg.within
      have := hg.available
      omega
    · exact StagesGrown.stagesWithin hrest (fun x hx => h x (List.mem_cons_of_mem _ hx)) stage hs

/-- What holds of the price and the supply of every stage holds of the grown stages. -/
theorem StagesGrown.offered {p : ℕ → ℕ → Prop} : ∀ {l l' : List PresaleStage}, StagesGrown l l' →
    (∀ s ∈ l, p s.pricePerToken s.tokensAvailable) → ∀ s ∈ l', p s.pricePerToken s.tokensAvailable
  | _, _, .nil, _ => fun _ h => absurd h List.not_mem_nil
  | _, _, .cons (a := a) hg hrest, h => by
    intro s hs
    rcases List.mem_cons.1 hs with rfl | hs
    · rw [hg.price, hg.available]
      exact h a List.mem_cons_self
    · exact StagesGrown.offered hrest (fun x hx => h x (List.mem_cons_of_mem _ hx)) s hs

/-- What the stages have left and what they have sold is what they have. -/
theorem StagesWithin.left_add_sold : ∀ {l : List PresaleStage}, StagesWithin l →
    (l.map fun stage => stage.tokensAvailable - stage.tokensSoldInStage).sum + soldInStages l =
      (l.map (·.tokensAvailable)).sum
  | [], _ => rfl
  | stage :: l, h => by
    have hrest := StagesWithin.left_add_sold (l := l) fun x hx => h x (List.mem_cons_of_mem _ hx)
    have hstage := h stage List.mem_cons_self
    unfold soldInStages at hrest ⊢
    simp only [List.map_cons, List.sum_cons]
    omega

/-! ## The walk -/

/-- What holds throughout a walk that started from `s₀`. -/
structure Walk.From (l : List PresaleStage) (s₀ s : Walk) : Prop where
  grown : StagesGrown l s.stages
  sold : soldInStages s.stages + s₀.tokens = soldInStages s₀.stages + s.tokens
  spent : s.remainingSol ≤ s₀.remainingSol

theorem BuyPass.bought_le {tokenUnit : ℕ} {s s' : Walk} {stage : PresaleStage} {bought cost : ℕ}
    (h : BuyPass tokenUnit s s' stage bought cost) : bought ≤ stage.tokensAvailable - stage.tokensSoldInStage := by
  rw [h.boughtEq]; exact Nat.min_le_right _ _

/-- A pass that goes on keeps to the invariant of the walk. -/
theorem Walk.From.pass {tokenUnit : ℕ} {l : List PresaleStage} {s₀ s s' : Walk} (h : Walk.From l s₀ s)
    (hp : stagePass tokenUnit s = .ok (.inl s')) : Walk.From l s₀ s' := by
  rcases stagePass_inl hp with ⟨_, _, _, rfl⟩ | ⟨stage, bought, cost, hb⟩
  · exact ⟨h.grown, h.sold, h.spent⟩
  · have hsold := Custody.sum_map_set (·.tokensSoldInStage)
      { stage with tokensSoldInStage := stage.tokensSoldInStage + bought } hb.current
    rw [hb.next]
    refine ⟨h.grown.set hb.current hb.bought_le, ?_, ?_⟩
    · have := h.sold
      simp only [soldInStages] at this hsold ⊢
      omega
    · exact (Nat.sub_le _ _).trans h.spent

/-- The invariant of the walk holds where the walk ends. -/
theorem Walk.From.run {tokenUnit : ℕ} {l : List PresaleStage} {s₀ s : Walk} (hl : StagesGrown l s₀.stages)
    (h : (stageWalk tokenUnit).run s₀ = .ok s) : Walk.From l s₀ s := by
  refine (stageWalk tokenUnit).run_invariant (I := Walk.From l s₀) ?_ ?_ ⟨hl, rfl, le_rfl⟩ h
  · intro s s' hi hb; exact hi.pass hb
  · intro s t hi hb
    obtain ⟨rfl, -⟩ := stagePass_inr hb
    exact hi

/-! ## Termination -/

/-- The walk ends, wherever it starts: after no more passes than there are tokens and stages left, in
success or in an error, and there is no endless chain of passes. -/
theorem stageWalk_terminates (tokenUnit : ℕ) (s : Walk) :
    (∃ n r, Loop.passes (stagePass tokenUnit) (n + 1) s = some r ∧
      n ≤ (s.stages.map fun stage => stage.tokensAvailable - stage.tokensSoldInStage).sum + (s.stages.length - s.idx)) ∧
    ∀ f : ℕ → Walk, f 0 = s → ¬ ∀ n, stagePass tokenUnit (f n) = .ok (.inl (f (n + 1))) := by
  constructor
  · exact ⟨_, _, (stageWalk tokenUnit).passes_history, (stageWalk tokenUnit).length_history_le s⟩
  · intro f _
    exact (stageWalk tokenUnit).not_endless f

/-- A pass that charges nothing and stays on its stage. -/
example : stagePass 10 ⟨[⟨3, 10, 0⟩], 1, 0, 0⟩ = .ok (.inl ⟨[⟨3, 10, 3⟩], 1, 3, 0⟩) := rfl

end Presale

/-
The order of events in runs of a labelled transition system: events that come in phases, none of which
is gone back to, and events that are preceded by another.
-/
import Presale.Lib.Runs

namespace Runs

variable {σ α κ : Type} {step : σ → α → σ → Prop} {I : σ → Prop} {s₀ s : σ} {tr : List (Transition σ α)}

/-! ## Phases -/

/-- A system goes through phases: an event of a phase reaches it, a phase that is reached stays so, and
what happens in it may, by `next`, follow on the phase. -/
structure Phased (step : σ → α → σ → Prop) (I : σ → Prop) (phase : α → Option κ) (Reached : κ → σ → Prop)
    (next : κ → κ → Prop) : Prop where
  keeps : ∀ s a t, I s → step s a t → I t
  enter : ∀ s a t k, I s → step s a t → phase a = some k → Reached k t
  stay : ∀ s a t k, I s → step s a t → Reached k s → Reached k t
  follow : ∀ s a t k k', I s → step s a t → Reached k s → phase a = some k' → next k k'

variable {phase : α → Option κ} {Reached : κ → σ → Prop} {next : κ → κ → Prop}

/-- Each event of a run may follow on all the events before it. -/
theorem Phased.pairwise (hp : Phased step I phase Reached next) (h : Run step s₀ tr s) (h0 : I s₀) :
    (tr.filterMap fun x => phase x.label).Pairwise next := by
  refine (Run.induct (P := fun _ => True) (J := fun tr s => I s ∧
    (∀ k ∈ tr.filterMap fun x => phase x.label, Reached k s) ∧ (tr.filterMap fun x => phase x.label).Pairwise next)
    ⟨h0, fun k hk => absurd hk List.not_mem_nil, .nil⟩ ?_ h fun _ _ => trivial).2.2
  rintro tr s a t - ⟨hI, hreached, hpairs⟩ hs -
  refine ⟨hp.keeps s a t hI hs, ?_, ?_⟩
  · intro k hk
    rw [List.filterMap_append] at hk
    rcases List.mem_append.1 hk with hk | hk
    · exact hp.stay s a t k hI hs (hreached k hk)
    · obtain ⟨x, hx, hxk⟩ := List.mem_filterMap.1 hk
      rw [List.mem_singleton.1 hx] at hxk
      exact hp.enter s a t k hI hs hxk
  · rw [List.filterMap_append, List.pairwise_append]
    refine ⟨hpairs, ?_, ?_⟩
    · cases ha : phase a <;> simp [ha]
    · intro k hk k' hk'
      obtain ⟨x, hx, hxk⟩ := List.mem_filterMap.1 hk'
      rw [List.mem_singleton.1 hx] at hxk
      exact hp.follow s a t k k' hI hs (hreached k hk) hxk

/-! ## Causes -/

/-- What only a cause brings about has a cause before it. -/
theorem Run.caused {D : σ → Prop} {C : α → Prop} (h : Run step s₀ tr s) (h0 : I s₀) (hnot : ¬ D s₀)
    (hkeeps : ∀ s a t, I s → step s a t → I t)
    (hcause : ∀ s a t, I s → step s a t → D t → D s ∨ C a) (hdone : D s) : ∃ x ∈ tr, C x.label := by
  refine (Run.induct (P := fun _ => True) (J := fun tr s => I s ∧ (D s → ∃ x ∈ tr, C x.label))
    ⟨h0, fun hd => absurd hd hnot⟩ ?_ h fun _ _ => trivial).2 hdone
  rintro tr s a t - ⟨hI, hbefore⟩ hs -
  refine ⟨hkeeps s a t hI hs, fun hd => ?_⟩
  rcases hcause s a t hI hs hd with hd | ha
  · obtain ⟨x, hx, hxc⟩ := hbefore hd
    exact ⟨x, List.mem_append_left _ hx, hxc⟩
  · exact ⟨_, List.mem_append_right _ (List.mem_singleton_self _), ha⟩

end Runs

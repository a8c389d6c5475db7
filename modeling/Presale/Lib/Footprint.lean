/-
Fallible computations on a state made of cells: what one may read and what it may write, two runs
of it side by side, computations that do not meet and so commute, and schedules of calls, whose
outcome does not depend on the order of calls that do not meet.
-/
import Mathlib

namespace Footprint

/-! ## Two runs of one computation -/

section
variable {ε α β γ δ : Type} {P : α → β → Prop} {Q : γ → δ → Prop}

/-- Two computations fail with the same error, or succeed with results that `P` relates. -/
def Related (P : α → β → Prop) : Except ε α → Except ε β → Prop
  | .ok a, .ok b => P a b
  | .error e, .error e' => e = e'
  | .ok _, .error _ => False
  | .error _, .ok _ => False

theorem Related.pure {a : α} {b : β} (h : P a b) : Related P (pure a : Except ε α) (pure b) := h

theorem Related.bind {x : Except ε α} {y : Except ε β} {f : α → Except ε γ} {g : β → Except ε δ}
    (hx : Related P x y) (h : ∀ a b, P a b → Related Q (f a) (g b)) : Related Q (x >>= f) (y >>= g) := by
  rcases x with e | a <;> rcases y with e' | b
  · exact hx
  · exact hx.elim
  · exact hx.elim
  · exact h a b hx

/-- Two computations with one first step. -/
theorem Related.same {x : Except ε α} {f : α → Except ε γ} {g : α → Except ε δ} (h : ∀ a, Related Q (f a) (g a)) :
    Related Q (x >>= f) (x >>= g) := by
  rcases x with e | a
  · exact rfl
  · exact h a

end

/-! ## Footprints -/

/-- The cells a computation may read, and those it may also write. -/
structure Access (ι : Type) where
  reads : List ι
  writes : List ι

/-- A cell of the one or the other kind. -/
def Access.Covers {ι : Type} (F : Access ι) (i : ι) : Prop := i ∈ F.reads ∨ i ∈ F.writes

/-- Neither computation writes a cell the other one uses. -/
def Access.Apart {ι : Type} (F G : Access ι) : Prop :=
  (∀ i ∈ F.writes, ¬ G.Covers i) ∧ ∀ i ∈ G.writes, ¬ F.Covers i

theorem Access.Apart.symm {ι : Type} {F G : Access ι} (h : F.Apart G) : G.Apart F := ⟨h.2, h.1⟩

instance {ι : Type} [DecidableEq ι] (F : Access ι) (i : ι) : Decidable (F.Covers i) :=
  inferInstanceAs (Decidable (_ ∨ _))

instance {ι : Type} [DecidableEq ι] (F G : Access ι) : Decidable (F.Apart G) :=
  inferInstanceAs (Decidable (_ ∧ _))

section
variable {σ ι ε β : Type} {V : ι → Type} (cell : σ → (i : ι) → V i) (log : σ → List β)

/-- The two states hold the same in every cell. -/
def Alike (s t : σ) : Prop := ∀ i, cell s i = cell t i

/-- Two runs that began at `s₀` and `t₀` are at `s` and `t`: they agree on the cells of `F`, have
written only where `F` lets them, and have logged the same. -/
structure Tandem (F : Access ι) (s₀ t₀ s t : σ) : Prop where
  agree : ∀ i, F.Covers i → cell s i = cell t i
  left : ∀ i, i ∉ F.writes → cell s i = cell s₀ i
  right : ∀ i, i ∉ F.writes → cell t i = cell t₀ i
  logged : ∃ es, log s = log s₀ ++ es ∧ log t = log t₀ ++ es

/-- The computation writes only where `F` lets it, and what it does depends on the cells of `F`
alone: from states that agree on them it fails alike, or writes and logs alike. -/
def Confined (F : Access ι) (f : σ → Except ε σ) : Prop :=
  ∀ s t, (∀ i, F.Covers i → cell s i = cell t i) → Related (Tandem cell log F s t) (f s) (f t)

variable {cell log} {F G : Access ι} {s₀ t₀ s t s' t' : σ} {f g : σ → Except ε σ}

theorem Tandem.start (h : ∀ i, F.Covers i → cell s i = cell t i) : Tandem cell log F s t s t :=
  ⟨h, fun _ _ => rfl, fun _ _ => rfl, [], by simp⟩

/-- Both runs write the same to one cell they may write. -/
theorem Tandem.write (h : Tandem cell log F s₀ t₀ s t) {i : ι} (hi : i ∈ F.writes) (hs : ∀ j, j ≠ i → cell s' j = cell s j)
    (ht : ∀ j, j ≠ i → cell t' j = cell t j) (hsame : cell s' i = cell t' i) (hls : log s' = log s)
    (hlt : log t' = log t) : Tandem cell log F s₀ t₀ s' t' := by
  refine ⟨fun j hj => ?_, fun j hj => ?_, fun j hj => ?_, ?_⟩
  · by_cases hji : j = i
    · rw [hji]; exact hsame
    · rw [hs j hji, ht j hji, h.agree j hj]
  · have hji : j ≠ i := fun e => hj (e ▸ hi)
    rw [hs j hji, h.left j hj]
  · have hji : j ≠ i := fun e => hj (e ▸ hi)
    rw [ht j hji, h.right j hj]
  · rw [hls, hlt]; exact h.logged

/-- Both runs log the same. -/
theorem Tandem.record (h : Tandem cell log F s₀ t₀ s t) (es : List β) (hs : ∀ i, cell s' i = cell s i)
    (ht : ∀ i, cell t' i = cell t i) (hls : log s' = log s ++ es) (hlt : log t' = log t ++ es) :
    Tandem cell log F s₀ t₀ s' t' := by
  obtain ⟨es₀, h1, h2⟩ := h.logged
  refine ⟨fun i hi => ?_, fun i hi => ?_, fun i hi => ?_, es₀ ++ es, ?_, ?_⟩
  · rw [hs, ht, h.agree i hi]
  · rw [hs, h.left i hi]
  · rw [ht, h.right i hi]
  · rw [hls, h1, List.append_assoc]
  · rw [hlt, h2, List.append_assoc]

/-! ## Attempts -/

/-- The state after an attempt: a computation that fails changes nothing. -/
def after (f : σ → Except ε σ) (s : σ) : σ :=
  match f s with
  | .ok s' => s'
  | .error _ => s

/-- The error of an attempt, if it fails. -/
def outcome (f : σ → Except ε σ) (s : σ) : Option ε :=
  match f s with
  | .ok _ => none
  | .error e => some e

/-- From states that agree on its cells, a computation's attempt turns out alike. -/
theorem Confined.attempt (hf : Confined cell log F f) (h : ∀ i, F.Covers i → cell s i = cell t i) :
    outcome f s = outcome f t ∧ Tandem cell log F s t (after f s) (after f t) := by
  have hrel := hf s t h
  unfold outcome after
  rcases hs : f s with e | s' <;> rcases ht : f t with e' | t' <;> rw [hs, ht] at hrel
  · exact ⟨congrArg some hrel, .start h⟩
  · exact hrel.elim
  · exact hrel.elim
  · exact ⟨rfl, hrel⟩

theorem Confined.unwritten (hf : Confined cell log F f) {i : ι} (hi : i ∉ F.writes) : cell (after f s) i = cell s i :=
  (hf.attempt fun _ _ => rfl).2.left i hi

/-- What one of two computations apart writes, the other one does not see. -/
theorem Confined.unseen (hg : Confined cell log G g) (h : F.Apart G) : ∀ i, F.Covers i → cell (after g s) i = cell s i :=
  fun _ hi => hg.unwritten fun hw => h.2 _ hw hi

/-- Two computations apart commute: each turns out as it does without the other, and both orders
leave the same in every cell. -/
theorem Confined.commute (hf : Confined cell log F f) (hg : Confined cell log G g) (h : F.Apart G) (s : σ) :
    outcome f (after g s) = outcome f s ∧ outcome g (after f s) = outcome g s ∧
    Alike cell (after g (after f s)) (after f (after g s)) ∧
    ∃ es es', log (after g (after f s)) = log s ++ es ++ es' ∧ log (after f (after g s)) = log s ++ es' ++ es := by
  obtain ⟨hout, hfs⟩ := hf.attempt (hg.unseen (s := s) h)
  obtain ⟨hout', hgs⟩ := hg.attempt (hf.unseen (s := s) h.symm)
  refine ⟨hout, hout', fun i => ?_, ?_⟩
  · by_cases hiF : i ∈ F.writes
    · have hiG : i ∉ G.writes := fun hw => h.1 i hiF (.inr hw)
      rw [hgs.left i hiG, hfs.agree i (.inr hiF)]
    · rw [hfs.left i hiF]
      by_cases hiG : i ∈ G.writes
      · exact hgs.agree i (.inr hiG)
      · rw [hgs.left i hiG, hf.unwritten hiF, hg.unwritten hiG]
  · obtain ⟨es, h1, h2⟩ := hfs.logged
    obtain ⟨es', h3, h4⟩ := hgs.logged
    exact ⟨es, es', by rw [h3, h2], by rw [h1, h4]⟩

end

/-! ## Schedules -/

section
variable {σ ι ε β α : Type} {V : ι → Type} {cell : σ → (i : ι) → V i} {log : σ → List β}
variable (exec : α → σ → Except ε σ)

/-- The state after attempting calls one after another. -/
def final : List α → σ → σ
  | [], s => s
  | c :: cs, s => final cs (after (exec c) s)

/-- The calls of a schedule, each with how it turned out. -/
def outcomes : List α → σ → List (α × Option ε)
  | [], _ => []
  | c :: cs, s => (c, outcome (exec c) s) :: outcomes cs (after (exec c) s)

variable {exec} {access : α → Access ι} {cs cs' xs ys zs : List α} {s t : σ}

theorem final_append (cs cs' : List α) (s : σ) : final exec (cs ++ cs') s = final exec cs' (final exec cs s) := by
  induction cs generalizing s with
  | nil => rfl
  | cons c cs ih => exact ih _

theorem outcomes_append (cs cs' : List α) (s : σ) :
    outcomes exec (cs ++ cs') s = outcomes exec cs s ++ outcomes exec cs' (final exec cs s) := by
  induction cs generalizing s with
  | nil => rfl
  | cons c cs ih => exact congrArg (List.cons _) (ih _)

/-- A schedule turns out alike from states that hold the same. -/
theorem schedule_congr (hconf : ∀ c, Confined cell log (access c) (exec c)) (h : Alike cell s t) (cs : List α) :
    outcomes exec cs s = outcomes exec cs t ∧ Alike cell (final exec cs s) (final exec cs t) ∧
    ∃ es, log (final exec cs s) = log s ++ es ∧ log (final exec cs t) = log t ++ es := by
  induction cs generalizing s t with
  | nil => exact ⟨rfl, h, [], by simp [final]⟩
  | cons c cs ih =>
    obtain ⟨hout, hafter⟩ := (hconf c).attempt fun i _ => h i
    have halike : Alike cell (after (exec c) s) (after (exec c) t) := by
      intro i
      by_cases hi : i ∈ (access c).writes
      · exact hafter.agree i (.inr hi)
      · rw [hafter.left i hi, hafter.right i hi, h i]
    obtain ⟨houts, hfinal, es', h1, h2⟩ := ih halike
    obtain ⟨es, h3, h4⟩ := hafter.logged
    refine ⟨?_, hfinal, es ++ es', ?_, ?_⟩
    · simp only [outcomes, hout, houts]
    · simp only [final, h1, h3, List.append_assoc]
    · simp only [final, h2, h4, List.append_assoc]

/-- One schedule becomes the other by swapping neighbours that `R` lets pass. -/
inductive Reordered (R : α → α → Prop) (cs : List α) : List α → Prop
  | refl : Reordered R cs cs
  | swap {a b : α} (pre post : List α) : R a b → Reordered R cs (pre ++ a :: b :: post) →
      Reordered R cs (pre ++ b :: a :: post)

/-- Swapping neighbours that are apart changes neither how any call turns out nor what any cell
holds at the end; the log has the same entries. -/
theorem Reordered.schedule (hconf : ∀ c, Confined cell log (access c) (exec c))
    (h : Reordered (fun c d => (access c).Apart (access d)) cs cs') (s : σ) :
    (outcomes exec cs s).Perm (outcomes exec cs' s) ∧ Alike cell (final exec cs s) (final exec cs' s) ∧
    (log (final exec cs s)).Perm (log (final exec cs' s)) := by
  induction h with
  | refl => exact ⟨.refl _, fun _ => rfl, .refl _⟩
  | @swap a b pre post hab _ ih =>
    obtain ⟨houts, halike, hlog⟩ := ih
    obtain ⟨hb, ha, hswap, es, es', h1, h2⟩ := (hconf a).commute (hconf b) hab (final exec pre s)
    obtain ⟨hpost, hrest, es'', h3, h4⟩ := schedule_congr hconf hswap post
    rw [outcomes_append] at houts ⊢
    rw [final_append] at halike hlog ⊢
    refine ⟨houts.trans (List.Perm.append_left _ ?_), fun i => (halike i).trans (hrest i), hlog.trans ?_⟩
    · simp only [outcomes, ha, hb, hpost]
      exact .swap _ _ _
    · simp only [final, h3, h4, h1, h2, List.append_assoc]
      refine List.Perm.append_left _ ?_
      rw [← List.append_assoc, ← List.append_assoc]
      exact List.Perm.append_right _ List.perm_append_comm

/-! ## Sessions -/

/-- `zs` is `xs` and `ys` merged, each in its own order. -/
inductive Merged : List α → List α → List α → Prop
  | nil : Merged [] [] []
  | left {x : α} {xs ys zs : List α} : Merged xs ys zs → Merged (x :: xs) ys (x :: zs)
  | right {y : α} {xs ys zs : List α} : Merged xs ys zs → Merged xs (y :: ys) (y :: zs)

variable {R : α → α → Prop}

theorem Reordered.cons (a : α) (h : Reordered R cs cs') : Reordered R (a :: cs) (a :: cs') := by
  induction h with
  | refl => exact .refl
  | swap pre post hab _ ih => exact .swap (a :: pre) post hab ih

theorem Reordered.trans (h : Reordered R cs cs') (h' : Reordered R cs' zs) : Reordered R cs zs := by
  induction h' with
  | refl => exact h
  | swap pre post hab _ ih => exact .swap pre post hab ih

/-- A call moves ahead of those it may pass. -/
theorem Reordered.ahead {b : α} (hR : ∀ x ∈ xs, R x b) (ys : List α) : Reordered R (xs ++ b :: ys) (b :: (xs ++ ys)) := by
  induction xs with
  | nil => exact .refl
  | cons x xs ih =>
    have hrest := (ih fun x hx => hR x (List.mem_cons_of_mem _ hx)).cons x
    exact .swap [] _ (hR x List.mem_cons_self) hrest

/-- Merging two sessions is a reordering of one after the other. -/
theorem Merged.reordered (h : Merged xs ys zs) (hR : ∀ x ∈ xs, ∀ y ∈ ys, R x y) : Reordered R (xs ++ ys) zs := by
  induction h with
  | nil => exact .refl
  | left _ ih => exact (ih fun x hx => hR x (List.mem_cons_of_mem _ hx)).cons _
  | @right y xs ys zs _ ih =>
    have hahead := Reordered.ahead (R := R) (fun x hx => hR x hx y List.mem_cons_self) ys
    exact hahead.trans ((ih fun x hx y hy => hR x hx y (List.mem_cons_of_mem _ hy)).cons y)

theorem Merged.symm (h : Merged xs ys zs) : Merged ys xs zs := by
  induction h with
  | nil => exact .nil
  | left _ ih => exact ih.right
  | right _ ih => exact ih.left

theorem Merged.map {γ : Type} (f : α → γ) (h : Merged xs ys zs) : Merged (xs.map f) (ys.map f) (zs.map f) := by
  induction h with
  | nil => exact .nil
  | left _ ih => exact ih.left
  | right _ ih => exact ih.right

/-- A call does not change how calls apart from it turn out. -/
theorem outcomes_after (hconf : ∀ c, Confined cell log (access c) (exec c)) {x : α}
    (hx : ∀ y ∈ ys, (access x).Apart (access y)) (s : σ) : outcomes exec ys (after (exec x) s) = outcomes exec ys s := by
  induction ys generalizing s with
  | nil => rfl
  | cons y ys ih =>
    obtain ⟨-, hout, hswap, -⟩ := (hconf x).commute (hconf y) (hx y List.mem_cons_self) s
    have hrest := (schedule_congr hconf hswap ys).1
    simp only [outcomes, hout, hrest, ih fun y hy => hx y (List.mem_cons_of_mem _ hy)]

theorem final_unwritten (hconf : ∀ c, Confined cell log (access c) (exec c)) {i : ι}
    (hi : ∀ c ∈ cs, i ∉ (access c).writes) (s : σ) : cell (final exec cs s) i = cell s i := by
  induction cs generalizing s with
  | nil => rfl
  | cons c cs ih =>
    exact (ih (fun c hc => hi c (List.mem_cons_of_mem _ hc)) _).trans ((hconf c).unwritten (hi c List.mem_cons_self))

theorem Merged.merged_outcomes (hconf : ∀ c, Confined cell log (access c) (exec c)) (h : Merged xs ys zs)
    (hapart : ∀ x ∈ xs, ∀ y ∈ ys, (access x).Apart (access y)) (s : σ) :
    Merged (outcomes exec xs s) (outcomes exec ys s) (outcomes exec zs s) := by
  induction h generalizing s with
  | nil => exact .nil
  | @left x xs ys zs _ ih =>
    have hrest := ih (fun x hx => hapart x (List.mem_cons_of_mem _ hx)) (after (exec x) s)
    rw [outcomes_after hconf (hapart x List.mem_cons_self)] at hrest
    exact hrest.left
  | @right y xs ys zs _ ih =>
    have hrest := ih (fun x hx y hy => hapart x hx y (List.mem_cons_of_mem _ hy)) (after (exec y) s)
    rw [outcomes_after hconf fun x hx => (hapart x hx y List.mem_cons_self).symm] at hrest
    exact hrest.right

/-- However two sessions whose calls are apart are merged, each call turns out as in its own session
alone, and what the one session does not write is as the other one alone leaves it. -/
theorem Merged.schedule (hconf : ∀ c, Confined cell log (access c) (exec c)) (h : Merged xs ys zs)
    (hapart : ∀ x ∈ xs, ∀ y ∈ ys, (access x).Apart (access y)) (s : σ) :
    Merged (outcomes exec xs s) (outcomes exec ys s) (outcomes exec zs s) ∧
    ∀ i, (∀ y ∈ ys, i ∉ (access y).writes) → cell (final exec zs s) i = cell (final exec xs s) i := by
  constructor
  · exact h.merged_outcomes hconf hapart s
  · intro i hi
    have hfinal := ((h.reordered hapart).schedule hconf s).2.1 i
    rw [final_append, final_unwritten hconf hi] at hfinal
    exact hfinal.symm

end

end Footprint

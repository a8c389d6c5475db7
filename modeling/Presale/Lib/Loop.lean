/-
While loops with a measure. A `Loop` is a loop body that either asks for another pass or leaves
the loop, together with a measure every further pass lowers; so the loop runs to an exit or to
an error from every state, on fuel that the measure supplies. Its history is the list of the passes
it makes on the way.
-/
import Presale.Lib.Checked

/-- A loop body over states `σ`: `.inl s` asks for another pass from `s`, `.inr s` leaves the loop
with `s`. Every further pass lowers the measure. -/
structure Loop (σ ε : Type) where
  body : σ → Except ε (σ ⊕ σ)
  measure : σ → ℕ
  decreases : ∀ s s', body s = .ok (.inl s') → measure s' < measure s

namespace Loop

variable {σ ε : Type}

/-- At most `fuel` passes; `none` when they do not suffice. -/
def passes (body : σ → Except ε (σ ⊕ σ)) : ℕ → σ → Option (Except ε σ)
  | 0, _ => none
  | fuel + 1, s =>
    match body s with
    | .error e => some (.error e)
    | .ok (.inr s') => some (.ok s')
    | .ok (.inl s') => passes body fuel s'

/-! ## Termination -/

theorem passes_isSome (l : Loop σ ε) : ∀ (fuel : ℕ) (s : σ), l.measure s < fuel →
    (passes l.body fuel s).isSome
  | 0, _, h => absurd h (Nat.not_lt_zero _)
  | fuel + 1, s, h => by
    unfold passes
    rcases hb : l.body s with e | (s' | s')
    · rfl
    · have := l.decreases s s' hb
      exact passes_isSome l fuel s' (by omega)
    · rfl

/-- More fuel does not change a result. -/
theorem passes_mono (body : σ → Except ε (σ ⊕ σ)) : ∀ {fuel fuel' : ℕ} {s : σ} {r : Except ε σ},
    fuel ≤ fuel' → passes body fuel s = some r → passes body fuel' s = some r
  | 0, _, _, _, _, h => by cases h
  | fuel + 1, 0, _, _, hle, _ => by omega
  | fuel + 1, fuel' + 1, s, r, hle, h => by
    unfold passes at h ⊢
    rcases hb : body s with e | (s' | s')
    · rw [hb] at h; exact h
    · rw [hb] at h; exact passes_mono body (Nat.le_of_succ_le_succ hle) h
    · rw [hb] at h; exact h

/-- The loop's result: it leaves the loop or fails, on fuel that always suffices. -/
def run (l : Loop σ ε) (s : σ) : Except ε σ :=
  (passes l.body (l.measure s + 1) s).get (l.passes_isSome _ s (Nat.lt_succ_self _))

theorem passes_run (l : Loop σ ε) (s : σ) {fuel : ℕ} (h : l.measure s < fuel) :
    passes l.body fuel s = some (l.run s) :=
  passes_mono l.body h (Option.some_get _).symm

/-- A run is one pass and the run of the rest. -/
theorem run_eq (l : Loop σ ε) (s : σ) : l.run s =
    match l.body s with
    | .error e => .error e
    | .ok (.inr s') => .ok s'
    | .ok (.inl s') => l.run s' := by
  have h := l.passes_run s (Nat.lt_succ_self (l.measure s))
  unfold passes at h
  rcases hb : l.body s with e | (s' | s')
  · rw [hb] at h; exact (Option.some.inj h).symm
  · rw [hb] at h
    have hlt := l.decreases s s' hb
    exact (Option.some.inj (h.symm.trans (l.passes_run s' hlt)))
  · rw [hb] at h; exact (Option.some.inj h).symm

/-- No pass after pass goes on for ever: there is no endless chain of passes. -/
theorem not_endless (l : Loop σ ε) (f : ℕ → σ) : ¬ ∀ n, l.body (f n) = .ok (.inl (f (n + 1))) := by
  intro h
  have hdown : ∀ n, l.measure (f n) + n ≤ l.measure (f 0) := by
    intro n
    induction n with
    | zero => exact le_rfl
    | succ n ih =>
      have := l.decreases _ _ (h n)
      omega
  have := hdown (l.measure (f 0) + 1)
  omega

/-! ## Rules -/

/-- Induction over the passes of a successful run: `P s t` holds of a pass that leaves the loop,
and passes down from the rest of the run to the whole of it. -/
theorem run_induction (l : Loop σ ε) {P : σ → σ → Prop}
    (hexit : ∀ s t, l.body s = .ok (.inr t) → P s t)
    (hpass : ∀ s s' t, l.body s = .ok (.inl s') → l.run s' = .ok t → P s' t → P s t) :
    ∀ {s t : σ}, l.run s = .ok t → P s t := by
  intro s
  induction hm : l.measure s using Nat.strongRecOn generalizing s with
  | _ m ih =>
    intro t h
    rw [run_eq] at h
    rcases hb : l.body s with e | (s' | s')
    · rw [hb] at h; cases h
    · rw [hb] at h
      have hlt := l.decreases s s' hb
      exact hpass s s' t hb h (ih (l.measure s') (by omega) rfl h)
    · rw [hb] at h; cases h; exact hexit s t hb

/-- The invariant rule: what every pass keeps holds where the loop is left. -/
theorem run_invariant (l : Loop σ ε) {I Q : σ → Prop}
    (hpass : ∀ s s', I s → l.body s = .ok (.inl s') → I s')
    (hexit : ∀ s t, I s → l.body s = .ok (.inr t) → Q t)
    {s t : σ} (hI : I s) (h : l.run s = .ok t) : Q t := by
  refine l.run_induction (P := fun s t => I s → Q t) ?_ ?_ h hI
  · intro s t hb hs; exact hexit s t hs hb
  · intro s s' t hb _ ih hs; exact ih (hpass s s' hs hb)

/-- A loop that fails does so in a pass, from a state that has what every pass keeps. -/
theorem run_error (l : Loop σ ε) {I : σ → Prop} (hpass : ∀ s s', I s → l.body s = .ok (.inl s') → I s')
    {s : σ} {e : ε} (hI : I s) (h : l.run s = .error e) : ∃ s', I s' ∧ l.body s' = .error e := by
  induction hm : l.measure s using Nat.strongRecOn generalizing s with
  | _ m ih =>
    rw [run_eq] at h
    rcases hb : l.body s with e' | (s' | s')
    · rw [hb] at h; cases h
      exact ⟨s, hI, hb⟩
    · rw [hb] at h
      have := l.decreases s s' hb
      exact ih (l.measure s') (by omega) (hpass s s' hI hb) h rfl
    · rw [hb] at h; cases h

/-- A loop fails with the errors of its body. -/
theorem run_fails (l : Loop σ ε) {P : ε → Prop} (h : ∀ s, Checked.Fails P (l.body s)) (s : σ) :
    Checked.Fails P (l.run s) := by
  intro e he
  obtain ⟨s', -, hb⟩ := l.run_error (I := fun _ => True) (fun _ _ _ _ => trivial) trivial he
  exact h s' e hb

/-- A loop succeeds when no pass fails from a state that has what every pass keeps. -/
theorem run_succeeds (l : Loop σ ε) {I : σ → Prop} (hpass : ∀ s s', I s → l.body s = .ok (.inl s') → I s')
    (hok : ∀ s e, I s → l.body s ≠ .error e) {s : σ} (hI : I s) : ∃ t, l.run s = .ok t := by
  rcases hr : l.run s with e | t
  · obtain ⟨s', hI', hb⟩ := l.run_error hpass hI hr
    exact absurd hb (hok s' e hI')
  · exact ⟨t, rfl⟩

/-! ## Histories -/

/-- At most `fuel` further passes, each from the state before to the state after. -/
def trace (body : σ → Except ε (σ ⊕ σ)) : ℕ → σ → List (σ × σ)
  | 0, _ => []
  | fuel + 1, s =>
    match body s with
    | .ok (.inl s') => (s, s') :: trace body fuel s'
    | _ => []

/-- The passes the loop makes from `s` before it leaves or fails. -/
def history (l : Loop σ ε) (s : σ) : List (σ × σ) := trace l.body (l.measure s) s

/-- The states the loop passes through from `s`. -/
def visited (l : Loop σ ε) (s : σ) : List σ := s :: (l.history s).map Prod.snd

theorem trace_done (l : Loop σ ε) {s : σ} (h : l.measure s = 0) : ∀ fuel, trace l.body fuel s = []
  | 0 => rfl
  | fuel + 1 => by
    unfold trace
    rcases hb : l.body s with e | (s' | s')
    · rfl
    · have := l.decreases s s' hb
      omega
    · rfl

/-- The measure is fuel enough, and more fuel makes no further pass. -/
theorem trace_fuel (l : Loop σ ε) : ∀ {fuel fuel' : ℕ} {s : σ}, l.measure s ≤ fuel → l.measure s ≤ fuel' →
    trace l.body fuel s = trace l.body fuel' s
  | 0, fuel', s, h, _ => by rw [l.trace_done (Nat.le_zero.1 h), l.trace_done (Nat.le_zero.1 h)]
  | fuel, 0, s, _, h => by rw [l.trace_done (Nat.le_zero.1 h), l.trace_done (Nat.le_zero.1 h)]
  | fuel + 1, fuel' + 1, s, h, h' => by
    unfold trace
    rcases hb : l.body s with e | (s' | s')
    · rfl
    · have := l.decreases s s' hb
      simp only [l.trace_fuel (show l.measure s' ≤ fuel by omega) (show l.measure s' ≤ fuel' by omega)]
    · rfl

/-- A history is the first pass and the history of the rest. -/
theorem history_eq (l : Loop σ ε) (s : σ) : l.history s =
    match l.body s with
    | .ok (.inl s') => (s, s') :: l.history s'
    | _ => [] := by
  unfold history
  rw [l.trace_fuel le_rfl (Nat.le_succ (l.measure s))]
  show (match l.body s with | .ok (.inl s') => (s, s') :: trace l.body (l.measure s) s' | _ => []) = _
  rcases hb : l.body s with e | (s' | s')
  · rfl
  · have hlt := l.decreases s s' hb
    show (s, s') :: trace l.body (l.measure s) s' = (s, s') :: trace l.body (l.measure s') s'
    rw [l.trace_fuel hlt.le le_rfl]
  · rfl

theorem history_pass (l : Loop σ ε) {s s' : σ} (h : l.body s = .ok (.inl s')) :
    l.history s = (s, s') :: l.history s' := by rw [history_eq, h]

theorem history_exit (l : Loop σ ε) {s t : σ} (h : l.body s = .ok (.inr t)) : l.history s = [] := by
  rw [history_eq, h]

/-- The measure bounds the passes of a history. -/
theorem length_history_le (l : Loop σ ε) (s : σ) : (l.history s).length ≤ l.measure s := by
  have htrace : ∀ (fuel : ℕ) (s : σ), (trace l.body fuel s).length ≤ fuel := by
    intro fuel
    induction fuel with
    | zero => intro s; exact le_rfl
    | succ fuel ih =>
      intro s
      unfold trace
      split
      · exact Nat.succ_le_succ (ih _)
      · exact Nat.zero_le _
  exact htrace _ s

/-- One pass more than those of its history ends the loop. -/
theorem passes_history (l : Loop σ ε) : ∀ {s : σ}, passes l.body ((l.history s).length + 1) s = some (l.run s) := by
  intro s
  induction hm : l.measure s using Nat.strongRecOn generalizing s with
  | _ m ih =>
    rw [run_eq]
    unfold passes
    rcases hb : l.body s with e | (s' | s')
    · rfl
    · have := l.decreases s s' hb
      rw [l.history_pass hb]
      exact ih (l.measure s') (by omega) rfl
    · rfl

/-- What every pass keeps holds before each pass of a history. -/
theorem history_invariant (l : Loop σ ε) {I : σ → Prop} (hpass : ∀ s s', I s → l.body s = .ok (.inl s') → I s') :
    ∀ {s : σ}, I s → ∀ p ∈ l.history s, I p.1 ∧ l.body p.1 = .ok (.inl p.2) := by
  intro s
  induction hm : l.measure s using Nat.strongRecOn generalizing s with
  | _ m ih =>
    intro hI p hp
    rcases hb : l.body s with e | (s' | s')
    · rw [history_eq, hb] at hp; cases hp
    · rw [l.history_pass hb] at hp
      have hlt := l.decreases s s' hb
      rcases List.mem_cons.1 hp with rfl | hp
      · exact ⟨hI, hb⟩
      · exact ih (l.measure s') (by omega) rfl (hpass s s' hI hb) p hp
    · rw [l.history_exit hb] at hp; cases hp

/-- A quantity that every pass raises by `g` the loop raises by the sum over its history. -/
theorem sum_history (l : Loop σ ε) {f : σ → ℤ} {g : σ × σ → ℕ}
    (hpass : ∀ s s', l.body s = .ok (.inl s') → f s' = f s + g (s, s'))
    (hexit : ∀ s t, l.body s = .ok (.inr t) → f t = f s) {s t : σ} (h : l.run s = .ok t) :
    f t = f s + ((l.history s).map g).sum := by
  refine l.run_induction (P := fun s t => f t = f s + ((l.history s).map g).sum) ?_ ?_ h
  · intro s t hb
    rw [l.history_exit hb, hexit s t hb]
    simp
  · intro s s' t hb _ ih
    rw [l.history_pass hb, List.map_cons, List.sum_cons, ih, hpass s s' hb]
    push_cast
    ring

/-- What every pass keeps holds in every state passed through. -/
theorem visited_invariant (l : Loop σ ε) {I : σ → Prop} (hpass : ∀ s s', I s → l.body s = .ok (.inl s') → I s')
    {s : σ} (hI : I s) : ∀ x ∈ l.visited s, I x := by
  intro x hx
  rcases List.mem_cons.1 hx with rfl | hx
  · exact hI
  · obtain ⟨p, hp, rfl⟩ := List.mem_map.1 hx
    obtain ⟨hIp, hb⟩ := l.history_invariant hpass hI p hp
    exact hpass p.1 p.2 hIp hb

end Loop

/-
Event logs: a machine over views whose transitions are events, and systems that log. When every step
of a system appends events that its view admits and that explain what becomes of the view, replaying
the log rebuilds the view, and what the machine keeps holds of the system.
-/
import Presale.Lib.Runs

namespace EventLog

variable {V E σ α : Type}

/-! ## The machine -/

section
variable (apply : V → E → V) (ok : V → E → Prop)

/-- The view after the events of a log, one by one. -/
def replay (v : V) (es : List E) : V := es.foldl apply v

/-- Every event of the log is admitted by the view it finds. -/
def Admitted : V → List E → Prop
  | _, [] => True
  | v, e :: es => ok v e ∧ Admitted (apply v e) es

@[simp] theorem replay_nil (v : V) : replay apply v [] = v := rfl

@[simp] theorem replay_cons (v : V) (e : E) (es : List E) :
    replay apply v (e :: es) = replay apply (apply v e) es := rfl

@[simp] theorem replay_append (v : V) (es es' : List E) :
    replay apply v (es ++ es') = replay apply (replay apply v es) es' := List.foldl_append

theorem admitted_append : ∀ (v : V) (es es' : List E), Admitted apply ok v (es ++ es') ↔
    Admitted apply ok v es ∧ Admitted apply ok (replay apply v es) es'
  | v, [], es' => by simp [Admitted]
  | v, e :: es, es' => by simp [Admitted, admitted_append (apply v e) es es', and_assoc]

variable {apply ok}

/-- What every admitted event keeps, of the log so far and the view it leads to, holds of every
admitted log. -/
theorem admitted_induct {J : List E → V → Prop} {v : V} (h0 : J [] v)
    (hs : ∀ es v e, J es v → ok v e → J (es ++ [e]) (apply v e)) : ∀ {es : List E}, Admitted apply ok v es →
    J es (replay apply v es) := by
  intro es
  induction es using List.reverseRecOn with
  | nil => exact fun _ => h0
  | append_singleton es e ih =>
    intro h
    obtain ⟨hes, he, -⟩ := (admitted_append apply ok v es [e]).1 h
    rw [replay_append]
    exact hs es _ e (ih hes) he

end

/-! ## Systems that log -/

/-- From `s` to `t` the log has grown by admitted events that explain what became of the view. -/
def Explained (apply : V → E → V) (ok : V → E → Prop) (log : σ → List E) (view : σ → V) (s t : σ) : Prop :=
  ∃ es, log t = log s ++ es ∧ Admitted apply ok (view s) es ∧ view t = replay apply (view s) es

section
variable {apply : V → E → V} {ok : V → E → Prop} {log : σ → List E} {view : σ → V} {s t u : σ}

/-- A step that logs nothing and leaves the view alone. -/
theorem Explained.quiet (hlog : log t = log s) (hview : view t = view s) : Explained apply ok log view s t :=
  ⟨[], by rw [hlog, List.append_nil], trivial, hview⟩

/-- A step that logs one event. -/
theorem Explained.one {e : E} (hlog : log t = log s ++ [e]) (hok : ok (view s) e) (hview : view t = apply (view s) e) :
    Explained apply ok log view s t := ⟨[e], hlog, ⟨hok, trivial⟩, hview⟩

theorem Explained.trans (h : Explained apply ok log view s t) (h' : Explained apply ok log view t u) :
    Explained apply ok log view s u := by
  obtain ⟨es, hlog, hok, hview⟩ := h
  obtain ⟨es', hlog', hok', hview'⟩ := h'
  refine ⟨es ++ es', ?_, ?_, ?_⟩
  · rw [hlog', hlog, List.append_assoc]
  · rw [admitted_append, ← hview]
    exact ⟨hok, hok'⟩
  · rw [hview', hview, replay_append]

/-- From an empty log on, the view is what the log says. -/
theorem Explained.replayed (h : Explained apply ok log view s t) (hs : log s = []) :
    Admitted apply ok (view s) (log t) ∧ view t = replay apply (view s) (log t) := by
  obtain ⟨es, hlog, hok, hview⟩ := h
  rw [hs, List.nil_append] at hlog
  rw [hlog]
  exact ⟨hok, hview⟩

/-- When every step from a state of the invariant `I` is explained, so is every run. -/
theorem explained_run {step : σ → α → σ → Prop} {I : σ → Prop} {tr : List (Runs.Transition σ α)}
    (hs : ∀ s a t, I s → step s a t → I t ∧ Explained apply ok log view s t) (hI : I s) (h : Runs.Run step s tr t) :
    I t ∧ Explained apply ok log view s t := by
  refine Runs.Run.preserves (I := fun t => I t ∧ Explained apply ok log view s t) ?_ h ⟨hI, .quiet rfl rfl⟩
  rintro t a u ⟨ht, he⟩ hstep
  obtain ⟨hu, hexp⟩ := hs t a u ht hstep
  exact ⟨hu, he.trans hexp⟩

end

end EventLog

/-
Checked fixed-width arithmetic and the `Except` idioms around it: `checked_*` operations as
`Option`s over `ℕ` and `ℤ`, `ok_or` and `require!` as `Except` steps, and the inversion rules a
successful computation is taken apart with.
-/
import Mathlib

namespace Checked

/-! ## Operations -/

/-- `a + b` when it fits `w` bits. -/
def add (w a b : ℕ) : Option ℕ := if a + b < 2 ^ w then some (a + b) else none

/-- `a - b` when it is not negative. -/
def sub (a b : ℕ) : Option ℕ := if b ≤ a then some (a - b) else none

/-- `a * b` when it fits `w` bits. -/
def mul (w a b : ℕ) : Option ℕ := if a * b < 2 ^ w then some (a * b) else none

/-- `a / b` unless `b = 0`. -/
def div (a b : ℕ) : Option ℕ := if b = 0 then none else some (a / b)

/-- `a ^ n` when it fits `w` bits. -/
def pow (w a n : ℕ) : Option ℕ := if a ^ n < 2 ^ w then some (a ^ n) else none

/-- A signed value when it fits `w` bits of two's complement. -/
def signed (w : ℕ) (x : ℤ) : Option ℤ := if -2 ^ (w - 1) ≤ x ∧ x < 2 ^ (w - 1) then some x else none

section
variable {w a b c n : ℕ} {x y : ℤ}

@[simp] theorem add_eq_some : add w a b = some c ↔ a + b < 2 ^ w ∧ a + b = c := by
  simp [add, Option.ite_none_right_eq_some]

@[simp] theorem sub_eq_some : sub a b = some c ↔ b ≤ a ∧ a - b = c := by
  simp [sub, Option.ite_none_right_eq_some]

@[simp] theorem mul_eq_some : mul w a b = some c ↔ a * b < 2 ^ w ∧ a * b = c := by
  simp [mul, Option.ite_none_right_eq_some]

@[simp] theorem div_eq_some : div a b = some c ↔ b ≠ 0 ∧ a / b = c := by
  simp [div, Option.ite_none_left_eq_some]

@[simp] theorem pow_eq_some : pow w a n = some c ↔ a ^ n < 2 ^ w ∧ a ^ n = c := by
  simp [pow, Option.ite_none_right_eq_some]

@[simp] theorem signed_eq_some :
    signed w x = some y ↔ (-2 ^ (w - 1) ≤ x ∧ x < 2 ^ (w - 1)) ∧ x = y := by
  simp [signed, Option.ite_none_right_eq_some]

@[simp] theorem add_eq_none : add w a b = none ↔ 2 ^ w ≤ a + b := by simp [add]

@[simp] theorem sub_eq_none : sub a b = none ↔ a < b := by simp [sub]

@[simp] theorem mul_eq_none : mul w a b = none ↔ 2 ^ w ≤ a * b := by simp [mul]

@[simp] theorem div_eq_none : div a b = none ↔ b = 0 := by simp [div]

@[simp] theorem pow_eq_none : pow w a n = none ↔ 2 ^ w ≤ a ^ n := by simp [pow]

@[simp] theorem signed_eq_none : signed w x = none ↔ ¬ (-2 ^ (w - 1) ≤ x ∧ x < 2 ^ (w - 1)) := by
  rw [signed, ite_eq_right_iff, imp_iff_not (by simp)]

end

/-! ## Fallible steps -/

section
variable {ε α β : Type}

/-- The value of an option, or the error `e`. -/
def okOr (o : Option α) (e : ε) : Except ε α :=
  match o with
  | some a => .ok a
  | none => .error e

/-- Continue when `c` holds, else fail with `e`. -/
def require (c : Prop) [Decidable c] (e : ε) : Except ε Unit := if c then .ok () else .error e

@[simp] theorem okOr_eq_ok {o : Option α} {e : ε} {a : α} : okOr o e = .ok a ↔ o = some a := by
  cases o <;> simp [okOr]

@[simp] theorem require_eq_ok {c : Prop} [Decidable c] {e : ε} {u : Unit} : require c e = .ok u ↔ c := by
  unfold require; split <;> simp_all

theorem require_ok {c : Prop} [Decidable c] {e : ε} (h : c) : require c e = .ok () := require_eq_ok.2 h

/-- A sequence goes on with the result of its first step. -/
theorem bind_of_ok {x : Except ε α} {k : α → Except ε β} {a : α} (h : x = .ok a) : (x >>= k) = k a := by
  subst h
  rfl

/-- A sequence succeeds when its first step does and then its rest does. -/
theorem bind_ok_iff {x : Except ε α} {k : α → Except ε β} {r : β} :
    (x >>= k) = .ok r ↔ ∃ a, x = .ok a ∧ k a = .ok r := by
  rcases x with e | a
  · exact ⟨nofun, fun ⟨_, h, _⟩ => nomatch h⟩
  · exact ⟨fun h => ⟨a, rfl, h⟩, fun ⟨_, h, hk⟩ => by cases h; exact hk⟩

/-- Two sequences with one first step lead to the same result when their rests do. -/
theorem bind_same {x : Except ε α} {f g : α → Except ε β} {b c : β} (h : x >>= f = .ok b) (h' : x >>= g = .ok c)
    (hsame : ∀ a, f a = .ok b → g a = .ok c → b = c) : b = c := by
  obtain ⟨a, hx, hf⟩ := bind_ok_iff.1 h
  obtain ⟨a', hx', hg⟩ := bind_ok_iff.1 h'
  rw [hx] at hx'; cases hx'
  exact hsame a hf hg

/-- A sequence fails in its first step or in the rest. -/
theorem bind_error_iff {x : Except ε α} {k : α → Except ε β} {e : ε} :
    (x >>= k) = .error e ↔ x = .error e ∨ ∃ a, x = .ok a ∧ k a = .error e := by
  rcases x with e' | a
  · constructor
    · intro h; cases h; exact .inl rfl
    · rintro (h | ⟨_, h, _⟩)
      · cases h; rfl
      · cases h
  · constructor
    · intro h; exact .inr ⟨a, rfl, h⟩
    · rintro (h | ⟨_, h, hk⟩)
      · cases h
      · cases h; exact hk

@[simp] theorem okOr_eq_error {o : Option α} {e e' : ε} : okOr o e = .error e' ↔ o = none ∧ e = e' := by
  cases o <;> simp [okOr]

@[simp] theorem require_eq_error {c : Prop} [Decidable c] {e e' : ε} :
    require c e = .error e' ↔ ¬ c ∧ e = e' := by
  unfold require; split <;> simp_all

@[simp] theorem pure_ne_error {a : α} {e : ε} : (pure a : Except ε α) ≠ .error e := nofun

@[simp] theorem pure_ok_iff {a r : α} : (pure a : Except ε α) = .ok r ↔ a = r := Except.ok.injEq a r ▸ Iff.rfl

end

/-! ## The errors of a computation -/

section
variable {ε α β : Type} {P : ε → Prop}

/-- Every error `x` can fail with satisfies `P`. -/
def Fails (P : ε → Prop) (x : Except ε α) : Prop := ∀ e, x = .error e → P e

theorem Fails.mono {Q : ε → Prop} {x : Except ε α} (h : Fails P x) (hPQ : ∀ e, P e → Q e) : Fails Q x :=
  fun e he => hPQ e (h e he)

theorem Fails.ok {x : Except ε α} {a : α} (h : x = .ok a) : Fails P x := by
  intro e he
  rw [h] at he
  cases he

theorem Fails.pure (a : α) : Fails P (pure a : Except ε α) := .ok rfl

theorem Fails.okOr {o : Option α} {e : ε} (h : P e) : Fails P (okOr o e) := by
  intro e' he
  obtain ⟨-, rfl⟩ := okOr_eq_error.1 he
  exact h

theorem Fails.require {c : Prop} [Decidable c] {e : ε} (h : P e) : Fails P (require c e) := by
  intro e' he
  obtain ⟨-, rfl⟩ := require_eq_error.1 he
  exact h

/-- A sequence whose first step succeeds fails with the errors of its rest. -/
theorem Fails.after {x : Except ε α} {k : α → Except ε β} {a : α} (hx : x = .ok a) (hk : Fails P (k a)) :
    Fails P (x >>= k) := by
  rw [bind_of_ok hx]
  exact hk

/-- A sequence fails with the errors of its first step, and of its rest after what the first step
leads to. -/
theorem Fails.bind {x : Except ε α} {k : α → Except ε β} (hx : Fails P x) (hk : ∀ a, x = .ok a → Fails P (k a)) :
    Fails P (x >>= k) := by
  intro e he
  rcases bind_error_iff.1 he with h | ⟨a, ha, h⟩
  · exact hx e h
  · exact hk a ha e h

end

end Checked

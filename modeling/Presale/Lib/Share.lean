/-
Reward per share: holders of shares are owed a growing amount per share, kept in one accumulator
scaled by a precision `P`; each holder has a debt, what had accrued when the shares last changed.
What is owed to all holders together, how a release and a settlement change it, and why it covers
the whole tokens each of them can be paid; and what one holder is paid over several releases against
the exact share of each.
-/
import Presale.Lib.Custody

open Finset

namespace Share

/-! ## One holder -/

/-- What `a` shares are owed at accumulator `acc` over the debt `d`, scaled by `P`. -/
def owed (P acc a d : ℕ) : ℕ := a * acc - P * d

/-- The whole tokens `a` shares are owed. -/
def pending (P acc a d : ℕ) : ℕ := a * acc / P - d

section
variable {P acc a d : ℕ}

theorem mul_pending_le : P * pending P acc a d ≤ owed P acc a d := by
  unfold pending owed
  rw [Nat.mul_sub]
  exact Nat.sub_le_sub_right (Nat.mul_div_le _ _) _

/-- Shares whose debt is set to what has accrued are owed a fraction of a token. -/
theorem owed_settled : owed P acc a (a * acc / P) = a * acc % P := by
  unfold owed
  have := Nat.div_add_mod (a * acc) P
  omega

/-- What is owed is the whole tokens and a fraction, while the debt is within what has accrued. -/
theorem owed_eq (hd : d ≤ a * acc / P) : owed P acc a d = P * pending P acc a d + a * acc % P := by
  have h := Nat.div_add_mod (a * acc) P
  have hle := Nat.mul_le_mul_left P hd
  unfold owed pending
  rw [Nat.mul_sub]
  omega

/-- Paying `x` of the whole tokens and leaving `b` shares settled, no larger a fraction than before,
takes no more than was owed. -/
theorem owed_pay {b x : ℕ} (hd : d ≤ a * acc / P) (hx : x ≤ pending P acc a d) (hb : b * acc % P ≤ a * acc % P) :
    owed P acc b (b * acc / P) + P * x ≤ owed P acc a d := by
  have hpaid := Nat.mul_le_mul_left P hx
  rw [owed_settled, owed_eq hd]
  omega

/-- A growth of the accumulator is owed on every share. -/
theorem owed_grow (δ : ℕ) : owed P (acc + δ) a d ≤ owed P acc a d + a * δ := by
  unfold owed
  rw [Nat.mul_add]
  omega

end

/-! ## One release in two -/

/-- A release in two parts adds no more to the accumulator than in one. -/
theorem div_add_div_le (P T x y : ℕ) : x * P / T + y * P / T ≤ (x + y) * P / T := by
  rw [Nat.add_mul]
  exact Nat.div_add_div_le_add_div

/-- The second rounding costs the accumulator one unit at most. -/
theorem le_div_add_div (P x y : ℕ) {T : ℕ} (hT : 0 < T) : (x + y) * P / T ≤ x * P / T + y * P / T + 1 := by
  have hx := Nat.lt_div_mul_add hT (a := x * P)
  have hy := Nat.lt_div_mul_add hT (a := y * P)
  refine Nat.le_of_lt_succ ((Nat.div_lt_iff_lt_mul hT).2 ?_)
  calc (x + y) * P = x * P + y * P := Nat.add_mul _ _ _
    _ < (x * P / T * T + T) + (y * P / T * T + T) := by omega
    _ = (x * P / T + y * P / T + 1).succ * T := by rw [Nat.succ_eq_add_one]; ring

/-- An inventory of `rest` that releases `x` and then `y`, as far as it lasts, releases what it
would have at once. -/
theorem min_add_eq (x y rest : ℕ) : min (x + y) rest = min x rest + min y (rest - min x rest) := by
  omega

/-- Tokens added once the inventory has run dry are released for the time it was empty, unless what
follows uses them up. -/
theorem min_add_funded_iff (x y rest a : ℕ) :
    min x rest + min y (rest - min x rest + a) = min (x + y) (rest + a) ↔ x ≤ rest ∨ a ≤ y := by
  omega

theorem min_add_funded_le_iff (x y rest a : ℕ) : min (x + y) (rest + a) ≤ min x rest + y ↔ x ≤ rest ∨ a ≤ y := by
  omega

/-- Adding them in between releases no more than adding them before. -/
theorem min_add_funded_le (x y rest a : ℕ) :
    min x rest + min y (rest - min x rest + a) ≤ min (x + y) (rest + a) := by
  omega

/-! ## All holders -/

variable {ι : Type} [Fintype ι] {P acc rest held : ℕ} {a d : ι → ℕ}

/-- The holders' claims and the tokens not released yet are within what is held. -/
def Solvent (P acc : ℕ) (a d : ι → ℕ) (rest held : ℕ) : Prop := ∑ i, owed P acc (a i) (d i) + P * rest ≤ P * held

/-- What is held covers the whole tokens of all holders and the tokens not released yet. -/
theorem Solvent.covers (h : Solvent P acc a d rest held) (hP : 0 < P) :
    ∑ i, pending P acc (a i) (d i) + rest ≤ held := by
  refine Nat.le_of_mul_le_mul_left ?_ hP
  rw [Nat.mul_add, Finset.mul_sum]
  exact (Nat.add_le_add_right (Finset.sum_le_sum fun i _ => mul_pending_le) _).trans h

/-- Releasing `r` tokens over the shares, rounded down per share. -/
theorem Solvent.release (h : Solvent P acc a d rest held) {r : ℕ} (hr : r ≤ rest) :
    Solvent P (acc + r * P / ∑ i, a i) a d (rest - r) held := by
  have hgrow : ∑ i, owed P (acc + r * P / ∑ i, a i) (a i) (d i) ≤
      ∑ i, owed P acc (a i) (d i) + (∑ i, a i) * (r * P / ∑ i, a i) := by
    rw [Finset.sum_mul, ← Finset.sum_add_distrib]
    exact Finset.sum_le_sum fun i _ => owed_grow _
  have hround : (∑ i, a i) * (r * P / ∑ i, a i) ≤ r * P := Nat.mul_div_le _ _
  have hrest : P * (rest - r) + r * P = P * rest := by
    rw [Nat.mul_comm r P, ← Nat.mul_add, Nat.sub_add_cancel hr]
  unfold Solvent at h ⊢
  omega

/-- More tokens to release, all of them held. -/
theorem Solvent.fund (h : Solvent P acc a d rest held) {x held' : ℕ} (hheld : held + x ≤ held') :
    Solvent P acc a d (rest + x) held' := by
  have := Nat.mul_le_mul_left P hheld
  unfold Solvent at h ⊢
  rw [Nat.mul_add] at this ⊢
  omega

theorem Solvent.mono (h : Solvent P acc a d rest held) {held' : ℕ} (hheld : held ≤ held') :
    Solvent P acc a d rest held' :=
  h.trans (Nat.mul_le_mul_left P hheld)

/-- One holder is paid `x` tokens and left with shares `b` and debt `e` that are owed no more than
what remains. -/
theorem Solvent.settle [DecidableEq ι] (h : Solvent P acc a d rest held) (i : ι) {b e x held' : ℕ}
    (howed : owed P acc b e + P * x ≤ owed P acc (a i) (d i)) (hheld : held ≤ held' + x) :
    Solvent P acc (Function.update a i b) (Function.update d i e) rest held' := by
  have hfun : ∀ j, owed P acc (Function.update a i b j) (Function.update d i e j) =
      Function.update (fun j => owed P acc (a j) (d j)) i (owed P acc b e) j := by
    intro j
    by_cases hj : j = i
    · subst hj; simp
    · simp [Function.update_of_ne hj]
  have hsum : ∑ j, owed P acc (Function.update a i b j) (Function.update d i e j) + owed P acc (a i) (d i) =
      ∑ j, owed P acc (a j) (d j) + owed P acc b e := by
    rw [Finset.sum_congr rfl fun j _ => hfun j]
    exact Custody.sum_update (fun j => owed P acc (a j) (d j)) i (owed P acc b e)
  have hmul := Nat.mul_le_mul_left P hheld
  rw [Nat.mul_add] at hmul
  unfold Solvent at h ⊢
  omega

/-! ## One holder over several releases -/

section
variable {P acc a : ℕ}

/-- What releases, each of some tokens over a number of shares, add to the accumulator. -/
def accrued (P : ℕ) (rs : List (ℕ × ℕ)) : ℕ := (rs.map fun r => r.1 * P / r.2).sum

/-- The exact part of the releases that falls to `a` shares. -/
def exact (a : ℕ) (rs : List (ℕ × ℕ)) : ℚ := (rs.map fun r => (a * r.1 : ℚ) / r.2).sum

/-- Every release is over shares that `a` of them are among. -/
def Within (a : ℕ) (rs : List (ℕ × ℕ)) : Prop := ∀ r ∈ rs, 0 < r.2 ∧ a ≤ r.2

/-- The shares are owed no more than their exact part, scaled. -/
theorem mul_accrued_le (P a : ℕ) : ∀ rs : List (ℕ × ℕ), ((a * accrued P rs : ℕ) : ℚ) ≤ P * exact a rs
  | [] => by simp [accrued, exact]
  | r :: rs => by
    have hrest := mul_accrued_le P a rs
    have hfirst : ((r.1 * P / r.2 : ℕ) : ℚ) ≤ (r.1 * P : ℕ) / (r.2 : ℚ) := Nat.cast_div_le
    have hmul := mul_le_mul_of_nonneg_left hfirst (Nat.cast_nonneg (α := ℚ) a)
    simp only [accrued, exact, List.map_cons, List.sum_cons, Nat.cast_add, mul_add] at hrest ⊢
    refine add_le_add ?_ hrest
    calc ((a * (r.1 * P / r.2) : ℕ) : ℚ) ≤ a * ((r.1 * P : ℕ) / r.2) := by rw [Nat.cast_mul]; exact hmul
      _ = P * (a * r.1 / r.2) := by push_cast; ring

/-- Each release costs them less than one unit of the accumulator a share. -/
theorem le_mul_accrued (P : ℕ) : ∀ {rs : List (ℕ × ℕ)}, Within a rs →
    P * exact a rs ≤ ((a * (accrued P rs + rs.length) : ℕ) : ℚ)
  | [], _ => by simp [accrued, exact]
  | r :: rs, h => by
    have hrest := le_mul_accrued P fun x hx => h x (List.mem_cons_of_mem _ hx)
    have hpos : (0 : ℚ) < r.2 := Nat.cast_pos.2 (h r List.mem_cons_self).1
    have hdiv : ((r.1 * P : ℕ) : ℚ) / r.2 ≤ ((r.1 * P / r.2 + 1 : ℕ) : ℚ) := by
      rw [div_le_iff₀ hpos]
      exact_mod_cast (Nat.lt_div_mul_add (h r List.mem_cons_self).1).le.trans (by rw [add_mul, one_mul])
    have hmul := mul_le_mul_of_nonneg_left hdiv (Nat.cast_nonneg (α := ℚ) a)
    simp only [accrued, exact, List.map_cons, List.sum_cons, List.length_cons, mul_add] at hrest ⊢
    calc (P : ℚ) * (a * r.1 / r.2) + P * (rs.map fun r => (a * r.1 : ℚ) / r.2).sum
        ≤ a * ((r.1 * P / r.2 + 1 : ℕ) : ℚ) +
            ((a * ((rs.map fun r => r.1 * P / r.2).sum + rs.length) : ℕ) : ℚ) := by
          refine add_le_add (le_trans (le_of_eq ?_) hmul) (by simpa [mul_add] using hrest)
          push_cast
          ring
      _ = _ := by push_cast; ring

/-- Shares that are among those released over are owed no more than all that is released. -/
theorem mul_accrued_le_released (P : ℕ) : ∀ {rs : List (ℕ × ℕ)}, Within a rs →
    a * accrued P rs ≤ P * (rs.map Prod.fst).sum
  | [], _ => by simp [accrued]
  | r :: rs, h => by
    have hrest := mul_accrued_le_released P fun x hx => h x (List.mem_cons_of_mem _ hx)
    have hfirst : a * (r.1 * P / r.2) ≤ P * r.1 :=
      calc a * (r.1 * P / r.2) ≤ r.2 * (r.1 * P / r.2) := Nat.mul_le_mul_right _ (h r List.mem_cons_self).2
        _ ≤ r.1 * P := Nat.mul_div_le _ _
        _ = P * r.1 := Nat.mul_comm _ _
    simp only [accrued, List.map_cons, List.sum_cons, Nat.mul_add] at hrest ⊢
    exact Nat.add_le_add hfirst hrest

/-- What shares settled at `acc` are paid over the releases `rs`, in whole tokens. -/
def paid (P acc a : ℕ) (rs : List (ℕ × ℕ)) : ℕ := pending P (acc + accrued P rs) a (a * acc / P)

theorem mul_paid_lt (hP : 0 < P) (rs : List (ℕ × ℕ)) : P * paid P acc a rs < a * accrued P rs + P := by
  have hnow := Nat.mul_div_le (a * acc + a * accrued P rs) P
  have hbefore := Nat.lt_mul_div_succ (a * acc) hP
  unfold paid pending
  rw [Nat.mul_add, Nat.mul_sub]
  rw [Nat.mul_add] at hbefore
  omega

theorem lt_mul_paid (hP : 0 < P) (rs : List (ℕ × ℕ)) : a * accrued P rs < P * paid P acc a rs + P := by
  have hnow := Nat.lt_mul_div_succ (a * acc + a * accrued P rs) hP
  have hbefore := Nat.mul_div_le (a * acc) P
  unfold paid pending
  rw [Nat.mul_add a, Nat.mul_sub]
  rw [Nat.mul_add] at hnow
  omega

/-- Less than a token more than the exact part is paid. -/
theorem paid_lt (hP : 0 < P) (rs : List (ℕ × ℕ)) : (paid P acc a rs : ℚ) < exact a rs + 1 := by
  have hpos : (0 : ℚ) < P := Nat.cast_pos.2 hP
  have hnat : P * paid P acc a rs < a * accrued P rs + P := mul_paid_lt hP rs
  have hpaid : (P * paid P acc a rs : ℚ) < ((a * accrued P rs : ℕ) : ℚ) + P := by exact_mod_cast hnat
  have hexact := mul_accrued_le P a rs
  refine lt_of_mul_lt_mul_left ?_ hpos.le
  calc (P * paid P acc a rs : ℚ) < ((a * accrued P rs : ℕ) : ℚ) + P := hpaid
    _ ≤ P * exact a rs + P := by gcongr
    _ = P * (exact a rs + 1) := by ring

/-- Less than a token, and a unit of the accumulator a share and release, is left unpaid. -/
theorem lt_paid (hP : 0 < P) {rs : List (ℕ × ℕ)} (h : Within a rs) :
    exact a rs - 1 - rs.length * a / P < paid P acc a rs := by
  have hpos : (0 : ℚ) < P := Nat.cast_pos.2 hP
  have hnat : a * accrued P rs < P * paid P acc a rs + P := lt_mul_paid hP rs
  have hpaid : ((a * accrued P rs : ℕ) : ℚ) < P * paid P acc a rs + P := by exact_mod_cast hnat
  have hexact := le_mul_accrued P h
  refine lt_of_mul_lt_mul_left ?_ hpos.le
  calc (P : ℚ) * (exact a rs - 1 - rs.length * a / P) = P * exact a rs - P - rs.length * a := by
        rw [mul_sub, mul_sub, mul_one, mul_div_cancel₀ _ hpos.ne']
    _ ≤ ((a * (accrued P rs + rs.length) : ℕ) : ℚ) - P - rs.length * a := by gcongr
    _ = ((a * accrued P rs : ℕ) : ℚ) - P := by push_cast; ring
    _ < P * paid P acc a rs := by linarith

/-- No more is paid than was released. -/
theorem paid_le (hP : 0 < P) {rs : List (ℕ × ℕ)} (h : Within a rs) : paid P acc a rs ≤ (rs.map Prod.fst).sum := by
  have hpaid : P * paid P acc a rs < a * accrued P rs + P := mul_paid_lt hP rs
  have hle := mul_accrued_le_released P h
  have hlt : P * paid P acc a rs < P * ((rs.map Prod.fst).sum + 1) := by
    rw [Nat.mul_add, Nat.mul_one]
    omega
  exact Nat.le_of_lt_succ (Nat.lt_of_mul_lt_mul_left hlt)

end

end Share

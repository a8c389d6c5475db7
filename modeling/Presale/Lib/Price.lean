/-
Purchases at a price per unit, in whole lamports and whole tokens: what an amount can afford and
what a number of tokens costs, both rounded down. One purchase is short of its price by less than a
lamport; two purchases one after the other are not. And what an amount buys from offers at several
prices, taken one after the other.
-/
import Mathlib

namespace Price

variable {unit price r n m b : ℕ}

/-- The tokens an amount of `r` affords. -/
def afford (unit price r : ℕ) : ℕ := r * unit / price

/-- What `n` tokens cost. -/
def cost (unit price n : ℕ) : ℕ := n * price / unit

theorem afford_mul_le (unit price r : ℕ) : afford unit price r * price ≤ r * unit := Nat.div_mul_le_self _ _

theorem lt_afford_mul (h : 0 < price) : r * unit < (afford unit price r + 1) * price :=
  (Nat.div_lt_iff_lt_mul h).1 (Nat.lt_succ_self _)

theorem cost_mul_le (unit price n : ℕ) : cost unit price n * unit ≤ n * price := Nat.div_mul_le_self _ _

theorem lt_cost_mul (h : 0 < unit) : n * price < (cost unit price n + 1) * unit :=
  (Nat.div_lt_iff_lt_mul h).1 (Nat.lt_succ_self _)

/-- What is afforded costs no more than the amount. -/
theorem cost_le (hu : 0 < unit) (h : n ≤ afford unit price r) : cost unit price n ≤ r := by
  have hn : n * price ≤ r * unit := (Nat.mul_le_mul_right _ h).trans (afford_mul_le ..)
  have := (cost_mul_le unit price n).trans hn
  exact Nat.le_of_mul_le_mul_right this hu

/-- At a price that divides the unit a purchase of all that is afforded leaves nothing over. -/
theorem leftover_of_dvd_unit (hp : 0 < price) (hu : 0 < unit) (h : n * price = unit) :
    r - cost unit price (afford unit price r) = 0 := by
  have hafford : afford unit price r = r * n := by
    unfold afford
    rw [← h, ← mul_assoc, Nat.mul_div_cancel _ hp]
  unfold cost
  rw [hafford, mul_assoc, h, Nat.mul_div_cancel _ hu, Nat.sub_self]

/-- At a price of `n` units it leaves less than the price of one token. -/
theorem leftover_of_dvd_price (hp : 0 < price) (hu : 0 < unit) (h : price = n * unit) :
    r - cost unit price (afford unit price r) < n := by
  have hn : 0 < n := by
    rcases Nat.eq_zero_or_pos n with rfl | hn
    · omega
    · exact hn
  have hafford : afford unit price r = r / n := by
    unfold afford
    rw [h, Nat.mul_div_mul_right _ _ hu]
  unfold cost
  rw [hafford, h, ← mul_assoc, Nat.mul_div_cancel _ hu]
  have := Nat.div_add_mod' r n
  have := Nat.mod_lt r hn
  omega

/-- Buying all that is afforded, and then some of what the rest affords, leaves a lamport or more
unpaid. -/
theorem second_purchase (hp : 0 < price) (hu : 0 < unit) (hb : 0 < b)
    (hle : b ≤ afford unit price (r - cost unit price (afford unit price r))) :
    (cost unit price (afford unit price r) + cost unit price b + 1) * unit ≤ (afford unit price r + b) * price := by
  by_contra hlt
  push Not at hlt
  have hcost := cost_mul_le unit price b
  have hpaid := (Nat.mul_le_mul_right price hle).trans (afford_mul_le unit price _)
  have hover : r * unit < (afford unit price r + 1) * price := lt_afford_mul hp
  -- the two purchases cost all of `r`, and the second leaves nothing unpaid
  have hall : cost unit price b = r - cost unit price (afford unit price r) := by
    have hspent : r * unit < (cost unit price (afford unit price r) + cost unit price b + 1) * unit := by nlinarith
    have := Nat.lt_of_mul_lt_mul_right hspent
    have := cost_le hu hle
    omega
  rw [← hall] at hpaid
  have hexact : b * price = cost unit price b * unit := le_antisymm hpaid hcost
  rcases Nat.lt_or_ge 1 b with hb1 | hb1
  · have hone : cost unit price b = 1 := by
      have hfirst : afford unit price r * price < (cost unit price (afford unit price r) + 1) * unit := lt_cost_mul hu
      have hspent : r * unit = (cost unit price (afford unit price r) + cost unit price b) * unit := by
        have := cost_le hu (le_refl (afford unit price r))
        rw [hall, Nat.add_sub_cancel' this]
      nlinarith
    rw [hone, one_mul] at hexact
    rw [hone, leftover_of_dvd_unit hp hu hexact] at hall
    cases hall
  · obtain rfl : b = 1 := by omega
    rw [one_mul] at hexact
    have := leftover_of_dvd_price (r := r) hp hu hexact
    omega

/-! ## Filling offers -/

/-- What `r` lamports buy of a supply at one price, and what they leave: as much as they afford, and
again with what is left over as long as that affords more. -/
def fill (unit price supply r : ℕ) : ℕ × ℕ :=
  let n := min (afford unit price r) supply
  if n = 0 then (0, r)
  else
    let rest := fill unit price (supply - n) (r - cost unit price n)
    (n + rest.1, rest.2)
termination_by supply
decreasing_by omega

/-- What `r` lamports buy of offers, each a price and a supply, one after the other, and what they
leave: the next offer is taken up when nothing of an offer is left. -/
def fillAll (unit : ℕ) : List (ℕ × ℕ) → ℕ → ℕ × ℕ
  | [], r => (0, r)
  | (price, supply) :: offers, r =>
    let here := fill unit price supply r
    if here.1 = supply then
      let rest := fillAll unit offers here.2
      (supply + rest.1, rest.2)
    else here

section
variable {supply : ℕ} {offers : List (ℕ × ℕ)}

/-- Nothing is bought where nothing is affordable or nothing is left. -/
theorem fill_none (h : min (afford unit price r) supply = 0) : fill unit price supply r = (0, r) := by
  rw [fill]
  exact if_pos h

/-- One purchase of all that is affordable, and the rest. -/
theorem fill_buy (h : n = min (afford unit price r) supply) (hn : 0 < n) : fill unit price supply r =
    (n + (fill unit price (supply - n) (r - cost unit price n)).1,
      (fill unit price (supply - n) (r - cost unit price n)).2) := by
  subst h
  rw [fill]
  exact if_neg hn.ne'

/-- An offer of nothing is passed over. -/
theorem fillAll_skip (unit price r : ℕ) (offers : List (ℕ × ℕ)) :
    fillAll unit ((price, 0) :: offers) r = fillAll unit offers r := by
  rw [fillAll, fill_none (Nat.min_zero _)]
  simp

/-- Nothing is bought past an offer of which nothing is affordable. -/
theorem fillAll_stop (h : afford unit price r = 0) (hs : 0 < supply) :
    fillAll unit ((price, supply) :: offers) r = (0, r) := by
  rw [fillAll, fill_none (by rw [h]; exact Nat.zero_min _)]
  exact if_neg hs.ne

/-- One purchase at the first offer, and the rest. -/
theorem fillAll_buy (h : n = min (afford unit price r) supply) (hn : 0 < n) :
    fillAll unit ((price, supply) :: offers) r =
      (n + (fillAll unit ((price, supply - n) :: offers) (r - cost unit price n)).1,
        (fillAll unit ((price, supply - n) :: offers) (r - cost unit price n)).2) := by
  have hle : n ≤ supply := h ▸ Nat.min_le_right _ _
  simp only [fillAll]
  rw [fill_buy h hn]
  simp only
  by_cases hall : (fill unit price (supply - n) (r - cost unit price n)).1 = supply - n
  · have hsum : n + (supply - n) = supply := by omega
    rw [if_pos hall, hall, if_pos hsum, ← Nat.add_assoc, hsum]
  · rw [if_neg hall, if_neg (by omega)]

theorem fill_nothing (h : (fill unit price supply r).1 = 0) : (fill unit price supply r).2 = r := by
  rcases Nat.eq_zero_or_pos (min (afford unit price r) supply) with hn | hn
  · rw [fill_none hn]
  · rw [fill_buy rfl hn] at h
    simp only at h
    omega

/-- Where nothing is bought nothing is spent. -/
theorem fillAll_nothing : ∀ {offers : List (ℕ × ℕ)} {r : ℕ}, (fillAll unit offers r).1 = 0 →
    (fillAll unit offers r).2 = r
  | [], r, _ => rfl
  | (price, supply) :: offers, r, h => by
    rw [fillAll] at h ⊢
    simp only at h ⊢
    split
    · rename_i hall
      rw [if_pos hall] at h
      simp only at h ⊢
      have hhere : (fill unit price supply r).1 = 0 := by omega
      rw [fillAll_nothing (by omega), fill_nothing hhere]
    · rename_i hpart
      rw [if_neg hpart] at h
      exact fill_nothing h

/-- Without lamports nothing is bought. -/
theorem fillAll_zero (unit : ℕ) : ∀ offers : List (ℕ × ℕ), fillAll unit offers 0 = (0, 0)
  | [] => rfl
  | (price, supply) :: offers => by
    have hnone : afford unit price 0 = 0 := by simp [afford]
    rcases Nat.eq_zero_or_pos supply with rfl | hs
    · rw [fillAll_skip, fillAll_zero unit offers]
    · exact fillAll_stop hnone hs

end

end Price

/-
Decimal numerals: digits read as a number, numerals without superfluous zeros, which their values tell
apart, and what a text of one reads as.
-/
import Mathlib

namespace Decimal

open Nat

/-! ## Digits -/

/-- The number a list of digits stands for. -/
abbrev number (l : List Char) : ℕ := ofDigitChars 10 l 0

section
variable {l m : List Char} {c : Char}

theorem number_concat (l : List Char) (c : Char) : number (l ++ [c]) = 10 * number l + (c.toNat - '0'.toNat) := by
  unfold number
  rw [ofDigitChars_append, ofDigitChars_cons, ofDigitChars_nil]

/-- A digit is told by its number. -/
theorem digit_bounds (h : c.isDigit) : 48 ≤ c.toNat ∧ c.toNat ≤ 57 := by
  simp only [Char.isDigit, ge_iff_le, Bool.and_eq_true, decide_eq_true_eq] at h
  exact ⟨h.1, h.2⟩

theorem number_lt : ∀ {l : List Char}, (∀ c ∈ l, c.isDigit) → number l < 10 ^ l.length := by
  intro l
  induction l using List.reverseRecOn with
  | nil => intro _; exact Nat.one_pos
  | append_singleton l c ih =>
    intro h
    have hrest := ih fun x hx => h x (List.mem_append_left _ hx)
    obtain ⟨-, hle⟩ := digit_bounds (h c (List.mem_append_right _ (List.mem_singleton_self c)))
    have hzero : '0'.toNat = 48 := rfl
    rw [number_concat, List.length_append, List.length_singleton, Nat.pow_succ]
    omega

/-- As many digits of the same number are the same. -/
theorem number_injective : ∀ {l m : List Char}, (∀ c ∈ l, c.isDigit) → (∀ c ∈ m, c.isDigit) → l.length = m.length →
    number l = number m → l = m := by
  intro l
  induction l using List.reverseRecOn with
  | nil =>
    intro m _ _ hlen _
    exact (List.length_eq_zero_iff.1 hlen.symm).symm
  | append_singleton l c ih =>
    intro m hl hm hlen hnum
    rcases List.eq_nil_or_concat m with rfl | ⟨m, d, rfl⟩
    · simp at hlen
    rw [List.concat_eq_append] at hm hlen hnum ⊢
    obtain ⟨hc, hc'⟩ := digit_bounds (hl c (List.mem_append_right _ (List.mem_singleton_self c)))
    obtain ⟨hd, hd'⟩ := digit_bounds (hm d (List.mem_append_right _ (List.mem_singleton_self d)))
    have hzero : '0'.toNat = 48 := rfl
    rw [number_concat, number_concat] at hnum
    -- the last digits are what is left modulo ten
    have hlast : c.toNat = d.toNat := by omega
    have hrest : l = m := by
      refine ih (fun x hx => hl x (List.mem_append_left _ hx)) (fun x hx => hm x (List.mem_append_left _ hx)) ?_ (by omega)
      simpa using hlen
    rw [hrest, Char.ext (UInt32.toNat_inj.1 hlast)]

/-- Zeros at the end of a fraction do not count. -/
theorem number_trim (l : List Char) : (number (l.rdropWhile (· = '0')) / 10 ^ (l.rdropWhile (· = '0')).length : ℚ) =
    number l / 10 ^ l.length := by
  have hsplit : l.rdropWhile (· = '0') ++ l.rtakeWhile (· = '0') = l := List.rdropWhile_append_rtakeWhile
  have hzeros : l.rtakeWhile (· = '0') = List.replicate (l.rtakeWhile (· = '0')).length '0' :=
    List.eq_replicate_of_mem fun c hc => by simpa using List.mem_rtakeWhile_imp hc
  generalize l.rdropWhile (· = '0') = rest at hsplit ⊢
  rw [← hsplit, hzeros]
  generalize (l.rtakeWhile (· = '0')).length = k
  have hnum : number (rest ++ List.replicate k '0') = 10 ^ k * number rest := by
    unfold number
    rw [ofDigitChars_append, ofDigitChars_replicate_zero]
  rw [hnum, List.length_append, List.length_replicate, pow_add]
  push_cast
  field_simp

end

/-! ## Numerals -/

/-- A numeral with no zero at the end of its fraction. -/
@[ext] structure Numeral where
  whole : ℕ
  frac : List Char
  digits : ∀ c ∈ frac, c.isDigit
  trimmed : ∀ h : frac ≠ [], frac.getLast h ≠ '0'

namespace Numeral

def value (n : Numeral) : ℚ := n.whole + number n.frac / 10 ^ n.frac.length

/-- `12`, `12.5`. -/
def text (n : Numeral) : List Char := toDigits 10 n.whole ++ if n.frac = [] then [] else '.' :: n.frac

/-- The last digit of a fraction shows in its number. -/
theorem number_mod (n : Numeral) (h : n.frac ≠ []) : number n.frac % 10 ≠ 0 := by
  obtain ⟨l, c, hl⟩ := (List.eq_nil_or_concat n.frac).resolve_left h
  rw [List.concat_eq_append] at hl
  have hc := n.trimmed h
  have hdigit := n.digits c (by rw [hl]; simp)
  simp only [hl, List.getLast_append, List.getLast_singleton] at hc
  obtain ⟨hge, hle⟩ := digit_bounds hdigit
  have hzero : '0'.toNat = 48 := rfl
  rw [hl, number_concat]
  intro hmod
  apply hc
  exact Char.ext (UInt32.toNat_inj.1 (by show c.toNat = '0'.toNat; omega))

/-- A numeral in units of its last place. -/
theorem value_scaled (n : Numeral) (k : ℕ) :
    n.value * 10 ^ (n.frac.length + k) = ((n.whole * 10 ^ n.frac.length + number n.frac) * 10 ^ k : ℕ) := by
  unfold value
  have hpos : (10 : ℚ) ^ n.frac.length ≠ 0 := by positivity
  push_cast
  rw [pow_add, ← mul_assoc, add_mul, div_mul_cancel₀ _ hpos]

/-- Numerals of the same value have as many places. -/
theorem length_le {n m : Numeral} (h : n.value = m.value) : n.frac.length ≤ m.frac.length := by
  by_contra hlt
  obtain ⟨k, hk⟩ := Nat.exists_eq_add_of_lt (Nat.lt_of_not_le hlt)
  have hn := n.value_scaled 0
  have hm := m.value_scaled (k + 1)
  rw [Nat.add_zero, hk, h] at hn
  rw [← Nat.add_assoc, hn] at hm
  have hnat := Nat.cast_injective (R := ℚ) hm
  -- so the last digit of `n` is a zero
  have hne : n.frac ≠ [] := by
    intro hnil
    rw [hnil, List.length_nil] at hk
    omega
  apply n.number_mod hne
  have hleft : n.whole * 10 ^ (m.frac.length + k + 1) = 10 * (n.whole * 10 ^ (m.frac.length + k)) := by ring
  have hright : (m.whole * 10 ^ m.frac.length + number m.frac) * 10 ^ (k + 1) =
      10 * ((m.whole * 10 ^ m.frac.length + number m.frac) * 10 ^ k) := by ring
  rw [Nat.pow_zero, Nat.mul_one, hleft, hright] at hnat
  omega

/-- A value has only one numeral. -/
theorem value_injective {n m : Numeral} (h : n.value = m.value) : n = m := by
  have hlen : n.frac.length = m.frac.length := le_antisymm (length_le h) (length_le h.symm)
  have hn := n.value_scaled 0
  have hm := m.value_scaled 0
  rw [h, hlen, hm] at hn
  have hnat := Nat.cast_injective (R := ℚ) hn
  rw [Nat.pow_zero, Nat.mul_one, Nat.mul_one] at hnat
  have hltn := number_lt n.digits
  have hltm := number_lt m.digits
  rw [hlen] at hltn
  have hpos : 0 < 10 ^ m.frac.length := Nat.pow_pos (by decide)
  have hwhole : n.whole = m.whole := by
    have hdiv := congrArg (· / 10 ^ m.frac.length) hnat
    simp only [Nat.add_comm (_ * _), Nat.add_mul_div_right _ _ hpos, Nat.div_eq_of_lt hltn, Nat.div_eq_of_lt hltm,
      Nat.zero_add] at hdiv
    exact hdiv.symm
  have hfrac : number n.frac = number m.frac := by
    rw [hwhole] at hnat
    omega
  exact Numeral.ext hwhole (number_injective n.digits m.digits hlen hfrac)

end Numeral

/-! ## Reading -/

/-- What a text reads as: the digits up to the point are whole, those after it are places. -/
def read (text : List Char) : ℚ :=
  number (text.takeWhile (· ≠ '.')) +
    number (text.dropWhile (· ≠ '.')).tail / 10 ^ (text.dropWhile (· ≠ '.')).tail.length

theorem toDigits_ne_point {n : ℕ} {c : Char} (h : c ∈ toDigits 10 n) : c ≠ '.' := by
  rintro rfl
  have hdigit := isDigit_of_mem_toDigits (by decide) (by decide) h
  exact absurd hdigit (by decide)

/-- A numeral is read back from its text. -/
theorem Numeral.read_text (n : Numeral) : read n.text = n.value := by
  have hall : ∀ c ∈ toDigits 10 n.whole, decide (c ≠ '.') = true := fun c hc => decide_eq_true (toDigits_ne_point hc)
  unfold read text value
  rw [List.takeWhile_append_of_pos hall, List.dropWhile_append_of_pos hall]
  split
  · rename_i hnil
    simp [hnil]
  · simp

end Decimal

/-
Token amounts as the client shows them (`format.ts`).
-/
import Presale.Lib.Decimal

namespace Presale

/-- `text.padStart(length, "0")`. -/
def padStart (text : String) (length : ℕ) : String :=
  String.ofList (List.replicate (length - text.length) '0') ++ text

/-- `text.replace(/0+$/, "")`. -/
def withoutTrailingZeros (text : String) : String := String.ofList (text.toList.rdropWhile (· = '0'))

def fromTokenAmount (raw decimals : ℕ) : String :=
  let base := 10 ^ decimals
  let whole := raw / base
  let frac := raw % base
  let fracStr := withoutTrailingZeros (padStart (toString frac) decimals)
  if fracStr ≠ "" then toString whole ++ "." ++ fracStr else toString whole

example : fromTokenAmount 1230500 6 = "1.2305" := by decide +kernel

/-! ## The numeral shown -/

section
variable {raw raw' decimals decimals' frac : ℕ}

theorem padStart_toList (frac decimals : ℕ) : (padStart (toString frac) decimals).toList =
    List.replicate (decimals - (Nat.toDigits 10 frac).length) '0' ++ Nat.toDigits 10 frac := by
  have hlen : (toString frac).length = (Nat.toDigits 10 frac).length := by
    rw [← String.length_toList, Nat.toString_eq_ofList_toDigits, String.toList_ofList]
  rw [padStart, String.toList_append, String.toList_ofList, hlen, Nat.toString_eq_ofList_toDigits, String.toList_ofList]

/-- The padded fraction: digits of it, and as many as there are decimals. -/
theorem padStart_isDigit : ∀ c ∈ (padStart (toString frac) decimals).toList, c.isDigit := by
  intro c hc
  rw [padStart_toList] at hc
  rcases List.mem_append.1 hc with hc | hc
  · rw [List.eq_of_mem_replicate hc]
    rfl
  · exact Nat.isDigit_of_mem_toDigits (by decide) (by decide) hc

theorem padStart_value (h : frac < 10 ^ decimals) : (Decimal.number (padStart (toString frac) decimals).toList /
    10 ^ (padStart (toString frac) decimals).toList.length : ℚ) = frac / 10 ^ decimals := by
  have hnum : Decimal.number (padStart (toString frac) decimals).toList = frac := by
    rw [padStart_toList]
    unfold Decimal.number
    rw [Nat.ofDigitChars_append, Nat.ofDigitChars_replicate_zero, Nat.mul_zero, Nat.ofDigitChars_ten_toDigits]
  rw [hnum]
  rcases Nat.eq_zero_or_pos decimals with rfl | hpos
  · obtain rfl : frac = 0 := by simpa using h
    simp
  · have hlen : (padStart (toString frac) decimals).toList.length = decimals := by
      have hle := (Nat.length_toDigits_le_iff (b := 10) (by decide) hpos).2 h
      rw [padStart_toList, List.length_append, List.length_replicate]
      omega
    rw [hlen]

/-- The numeral of a token amount. -/
def amountNumeral (raw decimals : ℕ) : Decimal.Numeral where
  whole := raw / 10 ^ decimals
  frac := (withoutTrailingZeros (padStart (toString (raw % 10 ^ decimals)) decimals)).toList
  digits := by
    intro c hc
    rw [withoutTrailingZeros, String.toList_ofList] at hc
    exact padStart_isDigit c ((List.rdropWhile_prefix _ _).subset hc)
  trimmed := by
    intro h
    simp only [withoutTrailingZeros, String.toList_ofList] at h ⊢
    simpa using List.rdropWhile_last_not _ _ h

theorem amountNumeral_value (raw decimals : ℕ) : (amountNumeral raw decimals).value = raw / 10 ^ decimals := by
  have hpos : 0 < 10 ^ decimals := Nat.pow_pos (by decide)
  have hne : (10 : ℚ) ^ decimals ≠ 0 := by positivity
  unfold Decimal.Numeral.value amountNumeral
  simp only [withoutTrailingZeros, String.toList_ofList]
  have hraw : (raw : ℚ) = 10 ^ decimals * (raw / 10 ^ decimals : ℕ) + (raw % 10 ^ decimals : ℕ) := by
    exact_mod_cast (Nat.div_add_mod raw (10 ^ decimals)).symm
  rw [Decimal.number_trim, padStart_value (Nat.mod_lt _ hpos), eq_div_iff hne, add_mul, div_mul_cancel₀ _ hne, mul_comm]
  exact hraw.symm

/-- What is shown is the text of the numeral. -/
theorem fromTokenAmount_text (raw decimals : ℕ) :
    (fromTokenAmount raw decimals).toList = (amountNumeral raw decimals).text := by
  unfold fromTokenAmount Decimal.Numeral.text amountNumeral
  simp only [ne_eq, String.toList_eq_nil_iff, ite_not]
  split
  · rw [Nat.toString_eq_ofList_toDigits, String.toList_ofList, List.append_nil]
  · rw [String.toList_append, String.toList_append, Nat.toString_eq_ofList_toDigits, String.toList_ofList,
      List.append_assoc]
    rfl

/-- A token amount is shown as the decimal numeral it is, with no superfluous zeros: the text reads as the
amount, and two amounts of tokens, of whatever decimals, are shown alike exactly when they are the same. -/
theorem fromTokenAmount_exact (raw decimals raw' decimals' : ℕ) :
    (∃ n : Decimal.Numeral, (fromTokenAmount raw decimals).toList = n.text) ∧
    Decimal.read (fromTokenAmount raw decimals).toList = raw / 10 ^ decimals ∧
    (fromTokenAmount raw decimals = fromTokenAmount raw' decimals' ↔ raw * 10 ^ decimals' = raw' * 10 ^ decimals) := by
  have hread : ∀ raw decimals, Decimal.read (fromTokenAmount raw decimals).toList = (raw : ℚ) / 10 ^ decimals := by
    intro raw decimals
    rw [fromTokenAmount_text, Decimal.Numeral.read_text, amountNumeral_value]
  have hsame : (raw : ℚ) / 10 ^ decimals = raw' / 10 ^ decimals' ↔ raw * 10 ^ decimals' = raw' * 10 ^ decimals := by
    rw [div_eq_div_iff (by positivity) (by positivity)]
    exact_mod_cast Iff.rfl
  refine ⟨⟨_, fromTokenAmount_text raw decimals⟩, hread raw decimals, ?_⟩
  rw [← hsame]
  constructor
  · intro h
    rw [← hread, ← hread, h]
  · intro h
    have hnumeral : amountNumeral raw decimals = amountNumeral raw' decimals' := by
      apply Decimal.Numeral.value_injective
      rw [amountNumeral_value, amountNumeral_value, h]
    apply String.toList_inj.1
    rw [fromTokenAmount_text, fromTokenAmount_text, hnumeral]

end

end Presale

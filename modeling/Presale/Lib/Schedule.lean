/-
Linear release schedules: of a total of `L`, released over `D` units of time, the part due after
`e` of them, rounded down until the end.
-/
import Mathlib

namespace Schedule

/-- The part of `L` due `e` into a release over `D`. -/
def due (L D e : ℕ) : ℕ := if D ≤ e then L else L * e / D

theorem due_le (L D e : ℕ) : due L D e ≤ L := by
  unfold due
  split
  · exact le_rfl
  · rename_i h
    refine Nat.div_le_of_le_mul ?_
    rw [Nat.mul_comm D]
    exact Nat.mul_le_mul_left L (by omega)

/-- More to release and more time leave no less due. -/
theorem due_mono {L L' e e' : ℕ} (D : ℕ) (hL : L ≤ L') (he : e ≤ e') : due L D e ≤ due L' D e' := by
  by_cases hD : D ≤ e'
  · have hall : due L' D e' = L' := if_pos hD
    rw [hall]
    exact (due_le L D e).trans hL
  · unfold due
    rw [if_neg hD, if_neg (by omega)]
    exact Nat.div_le_div_right (Nat.mul_le_mul hL he)

/-- Nothing is due at the start of a release that takes time. -/
theorem due_zero (L : ℕ) {D : ℕ} (hD : 0 < D) : due L D 0 = 0 := by
  unfold due
  rw [if_neg (by omega)]
  simp

end Schedule

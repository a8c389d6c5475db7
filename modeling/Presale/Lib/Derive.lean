/-
Names derived by hashing tagged messages: a message is read back from its bytes when no tag begins
another, so that two things of one name are the same thing, or two different messages collide.
-/
import Mathlib

namespace Derive

variable {ι β μ κ : Type}

/-- No tag begins another. -/
def PrefixFree (tag : ι → List β) : Prop := ∀ i j, tag i <+: tag j → i = j

theorem PrefixFree.append_inj {tag : ι → List β} (h : PrefixFree tag) {i j : ι} {m m' : List β}
    (he : tag i ++ m = tag j ++ m') : i = j ∧ m = m' := by
  have hij : i = j := by
    have hi : tag i <+: tag j ++ m' := ⟨m, he⟩
    rcases List.prefix_or_prefix_of_prefix hi (List.prefix_append _ _) with hle | hle
    · exact h i j hle
    · exact (h j i hle).symm
  subst hij
  exact ⟨rfl, List.append_cancel_left he⟩

/-- A message of the first list and another of the second have one name. -/
def Collide (find : μ → κ) (ms ms' : List μ) : Prop := ∃ m ∈ ms, ∃ m' ∈ ms', m ≠ m' ∧ find m = find m'

section
variable {find : μ → κ} {ms ms' : List μ} {m m' : μ}

theorem eq_or_collide (hm : m ∈ ms) (hm' : m' ∈ ms') (h : find m = find m') : m = m' ∨ Collide find ms ms' := by
  by_cases he : m = m'
  · exact .inl he
  · exact .inr ⟨m, hm, m', hm', he, h⟩

end

end Derive

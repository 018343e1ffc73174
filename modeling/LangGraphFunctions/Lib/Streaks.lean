import Mathlib.Data.List.DropRight
import Mathlib.Data.List.Induction

/-! Blocks of consecutive elements that all satisfy a predicate, met from left to right. -/

namespace LangGraphFunctions.Lib

variable {α : Type}

/-- Somewhere at least `n` elements in a row satisfy the predicate. -/
def Streak (p : α → Bool) (n : Nat) (xs : List α) : Prop :=
  ∃ b, b <:+: xs ∧ n ≤ b.length ∧ ∀ x ∈ b, p x

def endingStreak (p : α → Bool) (xs : List α) : Nat := (xs.rtakeWhile p).length

variable {p : α → Bool} {n : Nat} {xs : List α} {x : α}

@[simp]
theorem endingStreak_nil : endingStreak p [] = 0 := by
  simp [endingStreak]

theorem endingStreak_concat :
    endingStreak p (xs ++ [x]) = if p x then endingStreak p xs + 1 else 0 := by
  simp only [endingStreak, List.rtakeWhile_concat]
  split <;> simp

theorem length_le_endingStreak {b : List α} (hb : b <:+ xs) (h : ∀ x ∈ b, p x) :
    b.length ≤ endingStreak p xs := by
  obtain ⟨a, rfl⟩ := hb
  have hreverse : ∀ x ∈ b.reverse, p x := by simpa using h
  simp [endingStreak, List.rtakeWhile, List.takeWhile_append_of_pos hreverse]

theorem streak_of_endingStreak (h : n ≤ endingStreak p xs) : Streak p n xs :=
  ⟨_, (List.rtakeWhile_suffix _ _).isInfix, h, fun _ => List.mem_rtakeWhile_imp⟩

theorem not_streak_nil (hn : 0 < n) : ¬ Streak p n [] := by
  rintro ⟨b, hb, hlength, -⟩
  rw [List.infix_nil.mp hb, List.length_nil] at hlength
  omega

theorem streak_concat :
    Streak p n (xs ++ [x]) ↔ Streak p n xs ∨ n ≤ endingStreak p (xs ++ [x]) := by
  constructor
  · rintro ⟨b, hb, hlength, h⟩
    cases List.infix_concat_iff.mp hb with
    | inl hsuffix => exact .inr (hlength.trans (length_le_endingStreak hsuffix h))
    | inr hinfix => exact .inl ⟨b, hinfix, hlength, h⟩
  · rintro (⟨b, hb, hlength, h⟩ | hending)
    · exact ⟨b, List.infix_concat_iff.mpr (.inr hb), hlength, h⟩
    · exact streak_of_endingStreak hending

end LangGraphFunctions.Lib

import Mathlib.Data.Set.Card

/-! How many of the parties of a system stand at a given point. -/

namespace LangGraphFunctions.Lib

variable {ι A : Type} {f : ι → Option A} {q : A → Bool}

def holders (f : ι → Option A) (q : A → Bool) : Set ι := {i | (f i).any q}

theorem holders_eq_empty (h : ∀ i a, f i = some a → q a = false) : holders f q = ∅ := by
  ext i
  rw [holders, Set.mem_ofPred_eq]
  cases hi : f i with
  | none => simp
  | some a => simp [h i a hi]

variable [DecidableEq ι]

theorem ncard_holders_update (hf : {i | f i ≠ none}.Finite) (i : ι) (c : Option A) (q : A → Bool) :
    (holders (Function.update f i c) q).ncard + ((f i).any q).toNat =
      (holders f q).ncard + (c.any q).toNat := by
  have hfin : (holders f q \ {i}).Finite := by
    apply hf.subset
    rintro j ⟨hj, -⟩ hnone
    rw [holders, Set.mem_ofPred_eq, hnone] at hj
    exact nomatch hj
  have hsplit : ∀ g : ι → Option A, (∀ j, j ≠ i → g j = f j) →
      (holders g q).ncard = (holders f q \ {i}).ncard + ((g i).any q).toNat := by
    intro g hg
    have hrest : ∀ j, j ≠ i → (j ∈ holders g q ↔ j ∈ holders f q) := fun j hj => by
      rw [holders, holders, Set.mem_ofPred_eq, Set.mem_ofPred_eq, hg j hj]
    cases hi : (g i).any q with
    | true =>
      have hinsert : holders g q = insert i (holders f q \ {i}) := by
        ext j
        by_cases hj : j = i
        · subst hj
          simpa [holders] using hi
        · simp [hrest j hj, hj]
      rw [hinsert, Set.ncard_insert_of_notMem (fun h => h.2 rfl) hfin, Bool.toNat_true]
    | false =>
      have hsame : holders g q = holders f q \ {i} := by
        ext j
        by_cases hj : j = i
        · subst hj
          simpa [holders] using hi
        · simp [hrest j hj, hj]
      rw [hsame, Bool.toNat_false, Nat.add_zero]
  rw [hsplit (Function.update f i c) fun j hj => Function.update_of_ne hj _ _,
    hsplit f fun _ _ => rfl, Function.update_self]
  omega

theorem finite_update (hf : {i | f i ≠ none}.Finite) (i : ι) (c : Option A) :
    {j | Function.update f i c j ≠ none}.Finite := by
  apply (hf.insert i).subset
  intro j hj
  by_cases hji : j = i
  · exact .inl hji
  · rw [Set.mem_ofPred_eq, Function.update_of_ne hji] at hj
    exact .inr hj

end LangGraphFunctions.Lib

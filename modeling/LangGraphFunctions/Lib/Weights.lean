import LangGraphFunctions.Lib.Dict
import Mathlib.Algebra.GroupWithZero.Nat

/-! The weights of all entries of a dictionary together. -/

namespace LangGraphFunctions.Lib.Dict

variable {κ α : Type} [DecidableEq κ]

theorem sum_setItems (w : κ × α → Nat) (k : κ) (v : α) {l : List (κ × α)} :
    ((setItems k v l).map w).sum + (l.lookup k).elim 0 (fun v => w (k, v)) =
      (l.map w).sum + w (k, v) := by
  induction l with
  | nil => simp [setItems]
  | cons p l ih =>
    obtain ⟨k', v'⟩ := p
    rw [lookup_cons_eq_ite, setItems]
    by_cases h : k = k'
    · subst h
      simp
      omega
    · rw [if_neg h, if_neg (Ne.symm h)]
      simp only [List.map_cons, List.sum_cons]
      omega

def weight (w : κ × α → Nat) (d : Dict κ α) : Nat := (d.items.map w).sum

theorem weight_set (w : κ × α → Nat) (d : Dict κ α) (k : κ) (v : α) :
    (d.set k v).weight w + (d.get? k).elim 0 (fun v => w (k, v)) = d.weight w + w (k, v) :=
  sum_setItems w k v

theorem weight_set_new (w : κ × α → Nat) {d : Dict κ α} {k : κ} (h : d.get? k = none) (v : α) :
    (d.set k v).weight w = d.weight w + w (k, v) := by
  have hset := weight_set w d k v
  rw [h] at hset
  exact hset

theorem weight_set_old (w : κ × α → Nat) {d : Dict κ α} {k : κ} {old : α} (h : d.get? k = some old)
    (v : α) : (d.set k v).weight w + w (k, old) = d.weight w + w (k, v) := by
  have hset := weight_set w d k v
  rw [h] at hset
  exact hset

end LangGraphFunctions.Lib.Dict

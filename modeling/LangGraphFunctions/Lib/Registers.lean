import LangGraphFunctions.Lib.Dict

/-! Registers, some of which keep the first value written and the others the last. -/

namespace LangGraphFunctions.Lib.Registers

variable {κ α : Type} [DecidableEq κ] {keep : κ → Bool} {k : κ}

def write (keep : κ → Bool) (m : Dict κ α) (w : κ × α) : Dict κ α :=
  if keep w.1 && m.contains w.1 then m else m.set w.1 w.2

def writeAll (keep : κ → Bool) (m : Dict κ α) (ws : List (κ × α)) : Dict κ α :=
  ws.foldl (write keep) m

theorem writeAll_append (m : Dict κ α) (xs ys : List (κ × α)) :
    writeAll keep m (xs ++ ys) = writeAll keep (writeAll keep m xs) ys := List.foldl_append

theorem get?_write (m : Dict κ α) (w : κ × α) : (write keep m w).get? k =
    if k = w.1 then (if keep k then (m.get? k).or (some w.2) else some w.2) else m.get? k := by
  rw [write, Dict.contains]
  by_cases hk : k = w.1
  · subst hk
    cases hkeep : keep w.1 with
    | false => simp
    | true => cases hget : m.get? w.1 <;> simp [hget]
  · rw [if_neg hk]
    split
    · rfl
    · exact Dict.get?_set_ne _ _ hk

theorem get?_writeAll_keep (hk : keep k) (m : Dict κ α) (ws : List (κ × α)) :
    (writeAll keep m ws).get? k = (m.get? k).or (ws.lookup k) := by
  induction ws generalizing m with
  | nil => exact Option.or_none.symm
  | cons w ws ih =>
    change (writeAll keep (write keep m w) ws).get? k = _
    rw [ih, get?_write, if_pos hk, Dict.lookup_cons_eq_ite]
    split
    · rw [Option.or_assoc, Option.some_or]
    · rfl

theorem get?_writeAll_replace (hk : keep k = false) (m : Dict κ α) (ws : List (κ × α)) :
    (writeAll keep m ws).get? k = (ws.reverse.lookup k).or (m.get? k) := by
  induction ws generalizing m with
  | nil => exact Option.none_or.symm
  | cons w ws ih =>
    change (writeAll keep (write keep m w) ws).get? k = _
    rw [ih, get?_write, hk, List.reverse_cons, List.lookup_append, Option.or_assoc,
      Dict.lookup_cons_eq_ite]
    split <;> rfl

theorem get?_writeAll_again (m : Dict κ α) {xs ys : List (κ × α)} (h : xs <+: ys) (k : κ) :
    (writeAll keep (writeAll keep m xs) ys).get? k = (writeAll keep m ys).get? k := by
  obtain ⟨rest, rfl⟩ := h
  cases hk : keep k with
  | true =>
    simp only [get?_writeAll_keep hk, List.lookup_append]
    cases m.get? k <;> cases xs.lookup k <;> rfl
  | false =>
    simp only [get?_writeAll_replace hk, List.reverse_append, List.lookup_append]
    cases rest.reverse.lookup k <;> cases xs.reverse.lookup k <;> rfl

end LangGraphFunctions.Lib.Registers

import Mathlib.Data.List.Nodup

/-! Reading a list page by page, each page after the last entry of the one before. -/

namespace LangGraphFunctions.Lib.Paging

variable {α ι : Type} [DecidableEq ι] {ident : α → ι}

def after (ident : α → ι) (i : ι) : List α → List α
  | [] => []
  | a :: xs => if ident a = i then xs else after ident i xs

def remaining (ident : α → ι) (xs : List α) : Option ι → List α
  | none => xs
  | some i => after ident i xs

theorem mem_of_mem_after {i : ι} {xs : List α} {a : α} (h : a ∈ after ident i xs) : a ∈ xs := by
  induction xs with
  | nil => exact h
  | cons x xs ih =>
    rw [after] at h
    split at h
    · exact List.mem_cons_of_mem _ h
    · exact List.mem_cons_of_mem _ (ih h)

theorem after_append {pre xs : List α} {i : ι} (h : ∀ a ∈ pre, ident a ≠ i) :
    after ident i (pre ++ xs) = after ident i xs := by
  induction pre with
  | nil => rfl
  | cons a pre ih =>
    obtain ⟨ha, hpre⟩ := List.forall_mem_cons.mp h
    rw [List.cons_append, after, if_neg ha, ih hpre]

theorem after_eq {pre post : List α} {a : α} (h : ∀ b ∈ pre, ident b ≠ ident a) :
    after ident (ident a) (pre ++ a :: post) = post := by
  rw [after_append h, after, if_pos rfl]

theorem exists_getLast?_take {n : Nat} {xs : List α} (hn : 1 ≤ n) (hfull : n ≤ xs.length) :
    ∃ a, (xs.take n).getLast? = some a := by
  cases h : (xs.take n).getLast? with
  | some a => exact ⟨a, rfl⟩
  | none =>
    have hlen := congrArg List.length (List.getLast?_eq_none_iff.mp h)
    rw [List.length_take, List.length_nil] at hlen
    omega

theorem filter_take_last {p : α → Bool} {n : Nat} {xs : List α} {a : α}
    (hfull : n ≤ (xs.filter p).length) (hlast : ((xs.filter p).take n).getLast? = some a) :
    ∃ pre post, xs = pre ++ a :: post ∧ (xs.filter p).drop n = post.filter p := by
  induction xs generalizing n with
  | nil => simp at hlast
  | cons x xs ih =>
    cases n with
    | zero => simp at hlast
    | succ n =>
      cases hp : p x with
      | false =>
        rw [List.filter_cons_of_neg (by simp [hp])] at hfull hlast ⊢
        obtain ⟨pre, post, rfl, hdrop⟩ := ih hfull hlast
        exact ⟨x :: pre, post, rfl, hdrop⟩
      | true =>
        rw [List.filter_cons_of_pos hp] at hfull hlast ⊢
        rw [List.length_cons] at hfull
        rw [List.take_succ_cons] at hlast
        cases n with
        | zero =>
          rw [List.take_zero] at hlast
          cases hlast
          exact ⟨[], xs, rfl, rfl⟩
        | succ n =>
          have hne : (xs.filter p).take (n + 1) ≠ [] := by
            intro hnil
            obtain ⟨b, hb⟩ := exists_getLast?_take (Nat.succ_pos n) (Nat.le_of_succ_le_succ hfull)
            rw [hnil] at hb
            cases hb
          rw [List.getLast?_cons_of_ne_nil hne] at hlast
          obtain ⟨pre, post, rfl, hdrop⟩ := ih (by omega) hlast
          exact ⟨x :: pre, post, rfl, hdrop⟩

theorem remaining_last {p : α → Bool} {n : Nat} {xs : List α} (hids : (xs.map ident).Nodup)
    {cursor : Option ι} {pre : List α} (hpre : xs = pre ++ remaining ident xs cursor) {a : α}
    (hfull : n ≤ ((remaining ident xs cursor).filter p).length)
    (hlast : (((remaining ident xs cursor).filter p).take n).getLast? = some a) :
    (∃ pre, xs = pre ++ remaining ident xs (some (ident a))) ∧
      (remaining ident xs (some (ident a))).filter p =
        ((remaining ident xs cursor).filter p).drop n := by
  obtain ⟨front, post, hsplit, hdrop⟩ := filter_take_last hfull hlast
  have hxs : xs = (pre ++ front) ++ a :: post := by rw [List.append_assoc, ← hsplit, ← hpre]
  have hdistinct : ∀ b ∈ pre ++ front, ident b ≠ ident a := by
    intro b hb
    rw [hxs, List.map_append, List.nodup_append] at hids
    apply hids.2.2 _ (List.mem_map_of_mem hb) _ (List.mem_cons_self ..)
  have hafter : remaining ident xs (some (ident a)) = post := by
    rw [remaining]
    conv_lhs => rw [hxs]
    apply after_eq hdistinct
  rw [hafter]
  exact ⟨⟨(pre ++ front) ++ [a], by rw [hxs]; simp⟩, hdrop.symm⟩

end LangGraphFunctions.Lib.Paging

import LangGraphFunctions.Lib.Dict
import LangGraphFunctions.Lib.Names
import Mathlib.Data.List.Sort
import Mathlib.Data.String.Basic

/-! A flat container of named blobs, whose names are listed in order. -/

namespace LangGraphFunctions.Lib.Container

variable {β : Type} {C D : Dict String β} {pre name : String}

def names (C : Dict String β) (pre : String) : List String :=
  (C.keys.filter (Names.startswith · pre)).insertionSort (· ≤ ·)

theorem mem_names : name ∈ names C pre ↔ Names.startswith name pre ∧ ∃ b, C.get? name = some b := by
  rw [names, List.mem_insertionSort, List.mem_filter, Dict.mem_keys_iff, and_comm]

theorem startswith_of_mem_names (h : name ∈ names C pre) : Names.startswith name pre :=
  (mem_names.mp h).1

theorem pairwise_names (C : Dict String β) (pre : String) : (names C pre).Pairwise (· < ·) := by
  have hnodup : (names C pre).Nodup :=
    (List.perm_insertionSort _ _).nodup_iff.mpr (List.Nodup.filter _ C.nodup)
  refine ((List.pairwise_insertionSort _ _).and hnodup).imp ?_
  exact fun h => lt_of_le_of_ne h.1 h.2

def Agree (R : String → Prop) (C D : Dict String β) : Prop := ∀ name, R name → C.get? name = D.get? name

variable {R : String → Prop}

theorem Agree.refl (R : String → Prop) (C : Dict String β) : Agree R C C := fun _ _ => rfl

theorem Agree.symm (h : Agree R C D) : Agree R D C := fun name hR => (h name hR).symm

theorem Agree.trans {E : Dict String β} (h : Agree R C D) (h' : Agree R D E) : Agree R C E :=
  fun name hR => (h name hR).trans (h' name hR)

theorem Agree.names (h : Agree R C D) (hpre : ∀ name, Names.startswith name pre → R name) :
    names C pre = names D pre := by
  refine (pairwise_names C pre).eq_of_mem_iff (pairwise_names D pre) fun name => ?_
  rw [mem_names, mem_names]
  refine and_congr_right fun hname => ?_
  rw [h name (hpre name hname)]

theorem Agree.set (h : Agree R C D) (name : String) (b : β) :
    Agree R (C.set name b) (D.set name b) := by
  intro name' hR
  rw [Dict.get?_set, Dict.get?_set, h name' hR]

theorem Agree.erase (h : Agree R C D) (name : String) : Agree R (C.erase name) (D.erase name) := by
  intro name' hR
  rw [Dict.get?_erase, Dict.get?_erase, h name' hR]

theorem agree_set (hname : ¬ R name) (C : Dict String β) (b : β) : Agree R C (C.set name b) := by
  intro name' hR
  rw [Dict.get?_set_ne]
  rintro rfl
  exact hname hR

theorem erase_of_absent (h : C.get? name = none) : C.erase name = C := by
  apply Dict.ext
  change C.items.filter _ = C.items
  refine List.filter_eq_self.mpr fun p hp => decide_eq_true ?_
  rintro rfl
  rw [Dict.get?_eq_some_iff.mpr hp] at h
  cases h

def eraseAll (C : Dict String β) (l : List String) : Dict String β := l.foldl Dict.erase C

@[simp] theorem get?_eraseAll (C : Dict String β) (l : List String) (name : String) :
    (eraseAll C l).get? name = if name ∈ l then none else C.get? name := by
  induction l generalizing C with
  | nil => rw [if_neg List.not_mem_nil]; rfl
  | cons x l ih =>
    change (eraseAll (C.erase x) l).get? name = _
    rw [ih, Dict.get?_erase]
    by_cases hl : name ∈ l
    · rw [if_pos hl, if_pos (List.mem_cons_of_mem _ hl)]
    · by_cases hx : name = x
      · rw [if_neg hl, if_pos hx, if_pos (hx ▸ List.mem_cons_self)]
      · rw [if_neg hl, if_neg hx, if_neg (List.not_mem_cons_of_ne_of_not_mem hx hl)]

theorem eraseAll_append (C : Dict String β) (l m : List String) :
    eraseAll C (l ++ m) = eraseAll (eraseAll C l) m := List.foldl_append

theorem names_eraseAll (C : Dict String β) (l : List String) (pre : String) :
    names (eraseAll C l) pre = (names C pre).filter (· ∉ l) := by
  refine (pairwise_names _ pre).eq_of_mem_iff ((pairwise_names C pre).filter _) fun name => ?_
  rw [mem_names, List.mem_filter, mem_names, get?_eraseAll, decide_eq_true_eq]
  by_cases hl : name ∈ l
  · simp [hl]
  · simp [hl]

theorem agree_eraseAll {l : List String} (hl : ∀ name ∈ l, ¬ R name) (C : Dict String β) :
    Agree R C (eraseAll C l) := by
  intro name hR
  rw [get?_eraseAll, if_neg fun h => hl name h hR]

end LangGraphFunctions.Lib.Container

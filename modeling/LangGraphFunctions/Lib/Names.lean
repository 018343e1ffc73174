import Mathlib.Algebra.GroupWithZero.Nat
import Mathlib.Algebra.Order.BigOperators.Group.List
import Mathlib.Algebra.Order.Group.Nat
import Mathlib.Data.List.Basic

/-! Names in a flat key space, written as segments joined by a separator. -/

namespace LangGraphFunctions.Lib.Names

variable {c : Char} {p q r : List String}

def split (c : Char) (s : String) : List String := (s.toList.splitOn c).map String.ofList

def join (c : Char) (segments : List String) : String :=
  (String.singleton c).intercalate segments

def startswith (s pre : String) : Bool := pre.toList.isPrefixOf s.toList

def endswith (s post : String) : Bool := post.toList.isSuffixOf s.toList

def removePrefix (s pre : String) : String :=
  if startswith s pre then String.ofList (s.toList.drop pre.toList.length) else s

def removeSuffix (s post : String) : String :=
  if endswith s post then String.ofList (s.toList.take (s.toList.length - post.toList.length))
  else s

theorem startswith_iff {s pre : String} : startswith s pre ↔ ∃ t, s = pre ++ t := by
  rw [startswith, List.isPrefixOf_iff_prefix]
  constructor
  · rintro ⟨t, ht⟩
    exact ⟨String.ofList t, String.toList_injective (by simpa using ht.symm)⟩
  · rintro ⟨t, rfl⟩
    exact ⟨t.toList, by rw [String.toList_append]⟩

theorem endswith_iff {s post : String} : endswith s post ↔ ∃ t, s = t ++ post := by
  rw [endswith, List.isSuffixOf_iff_suffix]
  constructor
  · rintro ⟨t, ht⟩
    exact ⟨String.ofList t, String.toList_injective (by simpa using ht.symm)⟩
  · rintro ⟨t, rfl⟩
    exact ⟨t.toList, by rw [String.toList_append]⟩

@[simp] theorem removePrefix_append (pre t : String) : removePrefix (pre ++ t) pre = t := by
  rw [removePrefix, if_pos (startswith_iff.mpr ⟨t, rfl⟩), String.toList_append, List.drop_left,
    String.ofList_toList]

@[simp] theorem removeSuffix_append (t post : String) : removeSuffix (t ++ post) post = t := by
  rw [removeSuffix, if_pos (endswith_iff.mpr ⟨t, rfl⟩), String.toList_append, List.length_append,
    Nat.add_sub_cancel, List.take_left, String.ofList_toList]

def fresh (names : List String) : String :=
  String.ofList (List.replicate ((names.map String.length).sum + 1) 'u')

theorem fresh_not_mem (names : List String) : fresh names ∉ names := by
  intro h
  have hle : (fresh names).length ≤ (names.map String.length).sum :=
    List.le_sum_of_mem (List.mem_map_of_mem h)
  rw [fresh, String.length_ofList, List.length_replicate] at hle
  exact Nat.not_succ_le_self _ hle

def Plain (c : Char) (segments : List String) : Prop := ∀ s ∈ segments, c ∉ s.toList

theorem Plain.append (hp : Plain c p) (hq : Plain c q) : Plain c (p ++ q) := by
  intro s hs
  cases List.mem_append.mp hs with
  | inl h => exact hp s h
  | inr h => exact hq s h

theorem split_join (hp : Plain c p) (hne : p ≠ []) : split c (join c p) = p := by
  rw [split, join, String.toList_intercalate, String.toList_singleton,
    List.splitOn_intercalate c (List.forall_mem_map.mpr hp) (by simpa using hne), List.map_map,
    String.ofList_comp_toList, List.map_id]

theorem join_append (hp : p ≠ []) (hq : q ≠ []) :
    join c (p ++ q) = join c p ++ String.singleton c ++ join c q :=
  String.intercalate_append_of_ne_nil hp hq

theorem split_append (s t : String) :
    split c (s ++ String.singleton c ++ t) = split c s ++ split c t := by
  simp only [split, String.toList_append, String.toList_singleton, List.append_assoc,
    List.singleton_append, List.splitOn_append_cons_self, List.map_append]

theorem lt_append_left_iff (l s t : List Char) : l ++ s < l ++ t ↔ s < t := by
  induction l with
  | nil => rfl
  | cons a l ih => simpa using ih

theorem append_lt_append_left_iff (s t u : String) : s ++ t < s ++ u ↔ t < u := by
  change (s ++ t).toList < (s ++ u).toList ↔ t.toList < u.toList
  rw [String.toList_append, String.toList_append, lt_append_left_iff]

def directory (c : Char) : List String → String
  | [] => ""
  | s :: p => s ++ String.singleton c ++ directory c p

theorem directory_append (c : Char) (p q : List String) :
    directory c (p ++ q) = directory c p ++ directory c q := by
  induction p with
  | nil => exact String.empty_append.symm
  | cons s p ih => simp only [List.cons_append, directory, ih, String.append_assoc]

theorem split_of_plain {s : String} (h : c ∉ s.toList) : split c s = [s] := by
  have hplain : Plain c [s] := fun _ hs => List.mem_singleton.mp hs ▸ h
  have hjoin := split_join hplain (List.cons_ne_nil _ _)
  rwa [join, String.intercalate_singleton] at hjoin

theorem split_directory (hp : Plain c p) (t : String) :
    split c (directory c p ++ t) = p ++ split c t := by
  induction p with
  | nil => rw [directory, String.empty_append, List.nil_append]
  | cons s p ih =>
    obtain ⟨hs, hp⟩ := List.forall_mem_cons.mp hp
    have hassoc : directory c (s :: p) ++ t = s ++ String.singleton c ++ (directory c p ++ t) := by
      simp only [directory, String.append_assoc]
    rw [hassoc, split_append, split_of_plain hs, ih hp]
    rfl

theorem join_split (s : String) : join c (split c s) = s := by
  apply String.toList_injective
  rw [join, split, String.toList_intercalate, String.toList_singleton, List.map_map,
    String.toList_comp_ofList, List.map_id, List.intercalate_splitOn]

theorem directory_join (hq : q ≠ []) : directory c p ++ join c q = join c (p ++ q) := by
  induction p with
  | nil => rw [directory, String.empty_append, List.nil_append]
  | cons s p ih =>
    have happend : join c ([s] ++ (p ++ q)) = s ++ String.singleton c ++ join c (p ++ q) := by
      rw [join_append (List.cons_ne_nil s []) (List.append_ne_nil_of_right_ne_nil p hq)]
      congr 2
    rw [directory, String.append_assoc, ih, ← happend]
    rfl

theorem startswith_directory_iff (hp : Plain c p) {s : String} :
    startswith s (directory c p) ↔ ∃ r, r ≠ [] ∧ split c s = p ++ r := by
  rw [startswith_iff]
  constructor
  · rintro ⟨t, rfl⟩
    exact ⟨split c t, by simp [split], split_directory hp t⟩
  · rintro ⟨r, hr, hsplit⟩
    exact ⟨join c r, by rw [directory_join hr, ← hsplit, join_split]⟩

theorem directory_unique (hp : Plain c p) (hq : Plain c q) (hlen : p.length = q.length) {s : String}
    (hsp : startswith s (directory c p)) (hsq : startswith s (directory c q)) : p = q := by
  obtain ⟨t, rfl⟩ := startswith_iff.mp hsp
  obtain ⟨u, hu⟩ := startswith_iff.mp hsq
  have hsplit : p ++ split c t = q ++ split c u := by
    rw [← split_directory hp, hu, split_directory hq]
  exact (List.append_inj hsplit hlen).1

theorem startswith_append {s t : String} (pre : String) (h : startswith s (pre ++ t)) :
    startswith s pre := by
  obtain ⟨u, rfl⟩ := startswith_iff.mp h
  exact startswith_iff.mpr ⟨t ++ u, String.append_assoc ..⟩

end LangGraphFunctions.Lib.Names

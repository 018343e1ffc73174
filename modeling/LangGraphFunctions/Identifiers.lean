import LangGraphFunctions.Validation

/-! The identifiers that the validators let through, against the grammars they are written for. -/

namespace LangGraphFunctions.Validation

variable {s t : String}

structure IsThreadId (s : String) : Prop where
  nonempty : 1 ≤ s.length
  bounded : s.length ≤ 256
  printable : ∀ c ∈ s.toList, 0x20 ≤ c.toNat ∧ c.toNat ≤ 0x7e

def IsGraphName (s : String) : Prop :=
  ∃ c rest, s.toList = c :: rest ∧ c.isAlpha ∧ rest.length ≤ 63 ∧
    ∀ d ∈ rest, d.isAlphanum ∨ d = '_' ∨ d = '-'

def BrokenLine (grammar : String → Prop) (s : String) : Prop := ∃ t, grammar t ∧ s = t.push '\n'

theorem any_matchEnds (p : List Char → Bool) (cs : List Char) :
    (matchEnds cs).any p ↔ p cs ∨ ∃ ds, p ds ∧ cs = ds ++ ['\n'] := by
  rw [matchEnds]
  split
  · next hlast =>
    obtain ⟨ds, rfl⟩ := List.getLast?_eq_some_iff.mp hlast
    simp
  · next hlast =>
    simp only [List.any_cons, List.any_nil, Bool.or_false, iff_self_or]
    rintro ⟨ds, hds, rfl⟩
    simp at hlast

theorem any_matchEnds_string (p : List Char → Bool) (s : String) :
    (matchEnds s.toList).any p ↔ p s.toList ∨ BrokenLine (fun t => p t.toList) s := by
  rw [any_matchEnds]
  apply or_congr_right
  constructor
  · rintro ⟨ds, hds, hs⟩
    refine ⟨String.ofList ds, by simpa using hds, ?_⟩
    apply String.toList_injective
    simp [hs]
  · rintro ⟨t, ht, rfl⟩
    exact ⟨t.toList, ht, by simp⟩

theorem BrokenLine.congr {p q : String → Prop} (h : ∀ t, s = t.push '\n' → (p t ↔ q t)) :
    BrokenLine p s ↔ BrokenLine q s := by
  constructor
  · rintro ⟨t, ht, hs⟩
    exact ⟨t, (h t hs).mp ht, hs⟩
  · rintro ⟨t, ht, hs⟩
    exact ⟨t, (h t hs).mpr ht, hs⟩

theorem accepts_grammar_iff {grammar p : String → Prop} (h : ∀ t, grammar t → '\n' ∉ t.toList) :
    ((grammar s ∨ BrokenLine p s) ↔ grammar s) ↔ ¬BrokenLine p s := by
  constructor
  · intro hiff hbroken
    have hs := h s (hiff.mp (.inr hbroken))
    obtain ⟨t, ht, rfl⟩ := hbroken
    simp at hs
  · intro hbroken
    simp [hbroken]

theorem isPrintable_iff (c : Char) : isPrintable c ↔ 0x20 ≤ c.toNat ∧ c.toNat ≤ 0x7e := by
  simp [isPrintable]

theorem isThreadId_iff : IsThreadId s ↔
    s.length ≤ 256 ∧ (!s.toList.isEmpty && s.toList.all isPrintable) = true := by
  simp only [Bool.and_eq_true, List.all_eq_true, isPrintable_iff]
  constructor
  · intro h
    refine ⟨h.bounded, ?_, h.printable⟩
    have := h.nonempty
    cases hs : s.toList with
    | nil => simp [← String.length_toList, hs] at this
    | cons c cs => rfl
  · rintro ⟨hbounded, hne, hprintable⟩
    refine ⟨?_, hbounded, hprintable⟩
    cases hs : s.toList with
    | nil => simp [hs] at hne
    | cons c cs => simp [← String.length_toList, hs]

theorem IsThreadId.newline_not_mem (h : IsThreadId s) : '\n' ∉ s.toList := by
  intro hmem
  exact absurd (h.printable _ hmem).1 (by decide)

theorem validateThreadId_eq_none_iff : validateThreadId s = none ↔
    IsThreadId s ∨ BrokenLine (fun t => IsThreadId t ∧ t.length < 256) s := by
  have hmatch := any_matchEnds_string (fun cs => !cs.isEmpty && cs.all isPrintable) s
  have hbroken : BrokenLine (fun t => IsThreadId t ∧ t.length < 256) s ↔ s.length ≤ 256 ∧
      BrokenLine (fun t => !t.toList.isEmpty && t.toList.all isPrintable) s := by
    constructor
    · rintro ⟨t, ⟨ht, hlen⟩, rfl⟩
      rw [String.length_push]
      exact ⟨hlen, t, (isThreadId_iff.mp ht).2, rfl⟩
    · rintro ⟨hlen, t, ht, rfl⟩
      rw [String.length_push] at hlen
      exact ⟨t, ⟨isThreadId_iff.mpr ⟨by omega, ht⟩, hlen⟩, rfl⟩
  rw [hbroken, isThreadId_iff, ← and_or_left, ← hmatch, ← matchesPrintable, validateThreadId]
  split
  · next hs =>
    subst hs
    simp [matchesPrintable, matchEnds]
  · split
    · next hlen =>
      rw [maxThreadIdLength] at hlen
      simp
      omega
    · next hlen =>
      rw [maxThreadIdLength, Nat.not_lt] at hlen
      split
      · next h => simp [h, hlen]
      · next h => simp [h]

theorem isAsciiLetter_iff (c : Char) : isAsciiLetter c ↔
    65 ≤ c.toNat ∧ c.toNat ≤ 90 ∨ 97 ≤ c.toNat ∧ c.toNat ≤ 122 := by
  simp only [isAsciiLetter, Bool.or_eq_true, Bool.and_eq_true, decide_eq_true_eq]
  rw [or_comm]
  rfl

theorem isAlpha_iff (c : Char) : c.isAlpha ↔
    65 ≤ c.toNat ∧ c.toNat ≤ 90 ∨ 97 ≤ c.toNat ∧ c.toNat ≤ 122 := by
  change (decide (c.val ≥ 'A'.val ∧ c.val ≤ 'Z'.val) ||
    (decide (c.val ≥ 'a'.val) && decide (c.val ≤ 'z'.val))) = true ↔ _
  simp only [Bool.or_eq_true, Bool.and_eq_true, decide_eq_true_eq]
  rfl

theorem isNameChar_iff (c : Char) : isNameChar c ↔ c.isAlphanum ∨ c = '_' ∨ c = '-' := by
  simp only [isNameChar, Char.isAlphanum, Bool.or_eq_true, beq_iff_eq, isAsciiLetter_iff, isAlpha_iff,
    or_assoc]

theorem isPrintable_of_isNameChar {c : Char} (h : isNameChar c) : isPrintable c := by
  simp only [isNameChar, Bool.or_eq_true, beq_iff_eq, isAsciiLetter_iff, Char.isDigit_iff_toNat] at h
  rw [isPrintable_iff]
  obtain ((h | h) | rfl) | rfl := h
  · omega
  · change 48 ≤ c.toNat ∧ c.toNat ≤ 57 at h
    omega
  · decide
  · decide

def nameBody : List Char → Bool
  | [] => false
  | c :: rest => isAsciiLetter c && rest.all isNameChar && rest.length ≤ 63

theorem matchesGraphName_eq (cs : List Char) :
    matchesGraphName cs = (matchEnds cs).any nameBody := by
  rw [matchesGraphName]
  congr 1

theorem isGraphName_iff : IsGraphName s ↔ nameBody s.toList := by
  constructor
  · rintro ⟨c, rest, hs, hc, hlen, hrest⟩
    rw [hs]
    simp only [nameBody, Bool.and_eq_true, List.all_eq_true, decide_eq_true_eq, isNameChar_iff,
      isAsciiLetter_iff, ← isAlpha_iff]
    exact ⟨⟨hc, hrest⟩, hlen⟩
  · intro h
    cases hs : s.toList with
    | nil => simp [hs, nameBody] at h
    | cons c rest =>
      simp only [hs, nameBody, Bool.and_eq_true, List.all_eq_true, decide_eq_true_eq, isNameChar_iff,
        isAsciiLetter_iff, ← isAlpha_iff] at h
      obtain ⟨⟨hc, hrest⟩, hlen⟩ := h
      exact ⟨c, rest, hs, hc, hlen, hrest⟩

theorem IsGraphName.isThreadId (h : IsGraphName s) : IsThreadId s ∧ s.length < 256 := by
  obtain ⟨c, rest, hs, hc, hlen, hrest⟩ := h
  have hlength : s.length = rest.length + 1 := by rw [← String.length_toList, hs, List.length_cons]
  have hname : ∀ d ∈ s.toList, isNameChar d := by
    rw [hs]
    intro d hd
    rw [isNameChar_iff]
    cases List.mem_cons.mp hd with
    | inl h => simp [h, Char.isAlphanum, hc]
    | inr h => exact hrest d h
  refine ⟨⟨by omega, by omega, ?_⟩, by omega⟩
  intro d hd
  rw [← isPrintable_iff]
  apply isPrintable_of_isNameChar (hname d hd)

theorem validateGraphName_eq_none_iff :
    validateGraphName s = none ↔ IsGraphName s ∨ BrokenLine IsGraphName s := by
  rw [isGraphName_iff, BrokenLine.congr fun t _ => isGraphName_iff, ← any_matchEnds_string,
    ← matchesGraphName_eq, validateGraphName]
  split
  · next hs =>
    subst hs
    simp [matchesGraphName, matchEnds]
  · split
    · next h => simp [h]
    · next h => simp [h]

structure Exact (s : String) : Prop where
  threadId : validateThreadId s = none ↔ IsThreadId s
  graphName : validateGraphName s = none ↔ IsGraphName s
  plain : validateThreadId s = none ∨ validateGraphName s = none →
    ∀ c ∈ s.toList, 0x20 ≤ c.toNat ∧ c.toNat ≤ 0x7e

theorem threadId_exact_iff (s : String) : (validateThreadId s = none ↔ IsThreadId s) ↔
    ¬∃ t, (IsThreadId t ∧ t.length < 256) ∧ s = t.push '\n' := by
  rw [validateThreadId_eq_none_iff]
  exact accepts_grammar_iff fun t h => h.newline_not_mem

theorem graphName_exact_iff (s : String) :
    (validateGraphName s = none ↔ IsGraphName s) ↔ ¬∃ t, IsGraphName t ∧ s = t.push '\n' := by
  rw [validateGraphName_eq_none_iff]
  exact accepts_grammar_iff fun t h => h.isThreadId.1.newline_not_mem

theorem exact_iff (s : String) :
    Exact s ↔ ¬∃ t, (IsThreadId t ∧ t.length < 256) ∧ s = t.push '\n' := by
  constructor
  · intro h
    apply (threadId_exact_iff s).mp h.threadId
  · intro h
    have hid : validateThreadId s = none ↔ IsThreadId s := (threadId_exact_iff s).mpr h
    have hgraph : validateGraphName s = none ↔ IsGraphName s := by
      rw [graphName_exact_iff]
      rintro ⟨t, ht, hs⟩
      exact h ⟨t, ht.isThreadId, hs⟩
    refine ⟨hid, hgraph, ?_⟩
    intro haccepted
    cases haccepted with
    | inl h => exact (hid.mp h).printable
    | inr h => exact (hgraph.mp h).isThreadId.1.printable

/-- The validators are exact but on a text of up to 255 printable characters that ends in a line
break, which `$` lets through; graph names are, but on a graph name that ends in one. -/
theorem identifiers_exact_iff (s : String) :
    (Exact s ↔ ¬∃ t, (IsThreadId t ∧ t.length < 256) ∧ s = t.push '\n') ∧
      ((validateGraphName s = none ↔ IsGraphName s) ↔ ¬∃ t, IsGraphName t ∧ s = t.push '\n') :=
  ⟨exact_iff s, graphName_exact_iff s⟩

theorem not_exact_newline :
    ¬Exact "abc\n" ∧ ¬(validateGraphName "abc\n" = none ↔ IsGraphName "abc\n") := by
  have hthread : validateThreadId "abc\n" = none := by decide +kernel
  have hname : validateGraphName "abc\n" = none := by decide +kernel
  constructor
  · intro h
    exact absurd (h.plain (.inl hthread) '\n' (by decide)).1 (by decide)
  · intro h
    exact absurd (h.mp hname).isThreadId.1.newline_not_mem (by decide)

end LangGraphFunctions.Validation

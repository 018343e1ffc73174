import Mathlib.Data.List.TakeDrop
import LangGraphFunctions.Lib.Json
import LangGraphFunctions.Lib.Prog

/-! Decoding what was encoded. -/

namespace LangGraphFunctions.Lib.Json

variable {style : Style} {allowNan : Bool} {cs rest : List Char}

theorem hexValue_digitChar : ∀ n < 16, hexValue n.digitChar = some n := by decide

theorem scanHex4_hex4 {n : Nat} (h : n < 0x10000) (cs : List Char) :
    scanHex4 (hex4 n ++ cs) = some (n, cs) := by
  change scanHex4 (_ :: _ :: _ :: _ :: cs) = _
  simp only [scanHex4, hexValue_digitChar _ (Nat.mod_lt _ (by decide : 0 < 16)),
    Option.bind_eq_bind, Option.bind_some, Option.pure_def]
  congr 2
  omega

theorem isValidChar_toNat (c : Char) :
    c.toNat < 0xd800 ∨ 0xdfff < c.toNat ∧ c.toNat < 0x110000 := c.valid

theorem scanUnicode_hex4 {c : Char} (h : c.toNat < 0x10000) (cs : List Char) :
    scanUnicode (hex4 c.toNat ++ cs) = some (c, cs) := by
  have hc := isValidChar_toNat c
  have hhigh : ¬(0xd800 ≤ c.toNat ∧ c.toNat < 0xdc00) := by omega
  have hlow : ¬(0xdc00 ≤ c.toNat ∧ c.toNat < 0xe000) := by omega
  simp only [scanUnicode, scanHex4_hex4 h, Option.bind_eq_bind, Option.bind_some, if_neg hhigh,
    if_neg hlow, Option.pure_def, Char.ofNat_toNat]

theorem scanUnicode_pair {hi lo : Nat} (hhi : 0xd800 ≤ hi ∧ hi < 0xdc00)
    (hlo : 0xdc00 ≤ lo ∧ lo < 0xe000) (cs : List Char) :
    scanUnicode (hex4 hi ++ '\\' :: 'u' :: (hex4 lo ++ cs)) =
      some (Char.ofNat (0x10000 + (hi - 0xd800) * 0x400 + (lo - 0xdc00)), cs) := by
  have hhi' : hi < 0x10000 := by omega
  have hlo' : lo < 0x10000 := by omega
  simp only [scanUnicode, scanHex4_hex4 hhi', scanHex4_hex4 hlo', Option.bind_eq_bind,
    Option.bind_some, if_pos hhi, if_pos hlo, Option.pure_def]

theorem scanUnicode_surrogates {c : Char} (h : 0x10000 ≤ c.toNat) (cs : List Char) :
    scanUnicode (hex4 (0xd800 + (c.toNat - 0x10000) / 0x400) ++
      '\\' :: 'u' :: (hex4 (0xdc00 + (c.toNat - 0x10000) % 0x400) ++ cs)) = some (c, cs) := by
  have hc := isValidChar_toNat c
  have hback : 0x10000 + (0xd800 + (c.toNat - 0x10000) / 0x400 - 0xd800) * 0x400 +
      (0xdc00 + (c.toNat - 0x10000) % 0x400 - 0xdc00) = c.toNat := by omega
  rw [scanUnicode_pair (by omega) (by omega), hback, Char.ofNat_toNat]

theorem scanChar_unicodeEscape (n : Nat) (cs : List Char) :
    scanChar (unicodeEscape n ++ cs) = scanUnicode (hex4 n ++ cs) := rfl

theorem scanChar_escapeChar (c : Char) (cs : List Char) :
    scanChar (escapeChar c ++ cs) = some (c, cs) := by
  rw [escapeChar]
  split_ifs with h₁ h₂ h₃ h₄ h₅ h₆ h₇ h₈ h₉
  · rw [h₁]; rfl
  · rw [h₂]; rfl
  · rw [h₃]; rfl
  · rw [h₄]; rfl
  · rw [h₅]; rfl
  · rw [h₆]; rfl
  · rw [h₇]; rfl
  · change (if c = '\\' then _ else if c.toNat < 0x20 then none else some (c, cs)) = _
    rw [if_neg h₂, if_neg (Nat.not_lt.mpr h₈.1)]
  · rw [scanChar_unicodeEscape, scanUnicode_hex4 h₉]
  · rw [List.append_assoc, scanChar_unicodeEscape]
    exact scanUnicode_surrogates (Nat.le_of_not_lt h₉) cs

theorem head?_escapeChar (c : Char) (cs : List Char) : (escapeChar c ++ cs).head? ≠ some '"' := by
  rw [escapeChar]
  split_ifs with h₁
  all_goals first | exact Option.some_ne_none _ ∘ Eq.symm | simp [unicodeEscape]
  exact h₁

theorem length_escapeChar_pos (c : Char) : 0 < (escapeChar c).length := by
  rw [escapeChar]
  split_ifs <;> simp [unicodeEscape]

theorem scanString_flatMap {s : List Char} {n : Nat} (h : s.length < n) (cs : List Char) :
    scanString n (s.flatMap escapeChar ++ '"' :: cs) = some (s, cs) := by
  induction s generalizing n with
  | nil =>
    cases n with
    | zero => exact absurd h (Nat.not_lt_zero _)
    | succ n => rfl
  | cons c s ih =>
    cases n with
    | zero => exact absurd h (Nat.not_lt_zero _)
    | succ n =>
      rw [List.flatMap_cons, List.append_assoc, scanString, if_neg (head?_escapeChar c _),
        scanChar_escapeChar]
      simp only [Option.bind_eq_bind, Option.bind_some, ih (Nat.lt_of_succ_lt_succ h),
        Option.pure_def]

theorem length_le_length_flatMap (s : List Char) :
    s.length ≤ (s.flatMap escapeChar).length := by
  induction s with
  | nil => exact Nat.le_refl 0
  | cons c s ih =>
    have hc := length_escapeChar_pos c
    rw [List.flatMap_cons, List.length_append, List.length_cons]
    omega

theorem scanString_quoted {s : String} {n : Nat} (h : (quoted s).length ≤ n) (cs : List Char) :
    scanString n (s.toList.flatMap escapeChar ++ ['"'] ++ cs) = some (s.toList, cs) := by
  have hlen := length_le_length_flatMap s.toList
  rw [quoted, List.length_cons, List.length_append, List.length_singleton] at h
  rw [List.append_assoc, List.singleton_append, scanString_flatMap (by omega)]

def EndsNumber (cs : List Char) : Prop := ∀ c ∈ cs.head?, isNumberChar c = false

structure IsNumberText (num : List Char) (v : Value) : Prop where
  all : num.all isNumberChar
  ne_nil : num ≠ []
  ne_minus : num ≠ ['-']
  read : readNumber num = some v

theorem scanNumber_append {num : List Char} {v : Value} (hnum : IsNumberText num v)
    (hrest : EndsNumber rest) : scanNumber (num ++ rest) = some (v, rest) := by
  have hall : ∀ c ∈ num, isNumberChar c := List.all_eq_true.mp hnum.all
  have htake : rest.takeWhile isNumberChar = [] := by
    cases rest with
    | nil => rfl
    | cons c cs => simp [hrest c rfl]
  have hdrop : rest.dropWhile isNumberChar = rest := by
    cases rest with
    | nil => rfl
    | cons c cs => simp [hrest c rfl]
  rw [scanNumber, List.takeWhile_append_of_pos hall, List.dropWhile_append_of_pos hall, htake,
    hdrop, List.append_nil, hnum.read, Option.map_some]

theorem toDigits_all (n : Nat) : (Nat.toDigits 10 n).all Char.isDigit :=
  List.all_eq_true.mpr fun _ hc => Nat.isDigit_of_mem_toDigits (by decide) (by decide) hc

theorem eq_zero_of_head?_toDigits (n : Nat) (h : (Nat.toDigits 10 n).head? = some '0') :
    n = 0 := by
  induction n using Nat.strongRecOn with
  | ind n ih =>
    cases Nat.lt_or_ge n 10 with
    | inl hn =>
      rw [Nat.toDigits_of_lt_base hn, List.head?_cons, Option.some.injEq] at h
      have hall : ∀ n < 10, n.digitChar = '0' → n = 0 := by decide
      exact hall n hn h
    | inr hn =>
      rw [Nat.toDigits_of_base_le (by decide) hn,
        List.head?_append_of_ne_nil _ Nat.toDigits_ne_nil] at h
      have := ih (n / 10) (by omega) h
      omega

theorem head?_toDigits (n : Nat) (h : (Nat.toDigits 10 n).head? = some '0') :
    (Nat.toDigits 10 n).length = 1 := by
  rw [eq_zero_of_head?_toDigits n h]
  rfl

theorem readNat_toDigits (n : Nat) : readNat (Nat.toDigits 10 n) = some n := by
  rw [readNat, if_pos ⟨Nat.toDigits_ne_nil, toDigits_all n, head?_toDigits n⟩,
    Nat.ofDigitChars_ten_toDigits]

theorem readInt_toDigits (n : Nat) : readInt (Nat.toDigits 10 n) = some (n : Int) := by
  have hall := toDigits_all n
  have hread := readNat_toDigits n
  cases hds : Nat.toDigits 10 n with
  | nil => exact absurd hds Nat.toDigits_ne_nil
  | cons d ds =>
    rw [hds] at hall hread
    have hd : d ≠ '-' := by
      rintro rfl
      exact absurd hall (by simp)
    rw [readInt, hread]
    · rfl
    · rintro ds' ⟨⟩
      exact hd rfl

theorem all_isNumberChar {ds : List Char} (h : ds.all Char.isDigit) : ds.all isNumberChar := by
  rw [List.all_eq_true] at h ⊢
  intro c hc
  simp [isNumberChar, h c hc]

theorem isNumberText_int (n : Int) : IsNumberText (toString n).toList (.int n) := by
  cases n with
  | ofNat n =>
    change IsNumberText n.repr.toList _
    rw [Nat.toList_repr]
    have hne : Nat.toDigits 10 n ≠ ['-'] := by
      intro h
      have hall := toDigits_all n
      rw [h] at hall
      exact absurd hall (by decide)
    refine ⟨all_isNumberChar (toDigits_all n), Nat.toDigits_ne_nil, hne, ?_⟩
    rw [readNumber, readInt_toDigits]
    rfl
  | negSucc n =>
    change IsNumberText ("-" ++ (n + 1).repr).toList _
    rw [String.toList_append, Nat.toList_repr]
    change IsNumberText ('-' :: Nat.toDigits 10 (n + 1)) _
    refine ⟨?_, List.cons_ne_nil _ _, ?_, ?_⟩
    · rw [List.all_cons, all_isNumberChar (toDigits_all _)]
      rfl
    · intro h
      exact Nat.toDigits_ne_nil (List.cons.inj h).2
    · rw [readNumber, readInt, readNat_toDigits]
      rfl

/-- What JSON itself can hold, with distinct member names. -/
inductive IsJson : Value → Prop
  | null : IsJson .null
  | bool : IsJson (.bool b)
  | int : IsJson (.int n)
  | float : IsNumberText r.toList (.float (.finite r)) → IsJson (.float (.finite r))
  | str : IsJson (.str s)
  | list : (∀ v ∈ vs, IsJson v) → IsJson (.list vs)
  | dict : (∀ p ∈ items, ∃ s, p.1 = .str s) → (items.map Prod.fst).Nodup →
      (∀ p ∈ items, IsJson p.2) → IsJson (.dict items)

theorem skipSpace_cons {c : Char} (h : isSpace c = false) : skipSpace (c :: cs) = c :: cs := by
  rw [skipSpace, List.dropWhile_cons, h]
  rfl

theorem skipSpace_pad (cs : List Char) : skipSpace (style.pad ++ cs) = skipSpace cs := by
  cases style with
  | spaced => rfl
  | compact => rfl

theorem scanValue_pad (style : Style) (n : Nat) (cs : List Char) :
    scanValue n (style.pad ++ cs) = scanValue n cs := by
  cases n with
  | zero => rfl
  | succ n => rw [scanValue, scanValue, skipSpace_pad]

theorem endsNumber_cons {c : Char} (h : isNumberChar c = false) : EndsNumber (c :: cs) := by
  rintro d ⟨⟩
  exact h

theorem isNumberChar_ne {c d : Char} (hc : isNumberChar c) (hd : isNumberChar d = false) :
    c ≠ d := by
  rintro rfl
  exact absurd hc (by rw [hd]; exact Bool.false_ne_true)

theorem isSpace_of_isNumberChar {c : Char} (hc : isNumberChar c) : isSpace c = false := by
  simp [isSpace, isNumberChar_ne hc (d := ' ') (by decide),
    isNumberChar_ne hc (d := '\t') (by decide), isNumberChar_ne hc (d := '\n') (by decide),
    isNumberChar_ne hc (d := '\r') (by decide)]

theorem scanLiteral_number {num : List Char} {v : Value} (h : IsNumberText num v) :
    scanLiteral (num ++ rest) = none := by
  have hall : ∀ c ∈ num, isNumberChar c := List.all_eq_true.mp h.all
  cases num with
  | nil => exact absurd rfl h.ne_nil
  | cons c ds =>
    have hc : isNumberChar c := hall c (List.mem_cons_self ..)
    have hinf : ¬(c = '-' ∧ ['I'] <+: ds ++ rest) := by
      rintro ⟨rfl, hpre⟩
      cases ds with
      | nil => exact h.ne_minus rfl
      | cons d ds =>
        have hd : isNumberChar d := hall d (by simp)
        rw [List.cons_append, List.cons_prefix_cons] at hpre
        exact isNumberChar_ne hd (d := 'I') (by decide) hpre.1.symm
    rw [scanLiteral, List.findSome?_eq_none_iff]
    intro p hp
    apply if_neg
    rw [List.isPrefixOf_iff_prefix, List.cons_append]
    intro hpre
    simp only [literals, List.mem_cons, List.not_mem_nil, or_false] at hp
    obtain rfl | rfl | rfl | rfl | rfl | rfl := hp
    · exact isNumberChar_ne hc (d := 'n') (by decide) (List.cons_prefix_cons.mp hpre).1.symm
    · exact isNumberChar_ne hc (d := 't') (by decide) (List.cons_prefix_cons.mp hpre).1.symm
    · exact isNumberChar_ne hc (d := 'f') (by decide) (List.cons_prefix_cons.mp hpre).1.symm
    · exact isNumberChar_ne hc (d := 'N') (by decide) (List.cons_prefix_cons.mp hpre).1.symm
    · exact isNumberChar_ne hc (d := 'I') (by decide) (List.cons_prefix_cons.mp hpre).1.symm
    · have hcons := List.cons_prefix_cons.mp hpre
      exact hinf ⟨hcons.1.symm, (List.prefix_append ['I'] _).trans hcons.2⟩

theorem scanValue_number {num : List Char} {v : Value} (h : IsNumberText num v)
    (hrest : EndsNumber rest) (n : Nat) : scanValue (n + 1) (num ++ rest) = some (v, rest) := by
  have hscan : (scanLiteral (num ++ rest)).or (scanNumber (num ++ rest)) = some (v, rest) := by
    rw [scanLiteral_number h, scanNumber_append h hrest]
    rfl
  cases num with
  | nil => exact absurd rfl h.ne_nil
  | cons c ds =>
    have hc : isNumberChar c := List.all_eq_true.mp h.all c (List.mem_cons_self ..)
    rw [List.cons_append] at hscan ⊢
    rw [scanValue, skipSpace_cons (isSpace_of_isNumberChar hc)]
    split
    · next heq => exact absurd (List.cons.inj heq).1 (isNumberChar_ne hc (by decide))
    · next heq => exact absurd (List.cons.inj heq).1 (isNumberChar_ne hc (by decide))
    · next heq => exact absurd (List.cons.inj heq).1 (isNumberChar_ne hc (by decide))
    · exact hscan

theorem emitElems_cons {v : Value} {vs : List Value} {parts : List (List Char)} :
    emitElems style allowNan (v :: vs) = .ok parts ↔ ∃ part parts', emit style allowNan v = .ok part ∧
      emitElems style allowNan vs = .ok parts' ∧ part :: parts' = parts := by
  rw [emitElems]
  simp only [bind_eq_ok, pure, Except.pure, Except.ok.injEq]
  constructor
  · rintro ⟨part, hp, parts', hps, rfl⟩
    exact ⟨part, parts', hp, hps, rfl⟩
  · rintro ⟨part, parts', hp, hps, rfl⟩
    exact ⟨part, hp, parts', hps, rfl⟩

theorem emitMembers_cons {k : Key} {v : Value} {items : List (Key × Value)}
    {parts : List (List Char)} :
    emitMembers style allowNan ((k, v) :: items) = .ok parts ↔ ∃ key part parts',
      k.emit allowNan = .ok key ∧ emit style allowNan v = .ok part ∧
      emitMembers style allowNan items = .ok parts' ∧
      (key ++ ':' :: style.pad ++ part) :: parts' = parts := by
  rw [emitMembers]
  simp only [bind_eq_ok, pure, Except.pure, Except.ok.injEq]
  constructor
  · rintro ⟨key, hk, part, hp, parts', hps, rfl⟩
    exact ⟨key, part, parts', hk, hp, hps, rfl⟩
  · rintro ⟨key, part, parts', hk, hp, hps, rfl⟩
    exact ⟨key, hk, part, hp, parts', hps, rfl⟩

theorem scanItems_pad {α : Type} {item : List Char → Option (α × List Char)} {close : Char}
    (hpad : ∀ cs, item (style.pad ++ cs) = item cs) (n : Nat) (cs : List Char) :
    scanItems item close n (style.pad ++ cs) = scanItems item close n cs := by
  cases n with
  | zero => rfl
  | succ n => rw [scanItems, scanItems, hpad]

theorem scanItems_intercalate {α : Type} {item : List Char → Option (α × List Char)}
    (close : Char) (rest : List Char)
    (hclose : close ≠ ',' ∧ isSpace close = false ∧ isNumberChar close = false)
    (hpad : ∀ cs, item (style.pad ++ cs) = item cs) {xs : List α} {parts : List (List Char)}
    (hitem : List.Forall₂ (fun x part => ∀ rest, EndsNumber rest →
      item (part ++ rest) = some (x, rest)) xs parts)
    (hne : xs ≠ []) {n : Nat} (hn : xs.length ≤ n) :
    scanItems item close n ((',' :: style.pad).intercalate parts ++ close :: rest) =
      some (xs, rest) := by
  induction hitem generalizing n with
  | nil => exact absurd rfl hne
  | @cons x part xs parts hx hxs ih =>
    cases n with
    | zero => exact absurd hn (Nat.not_succ_le_zero _)
    | succ n =>
      cases hxs with
      | nil =>
        rw [List.intercalate_singleton, scanItems, hx _ (endsNumber_cons hclose.2.2)]
        simp only [Option.bind_eq_bind, Option.bind_some, skipSpace_cons hclose.2.1]
        rw [if_neg hclose.1]
        exact if_pos trivial
      | cons hy hys =>
        rw [List.intercalate_cons_cons, List.append_assoc, List.append_assoc, scanItems,
          List.cons_append, hx _ (endsNumber_cons (by decide))]
        change (scanItems item close n (style.pad ++ _)).map _ = _
        rw [scanItems_pad hpad, ih (List.cons_ne_nil _ _) (Nat.le_of_succ_le_succ hn)]
        rfl

def Scans (style : Style) (allowNan : Bool) (v : Value) : Prop :=
  ∀ {cs n rest}, emit style allowNan v = .ok cs → cs.length < n → EndsNumber rest →
    scanValue n (cs ++ rest) = some (v, rest)

theorem scanMember_pad (style : Style) (value : List Char → Option (Value × List Char)) (n : Nat)
    (cs : List Char) : scanMember value n (style.pad ++ cs) = scanMember value n cs := by
  rw [scanMember, scanMember, skipSpace_pad]

theorem scanMember_emit {s : String} {v : Value} (ih : Scans style allowNan v) {part : List Char}
    (hv : emit style allowNan v = .ok part) {n : Nat}
    (hn : (quoted s ++ ':' :: style.pad ++ part).length < n) (hrest : EndsNumber rest) :
    scanMember (scanValue n) n (quoted s ++ ':' :: style.pad ++ part ++ rest) =
      some ((.str s, v), rest) := by
  simp only [List.length_append] at hn
  have hkey := scanString_quoted (s := s) (n := n) (by omega)
    (':' :: (style.pad ++ (part ++ rest)))
  rw [scanMember, quoted]
  simp only [List.cons_append, List.append_assoc] at hkey ⊢
  rw [skipSpace_cons (by decide)]
  change (scanString n _ >>= _) = _
  rw [hkey]
  change (scanValue n _).map _ = _
  rw [scanValue_pad, ih hv (by omega) hrest, Option.map_some, String.ofList_toList]

theorem length_le_length_intercalate (sep : List Char) {parts : List (List Char)}
    {part : List Char} (hpart : part ∈ parts) :
    part.length ≤ (sep.intercalate parts).length := by
  induction parts with
  | nil => exact absurd hpart List.not_mem_nil
  | cons p parts ih =>
    cases parts with
    | nil =>
      exact Nat.le_of_eq (by rw [List.mem_singleton.mp hpart, List.intercalate_singleton])
    | cons q parts =>
      rw [List.intercalate_cons_cons, List.length_append, List.length_append]
      cases List.mem_cons.mp hpart with
      | inl h => rw [h]; omega
      | inr h => have := ih h; omega

theorem length_parts_le {sep : List Char} (hsep : sep ≠ []) (parts : List (List Char)) :
    parts.length ≤ (sep.intercalate parts).length + 1 := by
  induction parts with
  | nil => exact Nat.zero_le _
  | cons p parts ih =>
    cases parts with
    | nil => exact Nat.succ_le_succ (Nat.zero_le _)
    | cons q parts =>
      have := List.length_pos_iff.mpr hsep
      rw [List.intercalate_cons_cons, List.length_append, List.length_append, List.length_cons]
      omega

theorem forall₂_emitElems {vs : List Value} {parts : List (List Char)}
    (h : emitElems style allowNan vs = .ok parts) :
    List.Forall₂ (fun v part => emit style allowNan v = .ok part) vs parts := by
  induction vs generalizing parts with
  | nil => cases h; exact .nil
  | cons v vs ih =>
    obtain ⟨part, parts', hv, hvs, rfl⟩ := emitElems_cons.mp h
    exact .cons hv (ih hvs)

theorem forall₂_emitMembers {items : List (Key × Value)} {parts : List (List Char)}
    (h : emitMembers style allowNan items = .ok parts) :
    List.Forall₂ (fun p part => ∃ key text, p.1.emit allowNan = .ok key ∧
      emit style allowNan p.2 = .ok text ∧ part = key ++ ':' :: style.pad ++ text) items parts := by
  induction items generalizing parts with
  | nil => cases h; exact .nil
  | cons p items ih =>
    obtain ⟨key, text, parts', hk, hv, hitems, rfl⟩ := emitMembers_cons.mp h
    exact .cons ⟨key, text, hk, hv, rfl⟩ (ih hitems)

theorem head?_of_scanValue {n : Nat} {r : Value × List Char} (h : scanValue n cs = some r) :
    (skipSpace cs).head? ≠ some ']' := by
  intro hhead
  cases n with
  | zero => exact nomatch h
  | succ n =>
    cases hcs : skipSpace cs with
    | nil => rw [hcs] at hhead; exact nomatch hhead
    | cons c tl =>
      rw [hcs] at hhead
      cases hhead
      rw [scanValue, hcs] at h
      exact nomatch h

theorem intercalate_cons_append (style : Style) (part : List Char) (parts : List (List Char)) :
    ∃ tl, (∀ rest, EndsNumber rest → EndsNumber (tl ++ rest)) ∧
      ∀ rest, (',' :: style.pad).intercalate (part :: parts) ++ rest = part ++ (tl ++ rest) := by
  cases parts with
  | nil => exact ⟨[], fun _ h => h, fun rest => by rw [List.intercalate_singleton]; rfl⟩
  | cons q parts =>
    refine ⟨',' :: style.pad ++ (',' :: style.pad).intercalate (q :: parts), ?_, fun rest => ?_⟩
    · intro rest _
      exact endsNumber_cons (by decide)
    · rw [List.intercalate_cons_cons, List.append_assoc, List.append_assoc, List.append_assoc]

theorem forall₂_imp_mem {α β : Type} {P Q : α → β → Prop} {xs : List α} {ys : List β}
    (h : List.Forall₂ P xs ys) (himp : ∀ x ∈ xs, ∀ y ∈ ys, P x y → Q x y) :
    List.Forall₂ Q xs ys := by
  rw [List.forall₂_iff_zip] at h ⊢
  refine ⟨h.1, fun {x y} hxy => ?_⟩
  exact himp x (List.of_mem_zip hxy).1 y (List.of_mem_zip hxy).2 (h.2 hxy)

theorem scans_list {vs : List Value} (ih : ∀ v ∈ vs, Scans style allowNan v) :
    Scans style allowNan (.list vs) := by
  intro cs n rest hcs hn hrest
  rw [emit] at hcs
  obtain ⟨parts, hparts, ⟨⟩⟩ := bind_eq_ok.mp hcs
  cases n with
  | zero => exact absurd hn (Nat.not_lt_zero _)
  | succ n =>
    rw [List.length_cons, List.length_append, List.length_singleton] at hn
    rw [List.cons_append, List.append_assoc, scanValue, skipSpace_cons (by decide)]
    have hitem : List.Forall₂ (fun v part => ∀ rest, EndsNumber rest →
        scanValue n (part ++ rest) = some (v, rest)) vs parts :=
      forall₂_imp_mem (forall₂_emitElems hparts) fun v hv part hpart hemit rest hrest => by
        have := length_le_length_intercalate (',' :: style.pad) hpart
        exact ih v hv hemit (by omega) hrest
    cases hitem with
    | nil => rfl
    | @cons v part vs parts hv hvs =>
      have hlen := length_parts_le (List.cons_ne_nil ',' style.pad) (part :: parts)
      have hscan := scanItems_intercalate ']' rest (by decide)
        (scanValue_pad style n) (.cons hv hvs) (List.cons_ne_nil _ _)
        (n := n) (by rw [(List.Forall₂.cons hv hvs).length_eq]; omega)
      obtain ⟨tl, hends, htl⟩ := intercalate_cons_append style part parts
      have hhead : (skipSpace ((',' :: style.pad).intercalate (part :: parts) ++ ']' :: rest)).head? ≠
          some ']' := by
        rw [htl]
        exact head?_of_scanValue (hv _ (hends _ (endsNumber_cons (by decide))))
      change (if _ = some ']' then _ else (scanItems (scanValue n) ']' n _).map _) = _
      rw [List.singleton_append, if_neg hhead, hscan]
      rfl

theorem scans_dict {items : List (Key × Value)} (hkeys : ∀ p ∈ items, ∃ s, p.1 = .str s)
    (hnodup : (items.map Prod.fst).Nodup) (ih : ∀ p ∈ items, Scans style allowNan p.2) :
    Scans style allowNan (.dict items) := by
  intro cs n rest hcs hn hrest
  rw [emit] at hcs
  obtain ⟨parts, hparts, ⟨⟩⟩ := bind_eq_ok.mp hcs
  cases n with
  | zero => exact absurd hn (Nat.not_lt_zero _)
  | succ n =>
    rw [List.length_cons, List.length_append, List.length_singleton] at hn
    rw [List.cons_append, List.append_assoc, scanValue, skipSpace_cons (by decide)]
    have hitem : List.Forall₂ (fun p part => (∃ tl, part = '"' :: tl) ∧ ∀ rest, EndsNumber rest →
        scanMember (scanValue n) n (part ++ rest) = some (p, rest)) items parts :=
      forall₂_imp_mem (forall₂_emitMembers hparts) fun p hp part hpart hemit => by
        obtain ⟨k, v⟩ := p
        obtain ⟨_, text, hkey, htext, rfl⟩ := hemit
        obtain ⟨s, rfl⟩ := hkeys _ hp
        cases hkey
        refine ⟨⟨_, rfl⟩, fun rest hrest => ?_⟩
        have := length_le_length_intercalate (',' :: style.pad) hpart
        exact scanMember_emit (ih _ hp) htext (by omega) hrest
    cases hitem with
    | nil => rfl
    | @cons p part items parts hp hps =>
      have hlen := length_parts_le (List.cons_ne_nil ',' style.pad) (part :: parts)
      have hall : List.Forall₂ (fun p part => ∀ rest, EndsNumber rest →
          scanMember (scanValue n) n (part ++ rest) = some (p, rest)) (p :: items) (part :: parts) :=
        .cons hp.2 (hps.imp fun _ _ h => h.2)
      have hscan := scanItems_intercalate '\x7d' rest (by decide)
        (scanMember_pad style (scanValue n) n) hall (List.cons_ne_nil _ _)
        (n := n) (by rw [hall.length_eq]; omega)
      obtain ⟨tl, -, htl⟩ := intercalate_cons_append style part parts
      have hhead : (skipSpace
          ((',' :: style.pad).intercalate (part :: parts) ++ '\x7d' :: rest)).head? ≠
            some '\x7d' := by
        obtain ⟨⟨tl', rfl⟩, -⟩ := hp
        rw [htl, List.cons_append, skipSpace_cons (by decide)]
        exact fun h => nomatch h
      change (if _ = some '\x7d' then _
        else (scanItems (scanMember (scanValue n) n) '\x7d' n _).map _) = _
      rw [List.singleton_append, if_neg hhead, hscan, Option.map_some, Dict.items_ofList hnodup]

theorem scanValue_emit {v : Value} (h : IsJson v) : Scans style allowNan v := by
  induction h with
  | null =>
    rintro _ n rest ⟨⟩ hn -
    cases n with
    | zero => exact absurd hn (Nat.not_lt_zero _)
    | succ n => rfl
  | @bool b =>
    rintro cs n rest hcs hn -
    cases n with
    | zero => exact absurd hn (Nat.not_lt_zero _)
    | succ n => cases b <;> cases hcs <;> rfl
  | @int i =>
    rintro _ n rest ⟨⟩ hn hrest
    cases n with
    | zero => exact absurd hn (Nat.not_lt_zero _)
    | succ n => exact scanValue_number (isNumberText_int i) hrest n
  | float h =>
    rintro _ n rest ⟨⟩ hn hrest
    cases n with
    | zero => exact absurd hn (Nat.not_lt_zero _)
    | succ n => exact scanValue_number h hrest n
  | @str s =>
    rintro _ n rest ⟨⟩ hn -
    cases n with
    | zero => exact absurd hn (Nat.not_lt_zero _)
    | succ n =>
      have hscan := scanString_quoted (Nat.le_of_lt_succ hn) rest
      change (scanString n (s.toList.flatMap escapeChar ++ ['"'] ++ rest)).map _ = _
      rw [hscan, Option.map_some, String.ofList_toList]
  | list h ih => exact scans_list ih
  | dict hkeys hnodup h ih => exact scans_dict hkeys hnodup ih

theorem loads_dumps {v : Value} (h : IsJson v) {text : String}
    (htext : dumps style allowNan v = .ok text) : loads text = some v := by
  rw [dumps] at htext
  cases hemit : emit style allowNan v with
  | error e => rw [hemit] at htext; exact nomatch htext
  | ok cs =>
    rw [hemit] at htext
    cases htext
    have hscan : scanValue (cs.length + 1) (cs ++ []) = some (v, []) :=
      scanValue_emit h hemit (Nat.lt_succ_self _) (by simp [EndsNumber])
    rw [List.append_nil] at hscan
    rw [loads, String.toList_ofList, loadsChars, hscan]
    rfl

inductive IsPlain : Value → Prop
  | null : IsPlain .null
  | bool : IsPlain (.bool b)
  | int : IsPlain (.int n)
  | float : IsPlain (.float x)
  | str : IsPlain (.str s)
  | list : (∀ v ∈ vs, IsPlain v) → IsPlain (.list vs)
  | dict : (∀ p ∈ items, ∃ s, p.1 = .str s) → (∀ p ∈ items, IsPlain p.2) → IsPlain (.dict items)

theorem isPlain_scanLiteral {cs : List Char} {r : Value × List Char} (h : scanLiteral cs = some r) :
    IsPlain r.1 := by
  obtain ⟨p, hp, h⟩ := List.exists_of_findSome?_eq_some h
  split at h
  · cases h
    simp only [literals, List.mem_cons, List.not_mem_nil, or_false] at hp
    obtain rfl | rfl | rfl | rfl | rfl | rfl := hp
    · exact .null
    · exact .bool
    · exact .bool
    · exact .float
    · exact .float
    · exact .float
  · exact nomatch h

theorem isPlain_scanNumber {cs : List Char} {r : Value × List Char} (h : scanNumber cs = some r) :
    IsPlain r.1 := by
  obtain ⟨v, hv, rfl⟩ := Option.map_eq_some_iff.mp h
  rw [readNumber] at hv
  split at hv
  · cases hv
    exact .int
  · split at hv
    · cases hv
      exact .float
    · exact nomatch hv

theorem all_scanItems {α : Type} {P : α → Prop} {item : List Char → Option (α × List Char)}
    {close : Char} (hitem : ∀ cs r, item cs = some r → P r.1) {n : Nat} {cs : List Char}
    {r : List α × List Char} (h : scanItems item close n cs = some r) : ∀ x ∈ r.1, P x := by
  induction n generalizing cs r with
  | zero => exact nomatch h
  | succ n ih =>
    rw [scanItems] at h
    obtain ⟨⟨x, cs⟩, hx, h⟩ := Option.bind_eq_some_iff.mp h
    have hP := hitem _ _ hx
    simp only at h
    split at h
    · exact nomatch h
    · split at h
      · obtain ⟨r', hr', rfl⟩ := Option.map_eq_some_iff.mp h
        exact List.forall_mem_cons.mpr ⟨hP, ih hr'⟩
      · split at h
        · cases h
          exact List.forall_mem_singleton.mpr hP
        · exact nomatch h

theorem isPlain_scanMember {value : List Char → Option (Value × List Char)} {n : Nat}
    {cs : List Char} {r : (Key × Value) × List Char}
    (hvalue : ∀ cs r, value cs = some r → IsPlain r.1) (h : scanMember value n cs = some r) :
    (∃ s, r.1.1 = .str s) ∧ IsPlain r.1.2 := by
  rw [scanMember] at h
  split at h
  · obtain ⟨⟨k, cs⟩, -, h⟩ := Option.bind_eq_some_iff.mp h
    simp only at h
    split at h
    · obtain ⟨r', hr', rfl⟩ := Option.map_eq_some_iff.mp h
      exact ⟨⟨_, rfl⟩, hvalue _ _ hr'⟩
    · exact nomatch h
  · exact nomatch h

theorem isPlain_scanValue {n : Nat} {cs : List Char} {r : Value × List Char}
    (h : scanValue n cs = some r) : IsPlain r.1 := by
  induction n generalizing cs r with
  | zero => exact nomatch h
  | succ n ih =>
    rw [scanValue] at h
    split at h
    · obtain ⟨s, -, rfl⟩ := Option.map_eq_some_iff.mp h
      exact .str
    · split at h
      · cases h
        exact .list fun _ h => nomatch h
      · obtain ⟨vs, hvs, rfl⟩ := Option.map_eq_some_iff.mp h
        exact .list (all_scanItems (fun _ _ => ih) hvs)
    · split at h
      · cases h
        exact .dict (fun _ h => nomatch h) fun _ h => nomatch h
      · obtain ⟨items, hitems, rfl⟩ := Option.map_eq_some_iff.mp h
        have hall := all_scanItems (P := fun p => (∃ s, p.1 = .str s) ∧ IsPlain p.2)
          (fun _ _ => isPlain_scanMember fun _ _ => ih) hitems
        exact .dict (fun p hp => (hall p (Dict.mem_ofList hp)).1)
          fun p hp => (hall p (Dict.mem_ofList hp)).2
    · cases hliteral : scanLiteral _ with
      | some r' =>
        rw [hliteral] at h
        cases h
        exact isPlain_scanLiteral hliteral
      | none =>
        rw [hliteral] at h
        exact isPlain_scanNumber h

theorem isPlain_loads {text : String} {v : Value} (h : loads text = some v) : IsPlain v := by
  rw [loads, loadsChars] at h
  split at h
  · next hscan =>
    split at h
    · cases h
      exact isPlain_scanValue hscan
    · exact nomatch h
  · exact nomatch h

theorem emitElems_ok {style : Style} {allowNan : Bool} {vs : List Value}
    (h : ∀ v ∈ vs, ∃ cs, emit style allowNan v = .ok cs) :
    ∃ parts, emitElems style allowNan vs = .ok parts := by
  induction vs with
  | nil => exact ⟨[], rfl⟩
  | cons v vs ih =>
    obtain ⟨⟨part, hpart⟩, hvs⟩ := List.forall_mem_cons.mp h
    obtain ⟨parts, hparts⟩ := ih hvs
    exact ⟨_, emitElems_cons.mpr ⟨part, parts, hpart, hparts, rfl⟩⟩

theorem emitMembers_ok {style : Style} {allowNan : Bool} {items : List (Key × Value)}
    (hkeys : ∀ p ∈ items, ∃ s, p.1 = .str s)
    (h : ∀ p ∈ items, ∃ cs, emit style allowNan p.2 = .ok cs) :
    ∃ parts, emitMembers style allowNan items = .ok parts := by
  induction items with
  | nil => exact ⟨[], rfl⟩
  | cons p items ih =>
    obtain ⟨k, v⟩ := p
    obtain ⟨⟨s, rfl⟩, hrest⟩ := List.forall_mem_cons.mp hkeys
    obtain ⟨⟨part, hpart⟩, hitems⟩ := List.forall_mem_cons.mp h
    obtain ⟨parts, hparts⟩ := ih hrest hitems
    exact ⟨_, emitMembers_cons.mpr ⟨_, part, parts, rfl, hpart, hparts, rfl⟩⟩

theorem emit_isPlain {v : Value} (h : IsPlain v) (style : Style) :
    ∃ cs, emit style true v = .ok cs := by
  induction h with
  | null => exact ⟨_, rfl⟩
  | bool => exact ⟨_, rfl⟩
  | int => exact ⟨_, rfl⟩
  | @float x => cases x <;> exact ⟨_, rfl⟩
  | str => exact ⟨_, rfl⟩
  | list _ ih =>
    obtain ⟨parts, hparts⟩ := emitElems_ok ih
    exact ⟨_, by rw [emit, hparts]; rfl⟩
  | dict hkeys _ ih =>
    obtain ⟨parts, hparts⟩ := emitMembers_ok hkeys ih
    exact ⟨_, by rw [emit, hparts]; rfl⟩

def Printable (c : Char) : Prop := 0x20 ≤ c.toNat ∧ c.toNat ≤ 0x7e

instance : DecidablePred Printable := fun c => by
  unfold Printable
  infer_instance

theorem printable_unicodeEscape (n : Nat) : ∀ c ∈ unicodeEscape n, Printable c := by
  have hdigit : ∀ n < 16, Printable n.digitChar := by decide
  intro c hc
  simp only [unicodeEscape, hex4, List.mem_cons, List.not_mem_nil, or_false] at hc
  obtain rfl | rfl | rfl | rfl | rfl | rfl := hc
  · decide
  · decide
  all_goals exact hdigit _ (Nat.mod_lt _ (by decide))

theorem printable_escapeChar (d : Char) : ∀ c ∈ escapeChar d, Printable c := by
  intro c hc
  simp only [escapeChar] at hc
  split_ifs at hc with _ _ _ _ _ _ _ hprintable
  all_goals try (simp only [List.mem_cons, List.not_mem_nil, or_false] at hc)
  all_goals try (obtain rfl | rfl := hc <;> decide)
  · exact hc ▸ hprintable
  · exact printable_unicodeEscape _ c hc
  · obtain hc | hc := List.mem_append.mp hc
    · exact printable_unicodeEscape _ c hc
    · exact printable_unicodeEscape _ c hc

theorem printable_quoted (s : String) : ∀ c ∈ quoted s, Printable c := by
  intro c hc
  rw [quoted, List.mem_cons, List.mem_append, List.mem_flatMap, List.mem_singleton] at hc
  obtain rfl | ⟨d, -, hc⟩ | rfl := hc
  · decide
  · exact printable_escapeChar d c hc
  · decide

theorem printable_of_isNumberChar {c : Char} (h : isNumberChar c) : Printable c := by
  simp only [isNumberChar, Bool.or_eq_true, beq_iff_eq] at h
  obtain ((((h | rfl) | rfl) | rfl) | rfl) | rfl := h
  · obtain ⟨hlo, hhi⟩ := Char.isDigit_iff_toNat.mp h
    have hzero : '0'.toNat = 48 := rfl
    have hnine : '9'.toNat = 57 := rfl
    exact ⟨by omega, by omega⟩
  all_goals decide

theorem mem_intercalate {c : Char} {sep : List Char} {parts : List (List Char)}
    (h : c ∈ sep.intercalate parts) : c ∈ sep ∨ ∃ part ∈ parts, c ∈ part := by
  induction parts with
  | nil => cases h
  | cons part parts ih =>
    cases parts with
    | nil =>
      rw [List.intercalate_singleton] at h
      exact .inr ⟨part, List.mem_cons_self, h⟩
    | cons next parts =>
      rw [List.intercalate_cons_cons, List.append_assoc, List.mem_append, List.mem_append] at h
      obtain h | h | h := h
      · exact .inr ⟨part, List.mem_cons_self, h⟩
      · exact .inl h
      · obtain h | ⟨part', hpart', hc⟩ := ih h
        · exact .inl h
        · exact .inr ⟨part', List.mem_cons_of_mem _ hpart', hc⟩

theorem exists_of_forall₂ {α β : Type} {P : α → β → Prop} {xs : List α} {ys : List β}
    (h : List.Forall₂ P xs ys) {y : β} (hy : y ∈ ys) : ∃ x ∈ xs, P x y := by
  induction h with
  | nil => cases hy
  | cons hP _ ih =>
    obtain rfl | hy := List.mem_cons.mp hy
    · exact ⟨_, List.mem_cons_self, hP⟩
    · obtain ⟨x, hx, hP⟩ := ih hy
      exact ⟨x, List.mem_cons_of_mem _ hx, hP⟩

theorem printable_of_all {cs : List Char} (h : cs.all (fun c => decide (Printable c)) = true) :
    ∀ c ∈ cs, Printable c :=
  fun c hc => of_decide_eq_true (List.all_eq_true.mp h c hc)

theorem printable_separator {style : Style} : ∀ c ∈ ',' :: style.pad, Printable c := by
  cases style with
  | spaced => exact printable_of_all rfl
  | compact => exact printable_of_all rfl

theorem printable_enclosed {style : Style} {parts : List (List Char)} {opening closing : Char}
    (hopening : Printable opening) (hclosing : Printable closing)
    (h : ∀ part ∈ parts, ∀ c ∈ part, Printable c) :
    ∀ c ∈ opening :: ((',' :: style.pad).intercalate parts ++ [closing]), Printable c := by
  intro c hc
  rw [List.mem_cons, List.mem_append, List.mem_singleton] at hc
  obtain rfl | hc | rfl := hc
  · exact hopening
  · obtain hc | ⟨part, hpart, hc⟩ := mem_intercalate hc
    · exact printable_separator c hc
    · exact h part hpart c hc
  · exact hclosing

theorem printable_emit {style : Style} {allowNan : Bool} {v : Value} (h : IsJson v)
    {text : List Char} (htext : emit style allowNan v = .ok text) : ∀ c ∈ text, Printable c := by
  induction h generalizing text with
  | null =>
    cases htext
    exact printable_of_all (by decide +kernel)
  | bool =>
    rw [emit] at htext
    cases htext
    split
    · exact printable_of_all (by decide +kernel)
    · exact printable_of_all (by decide +kernel)
  | int =>
    cases htext
    exact fun c hc => printable_of_isNumberChar (List.all_eq_true.mp (isNumberText_int _).all c hc)
  | float hnum =>
    cases htext
    exact fun c hc => printable_of_isNumberChar (List.all_eq_true.mp hnum.all c hc)
  | str =>
    cases htext
    exact printable_quoted _
  | list _ ih =>
    rw [emit] at htext
    cases helems : emitElems style allowNan _ with
    | error e => rw [helems] at htext; cases htext
    | ok parts =>
      rw [helems] at htext
      cases htext
      refine printable_enclosed (by decide) (by decide) fun part hpart => ?_
      obtain ⟨v, hv, hpart⟩ := exists_of_forall₂ (forall₂_emitElems helems) hpart
      exact ih v hv hpart
  | dict hkeys _ _ ih =>
    rw [emit] at htext
    cases hmembers : emitMembers style allowNan _ with
    | error e => rw [hmembers] at htext; cases htext
    | ok parts =>
      rw [hmembers] at htext
      cases htext
      refine printable_enclosed (by decide) (by decide) fun part hpart => ?_
      obtain ⟨p, hp, key, text, hkey, htext, rfl⟩ :=
        exists_of_forall₂ (forall₂_emitMembers hmembers) hpart
      obtain ⟨name, hname⟩ := hkeys p hp
      rw [hname] at hkey
      cases hkey
      intro c hc
      rw [List.append_assoc, List.mem_append, List.cons_append, List.mem_cons, List.mem_append] at hc
      obtain hc | rfl | hc | hc := hc
      · exact printable_quoted _ c hc
      · decide
      · exact printable_separator c (List.mem_cons_of_mem _ hc)
      · exact ih p hp htext c hc

end LangGraphFunctions.Lib.Json

import Mathlib.Data.List.TakeWhile

/-! Percent-encoding of UTF-8 text, and its decoding. -/

namespace LangGraphFunctions.Lib.Percent

variable {cs rest : List Char}

def isUnreserved (c : Char) : Bool :=
  c.isAlphanum || c == '_' || c == '.' || c == '-' || c == '~'

def hexDigit (n : Nat) : Char := n.digitChar.toUpper

def quoteByte (b : UInt8) : List Char :=
  if isUnreserved (Char.ofNat b.toNat) then [Char.ofNat b.toNat]
  else ['%', hexDigit (b.toNat / 16), hexDigit (b.toNat % 16)]

def quoteChars (cs : List Char) : List Char := (cs.flatMap String.utf8EncodeChar).flatMap quoteByte

def quote (s : String) : String := String.ofList (quoteChars s.toList)

def hexValue (c : Char) : Option Nat :=
  if '0' ≤ c ∧ c ≤ '9' then some (c.toNat - 48)
  else if 'A' ≤ c ∧ c ≤ 'F' then some (c.toNat - 55)
  else if 'a' ≤ c ∧ c ≤ 'f' then some (c.toNat - 87)
  else none

def hexByte (a b : Char) : Option UInt8 := do
  let a ← hexValue a
  let b ← hexValue b
  return UInt8.ofNat (a * 16 + b)

def unquoteToBytes : List Char → List UInt8
  | [] => []
  | c :: cs =>
    if c = '%' then
      match cs with
      | a :: b :: rest =>
        match hexByte a b with
        | some x => x :: unquoteToBytes rest
        | none => 0x25 :: unquoteToBytes (a :: b :: rest)
      | [a] => [0x25, UInt8.ofNat a.toNat]
      | [] => [0x25]
    else UInt8.ofNat c.toNat :: unquoteToBytes cs

def isContinuation (b : UInt8) : Bool := 0x80 ≤ b && b ≤ 0xbf

def isSecondByte (lead b : UInt8) : Bool :=
  if lead = 0xe0 then 0xa0 ≤ b && b ≤ 0xbf
  else if lead = 0xed then 0x80 ≤ b && b ≤ 0x9f
  else if lead = 0xf0 then 0x90 ≤ b && b ≤ 0xbf
  else if lead = 0xf4 then 0x80 ≤ b && b ≤ 0x8f
  else isContinuation b

def illFormedLength : List UInt8 → Nat
  | lead :: second :: third :: _ =>
    if 0xe0 ≤ lead && lead ≤ 0xf4 && isSecondByte lead second then
      if 0xf0 ≤ lead && isContinuation third then 3 else 2
    else 1
  | [lead, second] => if 0xe0 ≤ lead && lead ≤ 0xf4 && isSecondByte lead second then 2 else 1
  | _ => 1

def decodeReplace : Nat → List UInt8 → List Char
  | 0, _ => []
  | n + 1, bs =>
    if bs = [] then []
    else match bs.toByteArray.utf8DecodeChar? 0 with
      | some c => c :: decodeReplace n (bs.drop c.utf8Size)
      | none => '\ufffd' :: decodeReplace n (bs.drop (illFormedLength bs))

def isAscii (c : Char) : Bool := decide (c.toNat < 0x80)

def unquoteRun (cs : List Char) : List Char :=
  decodeReplace (unquoteToBytes cs).length (unquoteToBytes cs)

def unquoteChars : Nat → List Char → List Char
  | 0, _ => []
  | _ + 1, [] => []
  | n + 1, c :: cs =>
    if isAscii c then
      unquoteRun ((c :: cs).takeWhile isAscii) ++ unquoteChars n ((c :: cs).dropWhile isAscii)
    else c :: unquoteChars n cs

def unquote (s : String) : String := String.ofList (unquoteChars s.toList.length s.toList)

theorem hexValue_hexDigit : ∀ n < 16, hexValue (hexDigit n) = some n := by decide

theorem hexByte_hexDigit (b : UInt8) :
    hexByte (hexDigit (b.toNat / 16)) (hexDigit (b.toNat % 16)) = some b := by
  have hb := b.toNat_lt
  rw [hexByte, hexValue_hexDigit _ (by omega), hexValue_hexDigit _ (by omega)]
  change some (UInt8.ofNat (b.toNat / 16 * 16 + b.toNat % 16)) = some b
  rw [show b.toNat / 16 * 16 + b.toNat % 16 = b.toNat by omega, UInt8.ofNat_toNat]

theorem toNat_ofNat_byte (b : UInt8) : (Char.ofNat b.toNat).toNat = b.toNat := by
  have hb := b.toNat_lt
  have hvalid : b.toNat.isValidChar := Or.inl (by omega)
  rw [Char.ofNat, dif_pos hvalid]
  rfl

theorem isUnreserved_ne {c : Char} (h : isUnreserved c) : c ≠ '%' := by
  rintro rfl
  exact absurd h (by decide)

theorem unquoteToBytes_quoteByte (b : UInt8) (cs : List Char) :
    unquoteToBytes (quoteByte b ++ cs) = b :: unquoteToBytes cs := by
  rw [quoteByte]
  split
  · next h =>
    rw [List.singleton_append, unquoteToBytes.eq_def]
    change (if _ then _ else _) = _
    rw [if_neg (isUnreserved_ne h), toNat_ofNat_byte, UInt8.ofNat_toNat]
  · change unquoteToBytes ('%' :: _ :: _ :: cs) = _
    rw [unquoteToBytes.eq_def]
    change (if _ then _ else _) = _
    rw [if_pos rfl]
    change (match hexByte _ _ with | some x => _ | none => _) = _
    rw [hexByte_hexDigit]

theorem unquoteToBytes_flatMap (bs : List UInt8) :
    unquoteToBytes (bs.flatMap quoteByte) = bs := by
  induction bs with
  | nil => rfl
  | cons b bs ih => rw [List.flatMap_cons, unquoteToBytes_quoteByte, ih]

theorem decodeReplace_utf8 {n : Nat} (h : cs.length ≤ n) :
    decodeReplace n (cs.flatMap String.utf8EncodeChar) = cs := by
  induction cs generalizing n with
  | nil =>
    cases n with
    | zero => rfl
    | succ n => rfl
  | cons c cs ih =>
    cases n with
    | zero => exact absurd h (Nat.not_succ_le_zero _)
    | succ n =>
      have hne : String.utf8EncodeChar c ≠ [] := by
        apply List.length_pos_iff.mp
        rw [String.length_utf8EncodeChar]
        exact c.utf8Size_pos
      rw [List.flatMap_cons, decodeReplace, if_neg (by simp [hne]), List.toByteArray_append,
        ByteArray.utf8DecodeChar?_utf8EncodeChar_append]
      change c :: decodeReplace n (List.drop _ (_ ++ _)) = _
      rw [List.drop_left' (String.length_utf8EncodeChar c), ih (Nat.le_of_succ_le_succ h)]

theorem length_le_length_utf8 (cs : List Char) :
    cs.length ≤ (cs.flatMap String.utf8EncodeChar).length := by
  induction cs with
  | nil => exact Nat.le_refl 0
  | cons c cs ih =>
    have hc := c.utf8Size_pos
    rw [List.flatMap_cons, List.length_append, List.length_cons, String.length_utf8EncodeChar]
    omega

theorem mem_quoteByte {b : UInt8} {c : Char} (h : c ∈ quoteByte b) :
    isUnreserved c ∨ c = '%' := by
  have hhex : ∀ n < 16, isUnreserved (hexDigit n) := by decide
  have hb := b.toNat_lt
  rw [quoteByte] at h
  split at h
  · next hu =>
    rw [List.mem_singleton] at h
    exact .inl (h ▸ hu)
  · simp only [List.mem_cons, List.not_mem_nil, or_false] at h
    obtain h | rfl | rfl := h
    · exact .inr h
    · exact .inl (hhex _ (by omega))
    · exact .inl (hhex _ (by omega))

theorem mem_quote {s : String} {c : Char} (h : c ∈ (quote s).toList) :
    isUnreserved c ∨ c = '%' := by
  rw [quote, String.toList_ofList, quoteChars, List.mem_flatMap] at h
  obtain ⟨b, -, hb⟩ := h
  exact mem_quoteByte hb

theorem isAscii_of_isUnreserved {c : Char} (h : isUnreserved c) : isAscii c := by
  have hle : ∀ {m n : UInt32}, (decide (c.val ≥ m) && decide (c.val ≤ n)) = true →
      c.val.toNat ≤ n.toNat := fun h => of_decide_eq_true (Bool.and_eq_true_iff.mp h).2
  have h : ((((((c.isUpper || c.isLower) || c.isDigit) || c == '_') || c == '.') || c == '-') ||
    c == '~') = true := h
  simp only [Bool.or_eq_true, beq_iff_eq] at h
  rw [isAscii, decide_eq_true_eq]
  change c.val.toNat < 0x80
  obtain ((((((h | h) | h) | rfl) | rfl) | rfl) | rfl) := h
  · exact Nat.lt_of_le_of_lt (of_decide_eq_true h).2 (by decide)
  · exact Nat.lt_of_le_of_lt (hle h) (by decide)
  · exact Nat.lt_of_le_of_lt (hle h) (by decide)
  all_goals decide

theorem isAscii_of_mem_quote {s : String} {c : Char} (h : c ∈ (quote s).toList) : isAscii c := by
  cases mem_quote h with
  | inl hu => exact isAscii_of_isUnreserved hu
  | inr hp =>
    rw [hp]
    decide

theorem unquoteChars_ascii {n : Nat} (hn : cs.length ≤ n) (h : ∀ c ∈ cs, isAscii c) :
    unquoteChars n cs = unquoteRun cs := by
  cases n with
  | zero =>
    rw [List.length_eq_zero_iff.mp (Nat.le_zero.mp hn)]
    rfl
  | succ n =>
    cases cs with
    | nil => rfl
    | cons c cs =>
      have htake : (c :: cs).takeWhile isAscii = c :: cs := List.takeWhile_eq_self_iff.mpr h
      have hdrop : (c :: cs).dropWhile isAscii = [] := List.dropWhile_eq_nil_iff.mpr h
      have hnil : unquoteChars n [] = [] := by cases n <;> rfl
      rw [unquoteChars, if_pos (h c (List.mem_cons_self ..)), htake, hdrop, hnil, List.append_nil]

theorem unquote_quote (s : String) : unquote (quote s) = s := by
  rw [unquote, unquoteChars_ascii (Nat.le_refl _) fun _ hc => isAscii_of_mem_quote hc, quote,
    String.toList_ofList, unquoteRun, quoteChars, unquoteToBytes_flatMap,
    decodeReplace_utf8 (length_le_length_utf8 _), String.ofList_toList]

theorem quote_injective : Function.Injective quote := fun s t h => by
  rw [← unquote_quote s, h, unquote_quote]

theorem not_mem_quote {s : String} {c : Char} (h : isUnreserved c = false) (hp : c ≠ '%') :
    c ∉ (quote s).toList := fun hc => by
  cases mem_quote hc with
  | inl hu => exact absurd hu (by rw [h]; exact Bool.false_ne_true)
  | inr he => exact hp he

end LangGraphFunctions.Lib.Percent

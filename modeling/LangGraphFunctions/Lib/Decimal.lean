import Mathlib.Data.Option.Basic

/-! Whole numbers read from text as `int` reads them. -/

namespace LangGraphFunctions.Lib.Decimal

def isSpace (c : Char) : Bool :=
  let n := c.toNat
  (9 ≤ n && n ≤ 13) || (28 ≤ n && n ≤ 32) || n == 0x85 || n == 0xa0 || n == 0x1680 ||
    (0x2000 ≤ n && n ≤ 0x200a) || n == 0x2028 || n == 0x2029 || n == 0x202f || n == 0x205f ||
    n == 0x3000

def zeros : List Nat :=
  [0x30, 0x660, 0x6f0, 0x7c0, 0x966, 0x9e6, 0xa66, 0xae6, 0xb66, 0xbe6, 0xc66, 0xce6, 0xd66, 0xde6,
    0xe50, 0xed0, 0xf20, 0x1040, 0x1090, 0x17e0, 0x1810, 0x1946, 0x19d0, 0x1a80, 0x1a90, 0x1b50,
    0x1bb0, 0x1c40, 0x1c50, 0xa620, 0xa8d0, 0xa900, 0xa9d0, 0xa9f0, 0xaa50, 0xabf0, 0xff10,
    0x104a0, 0x10d30, 0x11066, 0x110f0, 0x11136, 0x111d0, 0x112f0, 0x11450, 0x114d0, 0x11650,
    0x116c0, 0x11730, 0x118e0, 0x11950, 0x11c50, 0x11d50, 0x11da0, 0x11f50, 0x16a60, 0x16ac0,
    0x16b50, 0x1d7ce, 0x1d7d8, 0x1d7e2, 0x1d7ec, 0x1d7f6, 0x1e140, 0x1e2f0, 0x1e4f0, 0x1e950,
    0x1fbf0]

def digitValue (c : Char) : Option Nat :=
  (zeros.find? fun z => z ≤ c.toNat && c.toNat < z + 10).map (c.toNat - ·)

def scanDigits : Nat → List Char → Option Nat
  | n, [] => some n
  | n, '_' :: c :: cs => (digitValue c).bind fun d => scanDigits (10 * n + d) cs
  | n, c :: cs => (digitValue c).bind fun d => scanDigits (10 * n + d) cs

def readNat : List Char → Option Nat
  | [] => none
  | c :: cs => (digitValue c).bind fun d => scanDigits d cs

def strip (cs : List Char) : List Char :=
  ((cs.dropWhile isSpace).reverse.dropWhile isSpace).reverse

def readSigned : List Char → Option Int
  | '-' :: ds => (readNat ds).map fun n => -(n : Int)
  | '+' :: ds => (readNat ds).map Int.ofNat
  | ds => (readNat ds).map Int.ofNat

/-- `int(s)`, with nothing for a `ValueError`. -/
def int (s : String) : Option Int := readSigned (strip s.toList)

theorem digitValue_of_isDigit {c : Char} (h : c.isDigit) :
    digitValue c = some (c.toNat - '0'.toNat) := by
  obtain ⟨hlo, hhi⟩ := Char.isDigit_iff_toNat.mp h
  change c.toNat ≤ 57 at hhi
  rw [digitValue, zeros, List.find?_cons_of_pos]
  · rfl
  · simp only [Bool.and_eq_true, decide_eq_true_eq]
    exact ⟨hlo, by omega⟩

theorem scanDigits_cons {c : Char} (h : c.isDigit) (n : Nat) (cs : List Char) :
    scanDigits n (c :: cs) = scanDigits (10 * n + (c.toNat - '0'.toNat)) cs := by
  have hc : c ≠ '_' := by
    rintro rfl
    exact absurd h (by decide)
  rw [scanDigits.eq_3 _ _ _ (by rintro d ds rfl; exact absurd rfl hc), digitValue_of_isDigit h]
  rfl

theorem scanDigits_digits {ds : List Char} (h : ds.all Char.isDigit) (n : Nat) :
    scanDigits n ds = some (Nat.ofDigitChars 10 ds n) := by
  induction ds generalizing n with
  | nil => rfl
  | cons c ds ih =>
    obtain ⟨hc, hds⟩ := Bool.and_eq_true_iff.mp h
    rw [scanDigits_cons hc, ih hds]
    rfl

theorem readNat_digits {ds : List Char} (hne : ds ≠ []) (h : ds.all Char.isDigit) :
    readNat ds = some (Nat.ofDigitChars 10 ds 0) := by
  cases ds with
  | nil => exact absurd rfl hne
  | cons c ds =>
    have hscan := scanDigits_digits h 0
    obtain ⟨hc, hds⟩ := Bool.and_eq_true_iff.mp h
    rw [scanDigits_cons hc, Nat.mul_zero, Nat.zero_add] at hscan
    rw [readNat, digitValue_of_isDigit hc]
    exact hscan

theorem isDigit_toDigits (n : Nat) : (Nat.toDigits 10 n).all Char.isDigit :=
  List.all_eq_true.mpr fun _ hc => Nat.isDigit_of_mem_toDigits (by decide) (by decide) hc

theorem readNat_toDigits (n : Nat) : readNat (Nat.toDigits 10 n) = some n := by
  rw [readNat_digits Nat.toDigits_ne_nil (isDigit_toDigits n), Nat.ofDigitChars_ten_toDigits]

theorem strip_of_all {cs : List Char} (h : ∀ c ∈ cs, isSpace c = false) : strip cs = cs := by
  have hid : ∀ cs : List Char, (∀ c ∈ cs, isSpace c = false) → cs.dropWhile isSpace = cs := by
    intro cs h
    cases cs with
    | nil => rfl
    | cons c cs => rw [List.dropWhile_cons_of_neg]; simp [h c]
  rw [strip, hid cs h, hid _ fun c hc => h c (List.mem_reverse.mp hc), List.reverse_reverse]

theorem isSpace_of_isDigit {c : Char} (h : c.isDigit) : isSpace c = false := by
  obtain ⟨hlo, hhi⟩ := Char.isDigit_iff_toNat.mp h
  change 48 ≤ c.toNat at hlo
  change c.toNat ≤ 57 at hhi
  rw [isSpace]
  grind

theorem strip_digits {ds : List Char} (h : ds.all Char.isDigit) : strip ds = ds :=
  strip_of_all fun c hc => isSpace_of_isDigit (List.all_eq_true.mp h c hc)

theorem readSigned_digits {ds : List Char} (hne : ds ≠ []) (h : ds.all Char.isDigit) :
    readSigned ds = some (Nat.ofDigitChars 10 ds 0 : Int) := by
  have hread := readNat_digits hne h
  cases ds with
  | nil => exact absurd rfl hne
  | cons d ds =>
    obtain ⟨hd, hds⟩ := Bool.and_eq_true_iff.mp h
    rw [readSigned, hread]
    · rfl
    · rintro ds' ⟨⟩
      exact absurd hd (by decide)
    · rintro ds' ⟨⟩
      exact absurd hd (by decide)

theorem int_digits {ds : List Char} (hne : ds ≠ []) (h : ds.all Char.isDigit) :
    int (String.ofList ds) = some (Nat.ofDigitChars 10 ds 0 : Int) := by
  rw [int, String.toList_ofList, strip_digits h, readSigned_digits hne h]

theorem int_toString (i : Int) : int (toString i) = some i := by
  cases i with
  | ofNat n =>
    have htext : toString (Int.ofNat n) = String.ofList (Nat.toDigits 10 n) := by
      simp [toString, Int.repr, Nat.repr]
    rw [htext, int_digits Nat.toDigits_ne_nil (isDigit_toDigits n), Nat.ofDigitChars_ten_toDigits]
    rfl
  | negSucc n =>
    have htext : (toString (Int.negSucc n)).toList = '-' :: Nat.toDigits 10 (n + 1) := by
      simp [toString, Int.repr, Nat.repr]
    rw [int, htext, strip_of_all, readSigned, readNat_toDigits]
    · rfl
    · intro c hc
      cases List.mem_cons.mp hc with
      | inl h => rw [h]; rfl
      | inr h => exact isSpace_of_isDigit (List.all_eq_true.mp (isDigit_toDigits _) c h)

end LangGraphFunctions.Lib.Decimal

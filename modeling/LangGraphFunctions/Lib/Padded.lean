import LangGraphFunctions.Lib.Decimal
import Mathlib.Algebra.GroupWithZero.Nat

/-! Decimals of a fixed width: in text order they stand as their values do. -/

namespace LangGraphFunctions.Lib.Decimal

/-- `f"{n:0{width}}"`. -/
def zeroPadded (width : Nat) : Int → List Char
  | .ofNat n => (Nat.toDigits 10 n).leftpad width '0'
  | .negSucc n => '-' :: (Nat.toDigits 10 (n + 1)).leftpad (width - 1) '0'

variable {width m n : Nat} {ds es : List Char}

theorem zeroPadded_natCast (width n : Nat) :
    zeroPadded width (n : Int) =
      List.replicate (width - (Nat.toDigits 10 n).length) '0' ++ Nat.toDigits 10 n :=
  rfl

theorem isDigit_zeroPadded : (zeroPadded width (n : Int)).all Char.isDigit := by
  rw [zeroPadded_natCast, List.all_append, Bool.and_eq_true]
  constructor
  · rw [List.all_replicate]
    split <;> rfl
  · apply isDigit_toDigits

theorem ofDigitChars_zeroPadded : Nat.ofDigitChars 10 (zeroPadded width (n : Int)) 0 = n := by
  rw [zeroPadded_natCast, Nat.ofDigitChars_append, Nat.ofDigitChars_replicate_zero, Nat.mul_zero,
    Nat.ofDigitChars_ten_toDigits]

theorem zeroPadded_ne_nil : zeroPadded width (n : Int) ≠ [] := by
  rw [zeroPadded_natCast]
  exact List.append_ne_nil_of_right_ne_nil _ Nat.toDigits_ne_nil

theorem length_zeroPadded (hwidth : 0 < width) (hn : n < 10 ^ width) :
    (zeroPadded width (n : Int)).length = width := by
  have hle := (Nat.length_toDigits_le_iff (by decide) hwidth).mpr hn
  rw [zeroPadded_natCast, List.length_append, List.length_replicate]
  omega

theorem digit_le {c : Char} (h : c.isDigit) : '0'.toNat ≤ c.toNat ∧ c.toNat ≤ '0'.toNat + 9 :=
  Char.isDigit_iff_toNat.mp h

theorem ofDigitChars_cons_eq (c : Char) (ds : List Char) : Nat.ofDigitChars 10 (c :: ds) 0 =
    (c.toNat - '0'.toNat) * 10 ^ ds.length + Nat.ofDigitChars 10 ds 0 := by
  rw [Nat.ofDigitChars_cons, Nat.mul_zero, Nat.zero_add, Nat.ofDigitChars_eq_ofDigitChars_zero,
    Nat.mul_comm]

theorem ofDigitChars_lt (h : ds.all Char.isDigit) : Nat.ofDigitChars 10 ds 0 < 10 ^ ds.length := by
  induction ds with
  | nil => simp
  | cons c ds ih =>
    obtain ⟨hc, hds⟩ := Bool.and_eq_true_iff.mp h
    have hlt := ih hds
    have hdigit : c.toNat - '0'.toNat ≤ 9 := by
      have := digit_le hc
      omega
    have hle := Nat.mul_le_mul_right (10 ^ ds.length) hdigit
    rw [ofDigitChars_cons_eq, List.length_cons, Nat.pow_succ]
    omega

theorem lt_of_ofDigitChars_lt (hlen : ds.length = es.length) (hds : ds.all Char.isDigit)
    (hes : es.all Char.isDigit) (h : Nat.ofDigitChars 10 ds 0 < Nat.ofDigitChars 10 es 0) (t u) :
    ds ++ t < es ++ u := by
  induction ds generalizing es with
  | nil =>
    cases es with
    | nil => simp at h
    | cons e es => simp at hlen
  | cons d ds ih =>
    cases es with
    | nil => simp at hlen
    | cons e es =>
      obtain ⟨hd, hds⟩ := Bool.and_eq_true_iff.mp hds
      obtain ⟨he, hes⟩ := Bool.and_eq_true_iff.mp hes
      have hlen : ds.length = es.length := Nat.succ.inj hlen
      rw [ofDigitChars_cons_eq, ofDigitChars_cons_eq, ← hlen] at h
      rw [List.cons_append, List.cons_append, List.cons_lt_cons_iff]
      cases Nat.lt_trichotomy d.toNat e.toNat with
      | inl hlt => exact .inl hlt
      | inr hge =>
        right
        cases hge with
        | inl heq =>
          rw [heq] at h
          exact ⟨Char.toNat_inj.mp heq, ih hlen hds hes (by omega)⟩
        | inr hgt =>
          exfalso
          have hstep : e.toNat - '0'.toNat + 1 ≤ d.toNat - '0'.toNat := by
            have := digit_le he
            omega
          have hle := Nat.mul_le_mul_right (10 ^ ds.length) hstep
          have hlt := ofDigitChars_lt hes
          rw [← hlen] at hlt
          rw [Nat.add_mul] at hle
          omega

theorem zeroPadded_append_lt (hwidth : 0 < width) (hlt : m < n) (hn : n < 10 ^ width) (t u) :
    zeroPadded width (m : Int) ++ t < zeroPadded width (n : Int) ++ u := by
  apply lt_of_ofDigitChars_lt
  · rw [length_zeroPadded hwidth (Nat.lt_trans hlt hn), length_zeroPadded hwidth hn]
  · exact isDigit_zeroPadded
  · exact isDigit_zeroPadded
  · rwa [ofDigitChars_zeroPadded, ofDigitChars_zeroPadded]

theorem int_zeroPadded (width n : Nat) :
    int (String.ofList (zeroPadded width (n : Int))) = some (n : Int) := by
  rw [int_digits zeroPadded_ne_nil isDigit_zeroPadded, ofDigitChars_zeroPadded]

end LangGraphFunctions.Lib.Decimal

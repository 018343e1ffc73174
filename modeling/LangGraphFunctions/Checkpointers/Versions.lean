import LangGraphFunctions.Lib.Names
import LangGraphFunctions.Lib.Padded

/-! Channel versions: a counter padded to a fixed width, with a random suffix after it. -/

namespace LangGraphFunctions.Checkpointers

open Lib

inductive CurrentVersion
  | none
  | int (n : Int)
  | str (s : String)

/-- `int(current.split(".")[0])`, with nothing for a `ValueError`. -/
def versionCounter (current : String) : Option Int :=
  Decimal.int ((Names.split '.' current).headD "")

/-- `f"{h:.16f}"` for the double `h = k / 2 ^ 53`: the nearest decimal, a tie going to the even one. -/
def fixed16 (k : Nat) : List Char :=
  let scaled := k * 10 ^ 16
  let floor := scaled / 2 ^ 53
  let rest := scaled % 2 ^ 53
  let rounded := if 2 ^ 52 < rest ∨ rest = 2 ^ 52 ∧ floor % 2 = 1 then floor + 1 else floor
  Nat.toDigits 10 (rounded / 10 ^ 16) ++ '.' :: Decimal.zeroPadded 16 (rounded % 10 ^ 16 : Nat)

/-- The version of the counter `n` where `random.random()` is `k / 2 ^ 53`. -/
def formatVersion (n : Int) (k : Nat) : String :=
  String.ofList (Decimal.zeroPadded 32 n ++ '.' :: fixed16 k)

def getNextVersion (current : CurrentVersion) (k : Nat) : Option String :=
  match current with
  | .none => some (formatVersion (0 + 1) k)
  | .int n => some (formatVersion (n + 1) k)
  | .str s => (versionCounter s).map fun n => formatVersion (n + 1) k

def versionChain (current : CurrentVersion) : List Nat → Option (List String)
  | [] => some []
  | k :: ks => do
    let version ← getNextVersion current k
    let versions ← versionChain (.str version) ks
    return version :: versions

def CurrentVersion.start : CurrentVersion → Option Nat
  | .none => some 0
  | .int n => n.toNat?
  | .str _ => Option.none

example : formatVersion 1 (2 ^ 52) = "00000000000000000000000000000001.0.5000000000000000" := by
  decide +kernel

variable {m n : Nat}

theorem versionCounter_formatVersion (n k : Nat) : versionCounter (formatVersion n k) = some (n : Int) := by
  have hplain : '.' ∉ (String.ofList (Decimal.zeroPadded 32 (n : Int))).toList := by
    rw [String.toList_ofList]
    intro hmem
    have hdigit := List.all_eq_true.mp Decimal.isDigit_zeroPadded _ hmem
    exact absurd hdigit (by decide)
  have htext : formatVersion n k = String.ofList (Decimal.zeroPadded 32 (n : Int)) ++
      String.singleton '.' ++ String.ofList (fixed16 k) := by
    apply String.toList_injective
    simp [formatVersion]
  rw [versionCounter, htext, Names.split_append, Names.split_of_plain hplain, List.singleton_append,
    List.headD_cons, Decimal.int_zeroPadded]

theorem formatVersion_lt (hlt : m < n) (hn : n < 10 ^ 32) (k l : Nat) :
    formatVersion m k < formatVersion n l := by
  change (formatVersion m k).toList < (formatVersion n l).toList
  rw [formatVersion, formatVersion, String.toList_ofList, String.toList_ofList]
  apply Decimal.zeroPadded_append_lt (by decide) hlt hn

def versionsFrom (n : Nat) : List Nat → List String
  | [] => []
  | k :: ks => formatVersion (n + 1 : Nat) k :: versionsFrom (n + 1) ks

theorem versionChain_str (n k : Nat) (ks : List Nat) :
    versionChain (.str (formatVersion n k)) ks = some (versionsFrom n ks) := by
  induction ks generalizing n k with
  | nil => rfl
  | cons l ks ih =>
    rw [versionChain, getNextVersion, versionCounter_formatVersion]
    change (versionChain (.str (formatVersion (n + 1 : Nat) l)) ks).bind _ = _
    rw [ih]
    rfl

theorem versionChain_eq {current : CurrentVersion} (h : current.start = some n) (ks : List Nat) :
    versionChain current ks = some (versionsFrom n ks) := by
  have hnext : ∀ k, getNextVersion current k = some (formatVersion (n + 1 : Nat) k) := by
    intro k
    cases current with
    | none =>
      cases h
      rfl
    | int i =>
      cases i with
      | ofNat i =>
        cases h
        rfl
      | negSucc i => cases h
    | str s => cases h
  cases ks with
  | nil => rfl
  | cons k ks =>
    rw [versionChain, hnext]
    change (versionChain (.str (formatVersion (n + 1 : Nat) k)) ks).bind _ = _
    rw [versionChain_str]
    rfl

theorem length_versionsFrom (n : Nat) (ks : List Nat) : (versionsFrom n ks).length = ks.length := by
  induction ks generalizing n with
  | nil => rfl
  | cons k ks ih => rw [versionsFrom, List.length_cons, List.length_cons, ih]

theorem mem_versionsFrom {ks : List Nat} {v : String} (h : v ∈ versionsFrom n ks) :
    ∃ m k, v = formatVersion (m : Nat) k ∧ n < m ∧ m ≤ n + ks.length := by
  induction ks generalizing n with
  | nil => cases h
  | cons k ks ih =>
    cases List.mem_cons.mp h with
    | inl h => exact ⟨n + 1, k, h, by simp, by simp⟩
    | inr h =>
      obtain ⟨m, l, hv, hlt, hle⟩ := ih h
      rw [List.length_cons]
      exact ⟨m, l, hv, by omega, by omega⟩

theorem pairwise_versionsFrom {ks : List Nat} (h : n + ks.length < 10 ^ 32) :
    (versionsFrom n ks).Pairwise (· < ·) := by
  induction ks generalizing n with
  | nil => exact .nil
  | cons k ks ih =>
    rw [List.length_cons] at h
    apply List.Pairwise.cons
    · intro v hv
      obtain ⟨m, l, rfl, hlt, hle⟩ := mem_versionsFrom hv
      apply formatVersion_lt hlt (by omega)
    · apply ih
      omega

theorem versionCounter_versionsFrom (ks : List Nat) (i : Nat) (h : i < (versionsFrom n ks).length) :
    versionCounter (versionsFrom n ks)[i] = some ((n + i + 1 : Nat) : Int) := by
  induction ks generalizing n i with
  | nil => cases h
  | cons k ks ih =>
    cases i with
    | zero => exact versionCounter_formatVersion (n + 1) k
    | succ i =>
      have hrest := ih i (Nat.lt_of_succ_lt_succ h) (n := n + 1)
      rw [Nat.add_right_comm n 1 i] at hrest
      exact hrest

theorem le_iff_versionCounter_le {ks : List Nat} (hbound : n + ks.length < 10 ^ 32) {v w : String}
    (hv : v ∈ versionsFrom n ks) (hw : w ∈ versionsFrom n ks) :
    w ≤ v ↔ (versionCounter w).getD 0 ≤ (versionCounter v).getD 0 := by
  obtain ⟨i, hi, rfl⟩ := List.getElem_of_mem hv
  obtain ⟨j, hj, rfl⟩ := List.getElem_of_mem hw
  have hsorted := List.pairwise_iff_getElem.mp (pairwise_versionsFrom hbound)
  rw [versionCounter_versionsFrom ks i hi, versionCounter_versionsFrom ks j hj, Option.getD_some,
    Option.getD_some, Int.ofNat_le, ← String.not_lt]
  cases Nat.lt_trichotomy i j with
  | inl h => simp [hsorted i j hi hj h, h]
  | inr h =>
    cases h with
    | inl h =>
      subst h
      simp
    | inr h => simp [String.lt_asymm (hsorted j i hj hi h), Nat.le_of_lt h]

/-- Along a chain the versions increase as strings, each gives its counter back, and the greatest
string among any of them is the one with the greatest counter. -/
theorem versions_increase (current : CurrentVersion) (n : Nat) (ks : List Nat)
    (hstart : current.start = some n) (hbound : n + ks.length < 10 ^ 32) :
    ∃ vs, versionChain current ks = some vs ∧ vs.length = ks.length ∧ vs.Pairwise (· < ·) ∧
      (∀ (i : Nat) (h : i < vs.length), versionCounter vs[i] = some ((n + i + 1 : Nat) : Int)) ∧
      ∀ S : List String, S ⊆ vs → ∀ v ∈ S, (∀ w ∈ S, w ≤ v) ↔
        ∀ w ∈ S, (versionCounter w).getD 0 ≤ (versionCounter v).getD 0 := by
  refine ⟨versionsFrom n ks, versionChain_eq hstart ks, length_versionsFrom n ks,
    pairwise_versionsFrom hbound, versionCounter_versionsFrom ks, ?_⟩
  intro S hS v hv
  apply forall_congr'
  intro w
  apply imp_congr_right
  intro hw
  apply le_iff_versionCounter_le hbound (hS hv) (hS hw)

theorem versions_increase_none :
    ∃ vs, versionChain .none [0, 2 ^ 53 - 1, 1] = some vs ∧ vs.length = 3 ∧ vs.Pairwise (· < ·) ∧
      (∀ (i : Nat) (h : i < vs.length), versionCounter vs[i] = some ((0 + i + 1 : Nat) : Int)) ∧
      ∀ S : List String, S ⊆ vs → ∀ v ∈ S, (∀ w ∈ S, w ≤ v) ↔
        ∀ w ∈ S, (versionCounter w).getD 0 ≤ (versionCounter v).getD 0 :=
  versions_increase .none 0 [0, 2 ^ 53 - 1, 1] rfl (by decide)

end LangGraphFunctions.Checkpointers

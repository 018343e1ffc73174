import LangGraphFunctions.Lib.JsonShape
import LangGraphFunctions.Validation

/-! The trees that `validate_input_structure` lets through. -/

namespace LangGraphFunctions.Validation

open Lib Platform

variable {maxDepth maxNodes depth count : Nat} {v : Json.Value}

/-- What a count over a part of the tree that holds `nodes` values on `levels` levels returns, from
the level `depth` on. -/
structure Counts (maxDepth maxNodes depth count levels nodes : Nat) (r : Nat × Option String) :
    Prop where
  accepts : r.2 = none ↔ depth + levels ≤ maxDepth + 1 ∧ count + nodes ≤ maxNodes
  total : r.2 = none → r.1 = count + nodes

theorem Counts.error (h : ¬(depth + levels ≤ maxDepth + 1 ∧ count + nodes ≤ maxNodes)) (n : Nat)
    (err : String) : Counts maxDepth maxNodes depth count levels nodes (n, some err) where
  accepts := by simpa using h
  total := by simp

theorem countMembers_eq (items : List (Json.Key × Json.Value)) :
    countMembers maxDepth maxNodes items depth count =
      countElems maxDepth maxNodes (items.map Prod.snd) depth count := by
  induction items generalizing count with
  | nil => simp only [countMembers, countElems, List.map_nil]
  | cons p items ih => simp only [countMembers, countElems, List.map_cons, ih]

theorem countElems_cons {vs : List Json.Value}
    (hv : Counts maxDepth maxNodes (depth + 1) (count + 1) v.depth v.descendants
      (countDepthAndNodes maxDepth maxNodes v (depth + 1) (count + 1)))
    (hvs : ∀ count, count ≤ maxNodes → Counts maxDepth maxNodes (depth + 1) count
      (Json.depthElems vs) (Json.descendantsElems vs) (countElems maxDepth maxNodes vs depth count)) :
    Counts maxDepth maxNodes (depth + 1) count (Json.depthElems (v :: vs))
      (Json.descendantsElems (v :: vs)) (countElems maxDepth maxNodes (v :: vs) depth count) := by
  rw [countElems, Json.depthElems, Json.descendantsElems]
  split
  · apply Counts.error
    omega
  · cases hr : countDepthAndNodes maxDepth maxNodes v (depth + 1) (count + 1) with
    | mk n err =>
      rw [hr] at hv
      cases err with
      | some err =>
        have hfail := mt hv.accepts.mpr (by simp)
        apply Counts.error
        omega
      | none =>
        obtain ⟨hdepth, hnodes⟩ := hv.accepts.mp rfl
        have hn : n = count + 1 + v.descendants := hv.total rfl
        have hrest := hvs n (by omega)
        subst hn
        constructor
        · rw [hrest.accepts]
          omega
        · intro h
          rw [hrest.total h]
          omega

theorem countElems_spec {vs : List Json.Value} (hdepth : depth ≤ maxDepth)
    (h : ∀ v ∈ vs, ∀ depth count, Counts maxDepth maxNodes depth count v.depth v.descendants
      (countDepthAndNodes maxDepth maxNodes v depth count))
    (hcount : count ≤ maxNodes) :
    Counts maxDepth maxNodes (depth + 1) count (Json.depthElems vs) (Json.descendantsElems vs)
      (countElems maxDepth maxNodes vs depth count) := by
  induction vs generalizing count with
  | nil =>
    simp only [Json.depthElems, Json.descendantsElems, countElems]
    constructor
    · simp [hdepth, hcount]
    · simp
  | cons v vs ih =>
    obtain ⟨hv, hvs⟩ := List.forall_mem_cons.mp h
    apply countElems_cons
    · apply hv
    · intro count hcount
      apply ih hvs hcount

theorem Counts.succ (h : Counts maxDepth maxNodes (depth + 1) count levels nodes r) :
    Counts maxDepth maxNodes depth count (levels + 1) nodes r where
  accepts := by rw [h.accepts, Nat.add_assoc, Nat.add_comm 1]
  total := h.total

theorem countDepthAndNodes_eq (v : Json.Value) :
    countDepthAndNodes maxDepth maxNodes v depth count =
      if maxDepth < depth then (count, some (tooDeep maxDepth))
      else if maxNodes < count then (count, some (tooMany maxNodes))
      else countElems maxDepth maxNodes v.children depth count := by
  cases v with
  | dict items => simp only [countDepthAndNodes, Json.Value.children, countMembers_eq]
  | _ => simp only [countDepthAndNodes, Json.Value.children, countElems]

theorem countDepthAndNodes_spec (v : Json.Value) (depth count : Nat) :
    Counts maxDepth maxNodes depth count v.depth v.descendants
      (countDepthAndNodes maxDepth maxNodes v depth count) := by
  induction v using Json.Value.induction generalizing depth count with
  | h v ih =>
    rw [countDepthAndNodes_eq, Json.Value.depth_eq, Json.Value.descendants_eq]
    split
    · apply Counts.error
      omega
    · split
      · apply Counts.error
        omega
      · next hdepth hcount =>
        rw [Nat.not_lt] at hdepth hcount
        apply (countElems_spec hdepth ih hcount).succ

theorem validateInputStructure_of_container (hv : v.isContainer) :
    validateInputStructure v maxDepth maxNodes = (countDepthAndNodes maxDepth maxNodes v 1 0).2 := by
  cases v with
  | list xs => rfl
  | dict items => rfl
  | _ => cases hv

theorem validateInputStructure_eq_none_iff (hv : v.isContainer) :
    validateInputStructure v maxDepth maxNodes = none ↔
      v.depth ≤ maxDepth ∧ v.descendants ≤ maxNodes := by
  rw [validateInputStructure_of_container hv, (countDepthAndNodes_spec v 1 0).accepts]
  omega

/-- The trees that are let through are the bounded ones, in whatever order they are written. -/
theorem accepts_exactly_bounded (maxDepth maxNodes : Nat) (v : Json.Value) (hv : v.isContainer) :
    (validateInputStructure v maxDepth maxNodes = none ↔
        v.depth ≤ maxDepth ∧ v.descendants ≤ maxNodes) ∧
      ∀ w, Json.Reordered v w → (validateInputStructure w maxDepth maxNodes = none ↔
        validateInputStructure v maxDepth maxNodes = none) := by
  constructor
  · apply validateInputStructure_eq_none_iff hv
  · intro w h
    rw [validateInputStructure_eq_none_iff hv, h.depth_eq, h.descendants_eq,
      validateInputStructure_eq_none_iff (h.isContainer_eq ▸ hv)]

def nestedInput : Json.Value :=
  .dict [(.str "a", .list [.int 1, .dict [(.str "b", .null)]]), (.str "c", .str "d")]

theorem accepts_exactly_bounded_nested :
    (validateInputStructure nestedInput 4 5 = none ↔
        nestedInput.depth ≤ 4 ∧ nestedInput.descendants ≤ 5) ∧
      ∀ w, Json.Reordered nestedInput w → (validateInputStructure w 4 5 = none ↔
        validateInputStructure nestedInput 4 5 = none) :=
  accepts_exactly_bounded 4 5 nestedInput rfl

end LangGraphFunctions.Validation

import LangGraphFunctions.Lib.Json
import Mathlib.Data.List.Perm.Basic

/-! The shape of a JSON tree: how deep it is, how many values it holds below the root, and that
neither depends on an order. -/

namespace LangGraphFunctions.Lib.Json

def Value.children : Value → List Value
  | .list xs => xs
  | .dict items => items.map Prod.snd
  | _ => []

def Value.isContainer : Value → Bool
  | .list _ => true
  | .dict _ => true
  | _ => false

theorem sizeOf_lt_of_mem_children (h : w ∈ Value.children v) : sizeOf w < sizeOf v := by
  cases v with
  | list xs =>
    have hlt : sizeOf w < sizeOf xs := List.sizeOf_lt_of_mem h
    simp only [Value.list.sizeOf_spec]
    omega
  | dict items =>
    obtain ⟨p, hp, rfl⟩ := List.mem_map.mp h
    have hlt := List.sizeOf_lt_of_mem hp
    cases p with
    | mk key v =>
      simp only [Prod.mk.sizeOf_spec, Value.dict.sizeOf_spec] at hlt ⊢
      omega
  | _ => cases h

theorem Value.induction {P : Value → Prop} (h : ∀ v, (∀ w ∈ v.children, P w) → P v) (v : Value) :
    P v := by
  apply h
  intro w hw
  have := sizeOf_lt_of_mem_children hw
  apply Value.induction h w
termination_by sizeOf v

mutual

def Value.depth : Value → Nat
  | .list xs => depthElems xs + 1
  | .dict items => depthMembers items + 1
  | _ => 1

def depthElems : List Value → Nat
  | [] => 0
  | v :: vs => max v.depth (depthElems vs)

def depthMembers : List (Key × Value) → Nat
  | [] => 0
  | (_, v) :: items => max v.depth (depthMembers items)

end

mutual

def Value.descendants : Value → Nat
  | .list xs => descendantsElems xs
  | .dict items => descendantsMembers items
  | _ => 0

def descendantsElems : List Value → Nat
  | [] => 0
  | v :: vs => v.descendants + 1 + descendantsElems vs

def descendantsMembers : List (Key × Value) → Nat
  | [] => 0
  | (_, v) :: items => v.descendants + 1 + descendantsMembers items

end

inductive Reordered : Value → Value → Prop
  | refl (v) : Reordered v v
  | trans : Reordered v w → Reordered w u → Reordered v u
  | items : List.Perm items items' → Reordered (.dict items) (.dict items')
  | elems : List.Perm xs ys → Reordered (.list xs) (.list ys)
  | member (key) : Reordered v w →
      Reordered (.dict (before ++ (key, v) :: after)) (.dict (before ++ (key, w) :: after))
  | elem : Reordered v w → Reordered (.list (before ++ v :: after)) (.list (before ++ w :: after))

theorem depthElems_append (xs ys : List Value) :
    depthElems (xs ++ ys) = max (depthElems xs) (depthElems ys) := by
  induction xs with
  | nil => simp [depthElems]
  | cons v vs ih => simp [depthElems, ih, Nat.max_assoc]

theorem depthMembers_eq (items : List (Key × Value)) :
    depthMembers items = depthElems (items.map Prod.snd) := by
  induction items with
  | nil => simp [depthElems, depthMembers]
  | cons p items ih => simp [depthElems, depthMembers, ih]

theorem descendantsElems_append (xs ys : List Value) :
    descendantsElems (xs ++ ys) = descendantsElems xs + descendantsElems ys := by
  induction xs with
  | nil => simp [descendantsElems]
  | cons v vs ih => simp [descendantsElems, ih, Nat.add_assoc]

theorem descendantsMembers_eq (items : List (Key × Value)) :
    descendantsMembers items = descendantsElems (items.map Prod.snd) := by
  induction items with
  | nil => simp [descendantsElems, descendantsMembers]
  | cons p items ih => simp [descendantsElems, descendantsMembers, ih]

theorem Value.depth_eq (v : Value) : v.depth = depthElems v.children + 1 := by
  cases v with
  | dict items => rw [Value.depth, depthMembers_eq, Value.children]
  | _ => rfl

theorem Value.descendants_eq (v : Value) : v.descendants = descendantsElems v.children := by
  cases v with
  | dict items => rw [Value.descendants, descendantsMembers_eq, Value.children]
  | _ => rfl

theorem depthElems_perm (h : List.Perm xs ys) : depthElems xs = depthElems ys := by
  induction h with
  | nil => rfl
  | cons v h ih => simp [depthElems, ih]
  | swap v w xs => simp only [depthElems, Nat.max_left_comm]
  | trans h h' ih ih' => rw [ih, ih']

theorem descendantsElems_perm (h : List.Perm xs ys) : descendantsElems xs = descendantsElems ys := by
  induction h with
  | nil => rfl
  | cons v h ih => simp [descendantsElems, ih]
  | swap v w xs =>
    simp only [descendantsElems]
    omega
  | trans h h' ih ih' => rw [ih, ih']

theorem Reordered.depth_eq (h : Reordered v w) : v.depth = w.depth := by
  induction h with
  | refl v => rfl
  | trans h h' ih ih' => rw [ih, ih']
  | items h => simp only [Value.depth, depthMembers_eq, depthElems_perm (h.map Prod.snd)]
  | elems h => simp only [Value.depth, depthElems_perm h]
  | member key h ih =>
    simp [Value.depth, depthMembers_eq, depthElems_append, depthElems, ih]
  | elem h ih => simp [Value.depth, depthElems_append, depthElems, ih]

theorem Reordered.descendants_eq (h : Reordered v w) : v.descendants = w.descendants := by
  induction h with
  | refl v => rfl
  | trans h h' ih ih' => rw [ih, ih']
  | items h =>
    simp only [Value.descendants, descendantsMembers_eq, descendantsElems_perm (h.map Prod.snd)]
  | elems h => simp only [Value.descendants, descendantsElems_perm h]
  | member key h ih =>
    simp [Value.descendants, descendantsMembers_eq, descendantsElems_append, descendantsElems, ih]
  | elem h ih => simp [Value.descendants, descendantsElems_append, descendantsElems, ih]

theorem Reordered.isContainer_eq (h : Reordered v w) : v.isContainer = w.isContainer := by
  induction h with
  | refl v => rfl
  | trans h h' ih ih' => rw [ih, ih']
  | _ => rfl

end LangGraphFunctions.Lib.Json

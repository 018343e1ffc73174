import LangGraphFunctions.Lib.Dict

/-! Objects that programs share by their addresses: a new one never stands where an old one does. -/

namespace LangGraphFunctions.Lib

abbrev Heap (κ : Type u) (α : Type v) := List (Dict κ α)

namespace Heap

variable {κ : Type u} {α : Type v} {heap : Heap κ α} {a : Nat}

def read (heap : Heap κ α) (a : Nat) : Dict κ α := heap.getD a ∅

def alloc (heap : Heap κ α) (d : Dict κ α) : Heap κ α × Nat := (heap ++ [d], heap.length)

/-- `a[key] = value`. -/
def setItem [DecidableEq κ] (heap : Heap κ α) (a : Nat) (key : κ) (value : α) : Heap κ α :=
  heap.modify a fun d => d.set key value

theorem read_append (h : a < heap.length) (new : Heap κ α) : read (heap ++ new) a = heap.read a := by
  simp [read, List.getElem?_append_left h]

theorem read_length (heap : Heap κ α) (d : Dict κ α) (new : Heap κ α) :
    read (heap ++ d :: new) heap.length = d := by
  simp [read]

theorem read_length_succ (heap : Heap κ α) (d e : Dict κ α) (new : Heap κ α) :
    read (heap ++ d :: e :: new) (heap.length + 1) = e := by
  simp [read]

variable [DecidableEq κ]

theorem setItem_length (heap : Heap κ α) (d : Dict κ α) (new : Heap κ α) (key : κ) (value : α) :
    setItem (heap ++ d :: new) heap.length key value = heap ++ d.set key value :: new := by
  induction heap with
  | nil => rfl
  | cons e heap ih => exact congrArg (e :: ·) ih

theorem setItem_length_succ (heap : Heap κ α) (d e : Dict κ α) (new : Heap κ α) (key : κ)
    (value : α) : setItem (heap ++ d :: e :: new) (heap.length + 1) key value =
      heap ++ d :: e.set key value :: new := by
  induction heap with
  | nil => rfl
  | cons e heap ih => exact congrArg (e :: ·) ih

end Heap

end LangGraphFunctions.Lib

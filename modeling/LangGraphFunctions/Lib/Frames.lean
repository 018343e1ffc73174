import Mathlib.Data.List.Basic
import Mathlib.Data.List.TakeWhile

/-! Frames of an event stream: two lines and a blank one, and the reader that splits a body at its
blank lines. -/

namespace LangGraphFunctions.Lib

structure Frame where
  event : String
  data : String
  deriving DecidableEq

namespace Frame

def eventMarker : List Char := ['e', 'v', 'e', 'n', 't', ':', ' ']

def dataMarker : List Char := ['d', 'a', 't', 'a', ':', ' ']

def block (f : Frame) : List Char :=
  eventMarker ++ f.event.toList ++ '\n' :: (dataMarker ++ f.data.toList)

def text (f : Frame) : String := String.ofList (f.block ++ ['\n', '\n'])

def Clean (f : Frame) : Prop := '\n' ∉ f.event.toList ∧ '\n' ∉ f.data.toList

def consHead (c : Char) : List (List Char) → List (List Char)
  | [] => [[c]]
  | b :: bs => (c :: b) :: bs

/-- `body.split("\n\n")`. -/
def splitBlank : List Char → List (List Char)
  | [] => [[]]
  | [c] => [[c]]
  | c :: d :: cs =>
    if c = '\n' ∧ d = '\n' then [] :: splitBlank cs else consHead c (splitBlank (d :: cs))

def field (marker line : List Char) : Option String :=
  if marker.isPrefixOf line then some (String.ofList (line.drop marker.length)) else none

def parse (block : List Char) : Option Frame :=
  match block.dropWhile (· != '\n') with
  | [] => none
  | _ :: second => do
    let event ← field eventMarker (block.takeWhile (· != '\n'))
    let data ← field dataMarker second
    return ⟨event, data⟩

def ofBody (body : String) : Option (List Frame) :=
  match (splitBlank body.toList).getLast? with
  | some [] => (splitBlank body.toList).dropLast.mapM parse
  | _ => none

variable {f : Frame} {line cs : List Char}

theorem text_eq {start event : String} (data : String)
    (h : start.toList = eventMarker ++ event.toList ++ '\n' :: dataMarker) :
    start ++ data ++ "\n\n" = (Frame.mk event data).text := by
  have hblank : "\n\n".toList = ['\n', '\n'] := by decide
  apply String.toList_injective
  rw [String.toList_append, String.toList_append, h, hblank, text, String.toList_ofList, block]
  simp only [List.append_assoc, List.cons_append]

theorem splitBlank_cons {c : Char} (hc : c ≠ '\n') (cs : List Char) :
    splitBlank (c :: cs) = consHead c (splitBlank cs) := by
  cases cs with
  | nil => rfl
  | cons d cs => rw [splitBlank, if_neg fun h => hc h.1]

theorem splitBlank_line (hline : '\n' ∉ line) {b : List Char} {bs : List (List Char)}
    (h : splitBlank cs = b :: bs) : splitBlank (line ++ cs) = (line ++ b) :: bs := by
  induction line with
  | nil => exact h
  | cons c line ih =>
    rw [List.mem_cons, not_or] at hline
    rw [List.cons_append, splitBlank_cons (Ne.symm hline.1), ih hline.2]
    rfl

theorem splitBlank_block (h : f.Clean) (cs : List Char) :
    splitBlank (f.block ++ '\n' :: '\n' :: cs) = f.block :: splitBlank cs := by
  have hdata : splitBlank (f.data.toList ++ '\n' :: '\n' :: cs) =
      (f.data.toList ++ []) :: splitBlank cs :=
    splitBlank_line h.2 (by rw [splitBlank, if_pos ⟨rfl, rfl⟩])
  have hsecond : splitBlank (dataMarker ++ (f.data.toList ++ '\n' :: '\n' :: cs)) =
      (dataMarker ++ (f.data.toList ++ [])) :: splitBlank cs :=
    splitBlank_line (by decide) hdata
  have hbreak : splitBlank ('\n' :: (dataMarker ++ (f.data.toList ++ '\n' :: '\n' :: cs))) =
      ('\n' :: (dataMarker ++ (f.data.toList ++ []))) :: splitBlank cs := by
    change splitBlank ('\n' :: 'd' :: _) = _
    rw [splitBlank, if_neg (by decide)]
    exact congrArg (consHead '\n') hsecond
  have hline : '\n' ∉ eventMarker ++ f.event.toList := by
    intro hmem
    cases List.mem_append.mp hmem with
    | inl hmem => exact absurd hmem (by decide)
    | inr hmem => exact h.1 hmem
  have hfirst := splitBlank_line hline hbreak
  rw [List.append_nil] at hfirst
  rw [block, List.append_assoc, List.cons_append, List.append_assoc]
  exact hfirst

theorem toList_join_text (fs : List Frame) :
    (String.join (fs.map text)).toList = fs.flatMap fun f => f.block ++ ['\n', '\n'] := by
  rw [String.toList_join, List.flatMap_map]
  congr 1
  funext f
  exact String.toList_ofList

theorem splitBlank_frames {fs : List Frame} (h : ∀ f ∈ fs, f.Clean) :
    splitBlank (String.join (fs.map text)).toList = fs.map block ++ [[]] := by
  rw [toList_join_text]
  induction fs with
  | nil => rfl
  | cons f fs ih =>
    obtain ⟨hf, hfs⟩ := List.forall_mem_cons.mp h
    rw [List.flatMap_cons, List.append_assoc, List.cons_append, List.singleton_append,
      splitBlank_block hf, ih hfs]
    rfl

theorem field_append (marker line : List Char) :
    field marker (marker ++ line) = some (String.ofList line) := by
  rw [field, if_pos (List.isPrefixOf_iff_prefix.mpr (List.prefix_append ..)), List.drop_left]

theorem parse_block (h : f.Clean) : parse f.block = some f := by
  have hfirst : ∀ c ∈ eventMarker ++ f.event.toList, (c != '\n') = true := by
    intro c hc
    rw [bne_iff_ne]
    rintro rfl
    cases List.mem_append.mp hc with
    | inl hmem => exact absurd hmem (by decide)
    | inr hmem => exact h.1 hmem
  rw [parse, block, List.dropWhile_append_of_pos hfirst, List.takeWhile_append_of_pos hfirst,
    List.dropWhile_cons_of_neg (by decide), List.takeWhile_cons_of_neg (by decide), List.append_nil]
  simp only [field_append, String.ofList_toList]
  rfl

theorem ofBody_join {fs : List Frame} (h : ∀ f ∈ fs, f.Clean) :
    ofBody (String.join (fs.map text)) = some fs := by
  rw [ofBody, splitBlank_frames h, List.getLast?_append_of_ne_nil _ (by simp)]
  change (fs.map block ++ [[]]).dropLast.mapM parse = some fs
  rw [List.dropLast_concat]
  induction fs with
  | nil => rfl
  | cons f fs ih =>
    obtain ⟨hf, hfs⟩ := List.forall_mem_cons.mp h
    rw [List.map_cons, List.mapM_cons, parse_block hf, ih hfs]
    rfl

end Frame

end LangGraphFunctions.Lib

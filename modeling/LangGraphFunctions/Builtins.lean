import LangGraphFunctions.Platform.Contracts

/-! What `bool`, `str`, `repr` and `dict` make of decoded JSON. -/

namespace LangGraphFunctions

open Lib

namespace Builtins

def truthy : Json.Value → Bool
  | .null => false
  | .bool b => b
  | .int n => n != 0
  | .float (.finite r) => r != "0.0" && r != "-0.0"
  | .str s => s != ""
  | .list xs => !xs.isEmpty
  | .dict items => !items.isEmpty
  | _ => true

def strFloat : Json.Float → String
  | .finite r => r
  | .nan => "nan"
  | .inf => "inf"
  | .negInf => "-inf"

def strBool (b : Bool) : String := if b then "True" else "False"

def reprKey : Json.Key → String
  | .str s => reprStr s
  | .int n => toString n
  | .float x => strFloat x
  | .bool b => strBool b
  | .null => "None"
  | .other => "object"

mutual

def repr : Json.Value → String
  | .null => "None"
  | .bool b => strBool b
  | .int n => toString n
  | .float x => strFloat x
  | .str s => reprStr s
  | .list xs => "[" ++ ", ".intercalate (reprElems xs) ++ "]"
  | .dict items => "\x7b" ++ ", ".intercalate (reprMembers items) ++ "\x7d"
  | .object v => repr v
  | .failing message => message

def reprElems : List Json.Value → List String
  | [] => []
  | v :: vs => repr v :: reprElems vs

def reprMembers : List (Json.Key × Json.Value) → List String
  | [] => []
  | (k, v) :: items => (reprKey k ++ ": " ++ repr v) :: reprMembers items

end

def str : Json.Value → String
  | .str s => s
  | v => repr v

def hashable : Json.Value → Except Exn Json.Key
  | .null => .ok .null
  | .bool b => .ok (.bool b)
  | .int n => .ok (.int n)
  | .float x => .ok (.float x)
  | .str s => .ok (.str s)
  | .list _ => .error (.typeError "unhashable type: 'list'")
  | .dict _ => .error (.typeError "unhashable type: 'dict'")
  | _ => .ok .other

def ofKey : Json.Key → Json.Value
  | .str s => .str s
  | .int n => .int n
  | .float x => .float x
  | .bool b => .bool b
  | .null => .null
  | .other => .object .null

def notAPair (length : Nat) : Exn :=
  .valueError s!"dictionary update sequence element has length {length}; 2 is required"

def pairOf : Json.Value → Except Exn (Json.Key × Json.Value)
  | .list [k, v] => do return (← hashable k, v)
  | .list xs => .error (notAPair xs.length)
  | .str s =>
    match s.toList with
    | [a, b] => .ok (.str (String.singleton a), .str (String.singleton b))
    | cs => .error (notAPair cs.length)
  | .dict [(k, _), (k', _)] => .ok (k, ofKey k')
  | .dict items => .error (notAPair items.length)
  | _ => .error (.typeError "cannot convert dictionary update sequence element to a sequence")

def dict : Json.Value → Except Exn Platform.JsonObject
  | .dict items => .ok (Dict.ofList items)
  | .list xs => do return Dict.ofList (← xs.mapM pairOf)
  | .str s => if s = "" then .ok ∅ else .error (notAPair 1)
  | _ => .error (.typeError "object is not iterable")

/-- `dict(value or {})`, with `None` for a value that is not there. -/
def dictOr (value : Option Json.Value) : Except Exn Platform.JsonObject :=
  match value with
  | some v => if truthy v then dict v else .ok ∅
  | none => .ok ∅

end Builtins

end LangGraphFunctions

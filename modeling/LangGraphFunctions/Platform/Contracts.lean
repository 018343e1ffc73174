import LangGraphFunctions.Errors

namespace LangGraphFunctions.Platform

open Lib

abbrev JsonObject := Dict Json.Key Json.Value

def JsonObject.toValue (o : JsonObject) : Json.Value := .dict o.items

inductive ThreadStatus
  | idle
  | busy
  | interrupted
  | error
  deriving DecidableEq, Repr

namespace ThreadStatus

def text : ThreadStatus → String
  | idle => "idle"
  | busy => "busy"
  | interrupted => "interrupted"
  | error => "error"

def ofText (s : String) : Option ThreadStatus :=
  [idle, busy, interrupted, error].find? fun status => status.text == s

@[simp] theorem ofText_text (status : ThreadStatus) : ofText status.text = some status := by
  cases status <;> rfl

end ThreadStatus

structure Interrupt where
  value : Json.Value
  id : String

/-- What `_default` hands back to the encoder for a pydantic model. -/
def Interrupt.toValue (i : Interrupt) : Json.Value :=
  .object (.dict [(.str "value", i.value), (.str "id", .str i.id)])

structure Thread where
  threadId : String
  createdAt : Int
  updatedAt : Int
  metadata : Option JsonObject
  status : ThreadStatus
  values : Option JsonObject
  assistantId : Option String
  interrupts : Dict Json.Key (List Interrupt)
  lockToken : Option String
  lockExpiresAt : Option Int

def interruptsToValue (interrupts : Dict Json.Key (List Interrupt)) : Json.Value :=
  .dict (interrupts.items.map fun p => (p.1, .list (p.2.map Interrupt.toValue)))

def validationError (field : String) : Exn := .valueError s!"ValidationError: {field}"

def validateJson (field : String) : Json.Value → Except Exn (Option JsonObject)
  | .null => .ok none
  | .dict items => .ok (some (Dict.ofList items))
  | _ => .error (validationError field)

def validateInterrupt : Json.Value → Except Exn Interrupt
  | .dict items =>
    match (Dict.ofList items).get? (.str "id") with
    | some (.str id) => .ok ⟨((Dict.ofList items).get? (.str "value")).getD .null, id⟩
    | _ => .error (validationError "interrupts")
  | _ => .error (validationError "interrupts")

def validateInterruptList : Json.Value → Except Exn (List Interrupt)
  | .list vs => vs.mapM validateInterrupt
  | _ => .error (validationError "interrupts")

def validateInterrupts : Json.Value → Except Exn (Dict Json.Key (List Interrupt))
  | .dict items => do
    let pairs ← items.mapM fun p => return (p.1, ← validateInterruptList p.2)
    return Dict.ofList pairs
  | _ => .error (validationError "interrupts")

end LangGraphFunctions.Platform

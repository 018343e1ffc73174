import LangGraphFunctions.Builtins
import LangGraphFunctions.Host

/-! The records that pass through a durable orchestration, and the acceptance of a run. -/

namespace LangGraphFunctions.Durable

open Lib Platform

inductive ActivityStatus
  | success
  | error
  | rejected
  deriving DecidableEq

def ActivityStatus.text : ActivityStatus → String
  | success => "success"
  | error => "error"
  | rejected => "rejected"

structure ErrorShape where
  type : String
  message : String

def serializeError (exc : Exn) : Except Exn ErrorShape := do
  return ⟨exc.typeName, ← exc.str⟩

/-- A field that holds `None` is `null`; nothing has checked its type. -/
structure DurableRunPayload where
  runId : String
  graphName : String
  input : Json.Value
  threadId : Json.Value
  config : JsonObject
  assistantId : Json.Value
  correlationId : Json.Value

namespace DurableRunPayload

def toDict (payload : DurableRunPayload) : JsonObject :=
  Dict.ofList [(.str "run_id", .str payload.runId), (.str "graph_name", .str payload.graphName),
    (.str "input", payload.input), (.str "thread_id", payload.threadId),
    (.str "config", payload.config.toValue), (.str "assistant_id", payload.assistantId),
    (.str "correlation_id", payload.correlationId)]

def item (data : JsonObject) (key : String) : Except Exn Json.Value :=
  match data.get? (.str key) with
  | some v => .ok v
  | none => .error (.keyError key)

def get (data : JsonObject) (key : String) : Json.Value := (data.get? (.str key)).getD .null

def fromDict (data : JsonObject) : Except Exn DurableRunPayload := do
  return {
    runId := Builtins.str (← item data "run_id")
    graphName := Builtins.str (← item data "graph_name")
    input := get data "input"
    threadId := get data "thread_id"
    config := ← Builtins.dictOr (data.get? (.str "config"))
    assistantId := get data "assistant_id"
    correlationId := get data "correlation_id" }

theorem dictOr_toValue (o : JsonObject) : Builtins.dictOr (some o.toValue) = .ok o := by
  rw [Builtins.dictOr, JsonObject.toValue, Builtins.truthy]
  split
  · rw [Builtins.dict, Dict.ofList_items]
  · next h =>
    have hitems : o.items = [] := by simpa using h
    exact congrArg Except.ok (Dict.ext hitems.symm)

theorem fromDict_toDict (payload : DurableRunPayload) : fromDict payload.toDict = .ok payload := by
  change (do
    let config ← Builtins.dictOr (some payload.config.toValue)
    return { payload with config := config } : Except Exn DurableRunPayload) = _
  rw [dictOr_toValue]
  rfl

end DurableRunPayload

structure DurableRunResult where
  runId : String
  activityStatus : ActivityStatus
  result : Json.Value
  error : Option ErrorShape

namespace DurableRunResult

def toDict (r : DurableRunResult) : Json.Value :=
  .dict [(.str "run_id", .str r.runId), (.str "activity_status", .str r.activityStatus.text),
    (.str "result", r.result),
    (.str "error", match r.error with
      | none => .null
      | some e => .dict [(.str "type", .str e.type), (.str "message", .str e.message)])]

def success (runId : String) (result : Json.Value) : DurableRunResult :=
  ⟨runId, .success, result, none⟩

def failure (runId : String) (exc : Exn) : Except Exn DurableRunResult := do
  return ⟨runId, .error, .null, some (← serializeError exc)⟩

def rejected (runId reason : String) : DurableRunResult :=
  ⟨runId, .rejected, .null, some ⟨"ThreadContentionError", reason⟩⟩

end DurableRunResult

structure Registration where
  name : String
  hasCheckpointer : Bool

abbrev Registry := String → Option Registration

def createRunImpl (body : JsonObject) (graphName uuid : String) : Except Exn DurableRunPayload := do
  let get := DurableRunPayload.get
  let runId := if Builtins.truthy (get body "run_id") then Builtins.str (get body "run_id") else uuid
  let config ← Builtins.dictOr (body.get? (.str "config"))
  let threadId := match get body "thread_id", config.get? configurableKey with
    | .null, some (.dict items) => ((Dict.ofList items).get? threadIdKey).getD .null
    | threadId, _ => threadId
  return {
    runId := runId
    graphName := graphName
    input := get body "input"
    threadId := threadId
    config := config
    assistantId := get body "assistant_id"
    correlationId := get body "correlation_id" }

def parseBody (raw : String) (maxBytes : Nat) : Except String JsonObject :=
  if maxBytes < raw.utf8ByteSize then .error s!"request body exceeds {maxBytes} bytes"
  else if raw = "" then .ok ∅
  else
    match Json.loads raw with
    | none => .error "request body is not valid JSON"
    | some (.dict items) => .ok (Dict.ofList items)
    | some _ => .error "request body must be a JSON object"

inductive CreateResponse
  | accepted (payload : DurableRunPayload)
  | refused (statusCode : Nat) (error : String)

def createRunHttp (registry : Registry) (graphName raw uuid : String) (maxBytes : Nat) :
    Except Exn CreateResponse :=
  if (registry graphName).isNone then
    .ok (.refused 404 s!"no graph registered under name {reprStr graphName}")
  else
    match parseBody raw maxBytes with
    | .error error => .ok (.refused (if maxBytes < raw.utf8ByteSize then 413 else 400) error)
    | .ok body => do return .accepted (← createRunImpl body graphName uuid)

end LangGraphFunctions.Durable

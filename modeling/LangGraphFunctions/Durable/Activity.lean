import LangGraphFunctions.Durable.State

/-! The activity that executes a run. -/

namespace LangGraphFunctions.Durable

open Lib Platform

variable {γ : Type}

/-- `**config.get("configurable", {})`. -/
def spreadConfigurable (config : JsonObject) : Except Exn JsonObject :=
  match config.get? configurableKey with
  | none => .ok ∅
  | some (.dict items) => .ok (Dict.ofList items)
  | some _ => .error (.typeError "object is not a mapping")

def runConfigOf (payload : DurableRunPayload) : Except Exn (Option (RunConfig γ)) :=
  match payload.threadId with
  | .null => .ok (if payload.config.items.isEmpty then none else some (payload.config.mapValues .json))
  | threadId => do
    let configurable ← spreadConfigurable payload.config
    let settings := (settingsOfJson configurable).set threadIdKey (.json threadId)
    return some ((payload.config.mapValues .json).set configurableKey (.settings settings))

/-- The `try` block: the graph runs under the guard, and its output goes through JSON. -/
def runGraph (reg : Registration) (payload : DurableRunPayload) (lockThreadId : Option Json.Value)
    (lockToken : Option String) (config : Option (RunConfig γ)) : Host γ Json.Value := do
  let (runConfig, guard) ← Host.guardRunConfig reg.name lockThreadId lockToken config
  let result ← Host.invoke ⟨reg.name, payload.input, runConfig, none, none⟩
  Host.checkOwnershipGuard guard
  Host.exceptException
    (do
      let text ← Host.dumps result.value
      .ofExcept ((loads text).mapError .exception))
    fun _ => .raise (.exception .outputSerializationError)

def executeLocked (reg : Registration) (payload : DurableRunPayload) (ctx : RunContext)
    (lockThreadId : Option Json.Value) (lockToken : Option String) : Host γ DurableRunResult :=
  if lockThreadId.isSome && lockToken.isNone then do
    Host.observe (.rejected ctx .lockContention)
    return .rejected payload.runId
      s!"Thread {Builtins.repr payload.threadId} for graph {reprStr reg.name} is currently in use"
  else do
    let config ← .ofExcept ((runConfigOf payload).mapError .exception)
    Host.observe (.started ctx)
    match ← (runGraph reg payload lockThreadId lockToken config).attempt with
    | .error exc =>
      Host.observe (.failed ctx exc)
      match exc with
      | .exception exc => .ofExcept ((DurableRunResult.failure payload.runId exc).mapError .exception)
      | exc => .raise exc
    | .ok result =>
      Host.observe (.completed ctx)
      return .success payload.runId result

def lockThreadIdOf (reg : Registration) (payload : DurableRunPayload) : Option Json.Value :=
  if Builtins.truthy payload.threadId && reg.hasCheckpointer then some payload.threadId else none

def executeLanggraphRunImpl (registry : Registry) (lockBackend : String)
    (payload : DurableRunPayload) : Host γ DurableRunResult :=
  match registry payload.graphName with
  | none =>
    .ofExcept ((DurableRunResult.failure payload.runId
      (.keyError s!"No graph registered under name {reprStr payload.graphName}")).mapError .exception)
  | some reg => do
    let ctx ← Host.newRunContext {
      graphName := reg.name
      endpoint := .invoke
      runId := payload.runId
      threadId := payload.threadId
      assistantId := payload.assistantId
      invocationId := none
      streamMode := none
      hasCheckpointer := reg.hasCheckpointer
      lockBackend := lockBackend
      triggerType := some "durable" }
    let lockThreadId := lockThreadIdOf reg payload
    Host.asyncThreadLock reg.name lockThreadId 0 (executeLocked reg payload ctx lockThreadId)

def executeLanggraphRun (registry : Registry) (lockBackend : String) (payload : JsonObject) :
    Host γ Json.Value := do
  let parsed ← .ofExcept ((DurableRunPayload.fromDict payload).mapError .exception)
  let result ← executeLanggraphRunImpl registry lockBackend parsed
  return result.toDict

end LangGraphFunctions.Durable

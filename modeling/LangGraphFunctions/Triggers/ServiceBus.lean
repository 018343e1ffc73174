import LangGraphFunctions.Host
import LangGraphFunctions.Builtins
import LangGraphFunctions.Lib.Decimal

/-! Graphs driven by Service Bus messages. -/

namespace LangGraphFunctions.Triggers

open Lib Platform

variable {γ : Type}

structure ServiceBusMessage where
  messageId : Option String
  sessionId : Option String

structure ServiceBusRegistration where
  name : String
  hasCheckpointer : Bool
  hasThreadIdFactory : Bool
  hasResultHandler : Bool
  lockTimeout : Rat
  session : Bool
  sessionExclusive : Bool

/-- `not session_id.strip()`. -/
def isBlank (s : String) : Bool := s.toList.all Decimal.isSpace

def messageThreadId (reg : ServiceBusRegistration) (msg : ServiceBusMessage) :
    Host γ (Option String) := do
  let threadId ← if reg.hasThreadIdFactory then (Host.perform .threadIdFactory).bind .ofExcept
    else pure none
  if reg.session then
    match msg.sessionId with
    | none => .raise (.exception (.valueError "session mode requires a nonempty message session_id"))
    | some sessionId =>
      if isBlank sessionId then
        .raise (.exception (.valueError "session mode requires a nonempty message session_id"))
      else if reg.hasThreadIdFactory && threadId != some sessionId then
        .raise (.exception (.valueError
          "thread_id_factory must match message session_id in session mode"))
      else return some sessionId
  else return threadId

def messageContext (reg : ServiceBusRegistration) (msg : ServiceBusMessage) (lockBackend : String)
    (threadId : Option String) : Host γ RunContext :=
  Host.newRunContext {
    graphName := reg.name
    endpoint := .invoke
    runId := ""
    threadId := match threadId with
      | some threadId => .str threadId
      | none => .null
    assistantId := .null
    invocationId := msg.messageId
    streamMode := none
    hasCheckpointer := reg.hasCheckpointer
    lockBackend := lockBackend
    triggerType := some "service_bus" }

def useLock (reg : ServiceBusRegistration) (threadId : Option String) : Bool :=
  threadId.any (· != "") && reg.hasCheckpointer && !reg.sessionExclusive

def contention (reg : ServiceBusRegistration) (threadId : Option String) : Raised Exn :=
  .exception (.threadContentionError
    s!"Thread {reprOptional threadId} for graph {reprStr reg.name} is currently in use; message will be retried by the broker")

def messageConfig (threadId : Option String) : Option (RunConfig γ) :=
  (threadId.filter (· != "")).map fun threadId =>
    Dict.ofList [(configurableKey, .settings (Dict.ofList [(threadIdKey, .json (.str threadId))]))]

def invokeMessage (reg : ServiceBusRegistration) (graphInput : Json.Value)
    (threadId : Option String) (guardThreadId : Option Json.Value) (lockToken : Option String) :
    Host γ GraphOutput := do
  let (runConfig, guard) ←
    Host.guardRunConfig reg.name guardThreadId lockToken (messageConfig threadId)
  let result ← Host.invoke ⟨reg.name, graphInput, runConfig, none, none⟩
  Host.checkOwnershipGuard guard
  return result

def observeRun (reg : ServiceBusRegistration) (ctx : RunContext) (graphInput : Json.Value)
    (threadId : Option String) (guardThreadId : Option Json.Value) (lockToken : Option String) :
    Host γ GraphOutput := do
  Host.observe (.started ctx)
  match ← (invokeMessage reg graphInput threadId guardThreadId lockToken).attempt with
  | .error exc =>
    Host.observe (.failed ctx exc)
    .raise exc
  | .ok result =>
    Host.observe (.completed ctx)
    return result

def handleResult (reg : ServiceBusRegistration) (result : GraphOutput) : Host γ GraphOutput := do
  if reg.hasResultHandler then (Host.perform (.resultHandler result)).bind .ofExcept
  return result

def processServiceBusMessage (reg : ServiceBusRegistration) (msg : ServiceBusMessage)
    (lockBackend : String) : Host γ GraphOutput := do
  let graphInput ← (Host.perform .inputMapper).bind .ofExcept
  let threadId ← messageThreadId reg msg
  let ctx ← messageContext reg msg lockBackend threadId
  match threadId.filter fun _ => useLock reg threadId with
  | none =>
    let result ← observeRun reg ctx graphInput threadId (threadId.map .str) none
    handleResult reg result
  | some lockThreadId =>
    let lockToken ← Host.acquire reg.name (.str lockThreadId) reg.lockTimeout
    match lockToken.filter (· != "") with
    | none => .raise (contention reg threadId)
    | some lockToken =>
      let result ← (observeRun reg ctx graphInput threadId (threadId.map .str)
        (some lockToken)).andFinally (Host.release reg.name (.str lockThreadId) lockToken)
      handleResult reg result

def processServiceBusMessageAsync (reg : ServiceBusRegistration) (msg : ServiceBusMessage)
    (lockBackend : String) : Host γ GraphOutput := do
  let graphInput ← (Host.perform .inputMapper).bind .ofExcept
  let threadId ← messageThreadId reg msg
  let ctx ← messageContext reg msg lockBackend threadId
  let lockThreadId : Option Json.Value := if useLock reg threadId then threadId.map .str else none
  let result ← Host.asyncThreadLock reg.name lockThreadId reg.lockTimeout fun lockToken =>
    if lockThreadId.isSome && lockToken.isNone then .raise (contention reg threadId)
    else observeRun reg ctx graphInput threadId lockThreadId lockToken
  handleResult reg result

end LangGraphFunctions.Triggers

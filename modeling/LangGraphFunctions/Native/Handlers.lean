import LangGraphFunctions.Native.Requests

/-! The handlers of the native invoke and stream endpoints. -/

namespace LangGraphFunctions.Native

open Lib Platform

variable {γ : Type}

structure Env where
  model : Model
  limits : Limits
  lockBackend : String
  authorize : Bool

structure Ready where
  ctx : RunContext
  request : RunRequest
  config : JsonObject
  threadId : Option String
  version : Option String

/-- The checks after the authorizer's: its refusal, and the version that the method is called with. -/
def proceed (reg : Registration) (method : Method) (request : RunRequest) (threadId : Option String)
    (ctx : RunContext) (status : Option Nat) : Host γ (HttpResponse ⊕ Ready) :=
  match status with
  | some status => .inl <$> reject ctx .authorizationDenied (message status "Access denied")
  | none =>
    match resolveVersionKwarg reg method request.version with
    | .error response => .inl <$> reject ctx .unsupportedVersion response
    | .ok version => return .inr ⟨ctx, request, request.config.getD ∅, threadId, version⟩

/-- The checks that all four handlers make, in their order; `streamMode` is put into the context. -/
def preflight (env : Env) (reg : Registration) (req : HttpRequest) (method : Method)
    (withStreamMode : Bool) (ctx : RunContext) : Host γ (HttpResponse ⊕ Ready) := do
  match parseNativeRequest env.model env.limits reg.allowedConfigurableKeys req with
  | .error parsed => .inl <$> reject ctx .invalidRequest parsed
  | .ok request =>
    match validatedRunThread reg (request.config.getD ∅) with
    | .error cfgErr => .inl <$> reject ctx .invalidConfig (message 400 cfgErr)
    | .ok threadId =>
      let ctx := { ctx with
        threadId := idValue threadId
        streamMode := if withStreamMode then some request.streamMode else none }
      let status ← method.authorizationStatus env.authorize reg threadId
      proceed reg method request threadId ctx status

def Ready.call (run : Ready) (reg : Registration) (streamMode : Option String)
    (runConfig : Option (RunConfig γ)) : GraphCall γ :=
  ⟨reg.name, run.request.input.toValue, runConfig, streamMode, run.version⟩

def Ready.runConfig (run : Ready) : Option (RunConfig γ) := some (run.config.mapValues .json)

/-- `lock_token = thread_lock.acquire(...)`, where the graph has a checkpointer and a thread. -/
def acquireSync (reg : Registration) (threadId : Option String) : Host γ (Option String) :=
  match threadId with
  | some threadId =>
    if reg.hasCheckpointer && threadId != "" then Host.acquire reg.name (.str threadId) 0
    else return none
  | none => return none

def refusedSync (reg : Registration) (threadId lockToken : Option String) : Bool :=
  reg.hasCheckpointer && threadId.any (· != "") && !lockToken.any (· != "")

def releaseSync (reg : Registration) (threadId lockToken : Option String) : Host γ Unit :=
  match lockToken, threadId with
  | some lockToken, some threadId => Host.release reg.name (.str threadId) lockToken
  | _, _ => return

/-- A way of dumping an output, where the output has it; an `Exception` leaves the next way. -/
def tryDump (applies : Bool) (dump : Host γ Json.Value) : Host γ (Option Json.Value) :=
  if applies then Host.exceptException (some <$> dump) fun _ => .ret none else .ret none

def serializeGraphOutput (result : GraphOutput) : Host γ Json.Value :=
  match result.value with
  | .dict items => return .dict items
  | _ => do
    match ← tryDump result.hasModelDump ((Host.perform (.modelDump result)).bind .ofExcept) with
    | some v => return v
    | none =>
      match ← tryDump result.isDataclass ((Host.perform (.asdict result)).bind .ofExcept) with
      | some v => return v
      | none =>
        let text ← (Host.perform (.str result)).bind .ofExcept
        return .dict [(.str "result", .str text)]

def invokeResponse (ctx : RunContext) (body : String) : HttpResponse :=
  ⟨200, "application/json", [("X-Request-ID", ctx.runId)], body⟩

def executionFailed (ctx : RunContext) : HttpResponse :=
  errorResponse ⟨500, .str "Graph execution failed", some ctx.runId⟩

/-- The `try` block of the invoke handlers, up to the body of the response. -/
def invokeGraph (reg : Registration) (run : Ready) (lockThreadId : Option Json.Value)
    (lockToken : Option String) : Host γ String := do
  let (runConfig, guard) ← Host.guardRunConfig reg.name lockThreadId lockToken run.runConfig
  let result ← Host.invoke (run.call reg none runConfig)
  Host.checkOwnershipGuard guard
  let output ← serializeGraphOutput result
  Host.dumps (.dict [(.str "output", output)])

def invokeOrFail (reg : Registration) (run : Ready) (lockThreadId : Option Json.Value)
    (lockToken : Option String) : Host γ (HttpResponse ⊕ String) :=
  Host.exceptException (.inr <$> invokeGraph reg run lockThreadId lockToken) fun exc => do
    Host.observe (.failed run.ctx (.exception exc))
    return .inl (executionFailed run.ctx)

def finishInvoke (ctx : RunContext) : HttpResponse ⊕ String → Host γ HttpResponse
  | .inl response => return response
  | .inr body => do
    Host.observe (.completed ctx)
    return invokeResponse ctx body

def handleInvoke (env : Env) (reg : Registration) (req : HttpRequest) : Host γ HttpResponse := do
  let runId ← requestIdFromHeaders req
  match ← preflight env reg req .invoke false (newContext reg .invoke env.lockBackend runId) with
  | .inl response => return response
  | .inr run =>
    let lockToken ← acquireSync reg run.threadId
    if refusedSync reg run.threadId lockToken then
      reject run.ctx .lockContention (lockContention run.threadId)
    else
      Host.observe (.started run.ctx)
      let outcome ← (invokeOrFail reg run (run.threadId.map .str) lockToken).andFinally
        (releaseSync reg run.threadId lockToken)
      finishInvoke run.ctx outcome

def lockThreadIdOf (reg : Registration) (threadId : Option String) : Option Json.Value :=
  if reg.hasCheckpointer then threadId.map .str else none

/-- The `async with` block of `handle_invoke_async`: a response that leaves the handler, or the body. -/
def invokeLocked (reg : Registration) (run : Ready) (lockThreadId : Option Json.Value)
    (lockToken : Option String) : Host γ (HttpResponse ⊕ String) :=
  if lockThreadId.isSome && lockToken.isNone then
    .inl <$> reject run.ctx .lockContention (lockContention run.threadId)
  else do
    Host.observe (.started run.ctx)
    invokeOrFail reg run lockThreadId lockToken

def handleInvokeAsync (env : Env) (reg : Registration) (req : HttpRequest) :
    Host γ HttpResponse := do
  let runId ← requestIdFromHeaders req
  match ← preflight env reg req .ainvoke false (newContext reg .invoke env.lockBackend runId) with
  | .inl response => return response
  | .inr run =>
    let lockThreadId := lockThreadIdOf reg run.threadId
    let outcome ← Host.asyncThreadLock reg.name lockThreadId 0 (invokeLocked reg run lockThreadId)
    finishInvoke run.ctx outcome

structure Buffer where
  chunks : List String
  bytes : Nat

def errorFrame (error runId : String) : String :=
  let payload := jsonText .spaced (.dict [(.str "error", .str error), (.str "request_id", .str runId)])
  s!"event: error\ndata: {payload}\n\n"

def dataFrame (serialized : String) : String := s!"event: data\ndata: {serialized}\n\n"

def endFrame : String := "event: end\ndata: \x7b\x7d\n\n"

def appendChunk (maxBytes : Nat) (runId : String) (buffer : Buffer) (chunk : String) :
    Bool × Buffer :=
  if maxBytes < buffer.bytes + chunk.utf8ByteSize then
    let frame := errorFrame s!"stream response exceeded max buffered size ({maxBytes} bytes)" runId
    (false, { buffer with chunks := buffer.chunks ++ [frame] })
  else (true, ⟨buffer.chunks ++ [chunk], buffer.bytes + chunk.utf8ByteSize⟩)

def collect (maxBytes : Nat) (runId : String) : Nat → Buffer → Host γ (Buffer × Host.Result Bool)
  | 0, _ => do
    let never ← Host.perform .stuck
    nomatch never
  | fuel + 1, buffer => do
    match ← Host.perform .next with
    | .error e => return (buffer, .error e)
    | .ok none => return (buffer, .ok true)
    | .ok (some event) =>
      match ← Host.perform (.dumps event) with
      | .error e => return (buffer, .error e)
      | .ok serialized =>
        match appendChunk maxBytes runId buffer (dataFrame serialized) with
        | (true, buffer) => collect maxBytes runId fuel buffer
        | (false, buffer) => return (buffer, .ok false)

structure Streamed where
  buffer : Buffer
  opened : Bool
  outcome : Host.Result (Option Exn)

def streamEvents (fuel : Nat) (env : Env) (reg : Registration) (run : Ready)
    (lockThreadId : Option Json.Value) (lockToken : Option String) : Host γ Streamed := do
  match ← (Host.guardRunConfig reg.name lockThreadId lockToken run.runConfig).attempt with
  | .error e => return ⟨⟨[], 0⟩, false, .error e⟩
  | .ok (runConfig, guard) =>
    match ← Host.perform (.stream (run.call reg (some run.request.streamMode) runConfig)) with
    | .error e => return ⟨⟨[], 0⟩, false, .error e⟩
    | .ok () =>
      match ← collect env.limits.maxStreamResponseBytes run.ctx.runId fuel ⟨[], 0⟩ with
      | (buffer, .error e) => return ⟨buffer, true, .error e⟩
      | (buffer, .ok false) =>
        return ⟨buffer, true, .ok (some (.runtimeError "stream response exceeded max buffered size"))⟩
      | (buffer, .ok true) =>
        match ← (Host.checkOwnershipGuard guard).attempt with
        | .error e => return ⟨buffer, true, .error e⟩
        | .ok () => return ⟨buffer, true, .ok none⟩

/-- `except Exception`: the error goes into the stream. -/
def exceptStream (env : Env) (ctx : RunContext) (streamed : Streamed) :
    Host.Result (Buffer × Option Exn) :=
  match streamed.outcome with
  | .ok streamError => .ok (streamed.buffer, streamError)
  | .error (.exception exc) =>
    .ok ((appendChunk env.limits.maxStreamResponseBytes ctx.runId streamed.buffer
      (errorFrame "stream processing failed" ctx.runId)).2, some exc)
  | .error e => .error e

def streamResponse (ctx : RunContext) (buffer : Buffer) : HttpResponse :=
  ⟨200, "text/event-stream",
    [("Cache-Control", "no-cache"), ("X-Accel-Buffering", "no"), ("X-Request-ID", ctx.runId)],
    String.join (buffer.chunks ++ [endFrame])⟩

def finishStream (ctx : RunContext) : HttpResponse ⊕ (Buffer × Option Exn) → Host γ HttpResponse
  | .inl response => return response
  | .inr (buffer, streamError) => do
    match streamError with
    | some exc => Host.observe (.failed ctx (.exception exc))
    | none => Host.observe (.completed ctx)
    return streamResponse ctx buffer

def invokeOnly (reg : Registration) : ErrorResponse :=
  message 501 s!"Graph {reprStr reg.name} is configured as invoke-only"

def notStreamable (reg : Registration) : ErrorResponse :=
  message 501 s!"Graph {reprStr reg.name} does not support streaming"

def handleStream (fuel : Nat) (env : Env) (reg : Registration) (req : HttpRequest) :
    Host γ HttpResponse := do
  let runId ← requestIdFromHeaders req
  let ctx := newContext reg .stream env.lockBackend runId
  if !reg.streamEnabled then reject ctx .streamingUnsupported (invokeOnly reg)
  else if !reg.isStreamable then reject ctx .streamingUnsupported (notStreamable reg)
  else
    match ← preflight env reg req .stream true ctx with
    | .inl response => return response
    | .inr run =>
      let lockToken ← acquireSync reg run.threadId
      if refusedSync reg run.threadId lockToken then
        reject run.ctx .lockContention (lockContention run.threadId)
      else
        Host.observe (.started run.ctx)
        let outcome ← (do
          let streamed ← streamEvents fuel env reg run (run.threadId.map .str) lockToken
          .ofExcept (exceptStream env run.ctx streamed)).andFinally
            (releaseSync reg run.threadId lockToken)
        finishStream run.ctx (.inr outcome)

/-- The `async with` block of `handle_stream_async`. -/
def streamLocked (fuel : Nat) (env : Env) (reg : Registration) (run : Ready)
    (lockThreadId : Option Json.Value) (lockToken : Option String) :
    Host γ (HttpResponse ⊕ (Buffer × Option Exn)) :=
  if lockThreadId.isSome && lockToken.isNone then
    .inl <$> reject run.ctx .lockContention (lockContention run.threadId)
  else do
    Host.observe (.started run.ctx)
    let streamed ← streamEvents fuel env reg run lockThreadId lockToken
    if streamed.opened then (Host.perform .close).bind .ofExcept
    .inr <$> .ofExcept (exceptStream env run.ctx streamed)

def handleStreamAsync (fuel : Nat) (env : Env) (reg : Registration) (req : HttpRequest) :
    Host γ HttpResponse := do
  let runId ← requestIdFromHeaders req
  let ctx := newContext reg .stream env.lockBackend runId
  if !reg.streamEnabled then reject ctx .streamingUnsupported (invokeOnly reg)
  else if !reg.isAsyncStreamable then reject ctx .streamingUnsupported (notStreamable reg)
  else
    match ← preflight env reg req .astream true ctx with
    | .inl response => return response
    | .inr run =>
      let lockThreadId := lockThreadIdOf reg run.threadId
      let outcome ← Host.asyncThreadLock reg.name lockThreadId 0
        (streamLocked fuel env reg run lockThreadId)
      finishStream run.ctx outcome

end LangGraphFunctions.Native

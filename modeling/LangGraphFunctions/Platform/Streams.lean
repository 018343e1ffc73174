import LangGraphFunctions.Native.Handlers

/-! The streams of the platform endpoints. -/

namespace LangGraphFunctions.Platform

open Lib Native

variable {γ : Type}

def formatMetadataEvent (runId : String) : String :=
  let data := jsonText .spaced (.dict [(.str "run_id", .str runId)])
  s!"event: metadata\ndata: {data}\n\n"

/-- What `format_data_event` encodes. -/
def dataPayload : Json.Value → Json.Value
  | .dict items => .dict items
  | payload => .dict [(.str "data", payload)]

def formatDataEvent (streamMode serialized : String) : String :=
  s!"event: {streamMode}\ndata: {serialized}\n\n"

def errorData (message : String) : Option String → Json.Value
  | none => .dict [(.str "error", .str message)]
  | some requestId => .dict [(.str "error", .str message), (.str "request_id", .str requestId)]

def formatErrorEvent (message : String) (requestId : Option String) : String :=
  let data := jsonText .spaced (errorData message requestId)
  s!"event: error\ndata: {data}\n\n"

def formatEndEvent : String := "event: end\ndata: null\n\n"

def overflowError (maxBytes : Nat) : String :=
  s!"stream response exceeded max buffered size ({maxBytes} bytes)"

def checkStreamOverflow (buffer : Buffer) (chunkBytes maxBytes : Nat) : Bool × Buffer :=
  if maxBytes < buffer.bytes + chunkBytes then
    (true, { buffer with
      chunks := buffer.chunks ++ [formatErrorEvent (overflowError maxBytes) none, formatEndEvent] })
  else (false, buffer)

def bufferEvents (maxBytes : Nat) (streamMode : String) :
    Nat → Buffer → Host γ (Buffer × Host.Result Bool)
  | 0, _ => do
    let never ← Host.perform .stuck
    nomatch never
  | fuel + 1, buffer => do
    match ← Host.perform .next with
    | .error e => return (buffer, .error e)
    | .ok none => return (buffer, .ok true)
    | .ok (some event) =>
      match ← Host.perform (.dumps (dataPayload event)) with
      | .error e => return (buffer, .error e)
      | .ok serialized =>
        let chunk := formatDataEvent streamMode serialized
        match checkStreamOverflow buffer chunk.utf8ByteSize maxBytes with
        | (true, buffer) => return (buffer, .ok false)
        | (false, buffer) =>
          bufferEvents maxBytes streamMode fuel
            ⟨buffer.chunks ++ [chunk], buffer.bytes + chunk.utf8ByteSize⟩

structure PlatformRefusal where
  statusCode : Nat
  detail : Json.Value
  requestId : Option String

def PlatformRefusal.toValue (err : PlatformRefusal) : Json.Value :=
  .dict ((.str "detail", err.detail) :: match err.requestId with
    | some requestId => if requestId = "" then [] else [(.str "request_id", .str requestId)]
    | none => [])

def platformError (err : PlatformRefusal) : HttpResponse :=
  ⟨err.statusCode, "application/json", match err.requestId with
    | some requestId => [("X-Request-ID", requestId)]
    | none => [], jsonText .spaced err.toValue⟩

def buildSseResponse (chunks : List String) (contentLocation : String) : HttpResponse :=
  ⟨200, "text/event-stream",
    [("Cache-Control", "no-cache"), ("X-Accel-Buffering", "no"),
      ("Content-Location", contentLocation)], String.join chunks⟩

def streamModes : List String :=
  ["values", "updates", "checkpoints", "tasks", "debug", "messages", "custom"]

structure StreamRun where
  ctx : RunContext
  input : Json.Value
  streamMode : String
  contentLocation : String

def StreamRun.call (run : StreamRun) (config : Option (RunConfig γ)) : GraphCall γ :=
  ⟨run.ctx.graphName, run.input, config, some run.streamMode, none⟩

def streamChunks (fuel maxBytes : Nat) (run : StreamRun) (config : Option (RunConfig γ))
    (guard : Option γ) : Host γ (Buffer × Host.Result Bool) := do
  let metaChunk := formatMetadataEvent run.ctx.runId
  Host.observe (.started run.ctx)
  match checkStreamOverflow ⟨[metaChunk], metaChunk.utf8ByteSize⟩ 0 maxBytes with
  | (true, buffer) => return (buffer, .ok false)
  | (false, buffer) =>
    match ← Host.perform (.stream (run.call config)) with
    | .error e => return (buffer, .error e)
    | .ok () =>
      match ← bufferEvents maxBytes run.streamMode fuel buffer with
      | (buffer, .error e) => return (buffer, .error e)
      | (buffer, .ok false) => return (buffer, .ok false)
      | (buffer, .ok true) =>
        match ← (Host.checkOwnershipGuard guard).attempt with
        | .error e => return (buffer, .error e)
        | .ok () => return ({ buffer with chunks := buffer.chunks ++ [formatEndEvent] }, .ok true)

def executionFailedError (run : StreamRun) : HttpResponse :=
  platformError ⟨500, .str "Graph execution failed", some run.ctx.runId⟩

def releaseFailedError (run : StreamRun) : HttpResponse :=
  platformError ⟨500, .str "Run-lock release failed", some run.ctx.runId⟩

def finishRun (run : StreamRun) (released : Option Exn) :
    Buffer × Host.Result Bool → Host γ HttpResponse
  | (buffer, .error (.exception exc)) => do
    Host.observe (.failed run.ctx (.exception exc))
    match released with
    | some _ => return executionFailedError run
    | none =>
      let chunks := buffer.chunks ++
        [formatErrorEvent "stream processing failed" (some run.ctx.runId), formatEndEvent]
      return buildSseResponse chunks run.contentLocation
  | (_, .error e) => .raise e
  | (buffer, .ok finished) => do
    if !finished then
      Host.observe (.failed run.ctx (.exception
        (.runtimeError "stream response exceeded max buffered size")))
    match released with
    | some exc => do
      if finished then Host.observe (.failed run.ctx (.exception exc))
      return releaseFailedError run
    | none => do
      if finished then Host.observe (.completed run.ctx)
      return buildSseResponse buffer.chunks run.contentLocation

/-- `runs_stream`: `resolved` is what the checks and the locks before the stream come to, `prepared`
what the `try` block comes to before its first chunk, and `released` the error of the release. -/
def runsStream (fuel maxBytes : Nat) (resolved : PlatformRefusal ⊕ StreamRun)
    (prepared : Host.Result (Option (RunConfig γ) × Option γ)) (released : Option Exn) :
    Host γ HttpResponse :=
  match resolved with
  | .inl err => return platformError err
  | .inr run =>
    match prepared with
    | .error (.exception exc) => do
      Host.observe (.failed run.ctx (.exception exc))
      return executionFailedError run
    | .error e => .raise e
    | .ok (config, guard) => do
      let streamed ← streamChunks fuel maxBytes run config guard
      finishRun run released streamed

/-- `runs_stream_threadless`, which takes no lock and has no guard. -/
def runsStreamThreadless (fuel maxBytes : Nat) (resolved : PlatformRefusal ⊕ StreamRun)
    (config : Option (RunConfig γ)) : Host γ HttpResponse :=
  runsStream fuel maxBytes resolved (.ok (config, none)) none

end LangGraphFunctions.Platform

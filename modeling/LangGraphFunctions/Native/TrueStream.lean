import LangGraphFunctions.Lib.Transcript
import LangGraphFunctions.Platform.Streams

/-! The true stream: one frame at a time, until the graph or the consumer comes to an end. -/

namespace LangGraphFunctions.Native.TrueStream

open Lib Platform

/-- What may be raised where the generator waits. -/
inductive Raised
  | cancelled
  | generatorExit
  | exception (exc : Exn)
  | base (typeName : String)
  deriving DecidableEq

/-- `isinstance(exc, (asyncio.CancelledError, GeneratorExit))`. -/
def Raised.isCancellation : Raised → Bool
  | cancelled => true
  | generatorExit => true
  | _ => false

def Raised.isException : Raised → Bool
  | exception _ => true
  | _ => false

inductive SseFrame
  | prime
  | data (serialized : String)
  | error (message requestId : String)
  | done

inductive Op
  | acquire (graphName threadId : String)
  | release (graphName threadId token : String)
  | guardRunConfig (graphName : String) (held : Option (String × String))
  | respond
  | next
  | encode (event : Json.Value)
  | check
  | frame (frame : SseFrame)
  | aclose
  | rejected (reason : String)
  | started
  | completed
  | failed (error : Raised)

abbrev Op.Ans : Op → Type
  | .acquire .. => Except Raised (Option String)
  | .release .. => Except Raised Unit
  | .guardRunConfig .. => Except Raised Bool
  | .respond => Except Raised Unit
  | .next => Except Raised (Option Json.Value)
  | .encode _ => Except Raised String
  | .check => Except Raised Unit
  | .frame _ => Except Raised Unit
  | .aclose => Except Raised Unit
  | .rejected _ => Unit
  | .started => Unit
  | .completed => Unit
  | .failed _ => Unit

abbrev interface : Interface := ⟨Op, Op.Ans⟩

abbrev Stream := Prog interface Raised

def perform (o : Op) : Stream o.Ans := Prog.perform (I := interface) o

def next : Stream (Option Json.Value) := (perform .next).bind .ofExcept

def encode (event : Json.Value) : Stream String := (perform (.encode event)).bind .ofExcept

def send (frame : SseFrame) : Stream Unit := (perform (.frame frame)).bind .ofExcept

def checkOwnershipGuard (guarded : Bool) : Stream Unit :=
  if guarded then (perform .check).bind .ofExcept else pure ()

def overflow (maxEvents : Nat) : String := s!"stream exceeded max events ({maxEvents})"

def streamEvents (runId : String) (maxEvents : Nat) (guarded : Bool) :
    Nat → Stream (Option Raised)
  | 0 => do
    match ← next with
    | none =>
      checkOwnershipGuard guarded
      return none
    | some _ =>
      send (.error (overflow maxEvents) runId)
      return some (.exception (.runtimeError (overflow maxEvents)))
  | remaining + 1 => do
    match ← next with
    | none =>
      checkOwnershipGuard guarded
      return none
    | some event =>
      let serialized ← encode event
      send (.data serialized)
      streamEvents runId maxEvents guarded remaining

def primedEvents (runId : String) (maxEvents : Nat) (guarded : Bool) : Stream (Option Raised) := do
  send .prime
  streamEvents runId maxEvents guarded maxEvents

/-- The `try` with its `except` branches: the error of the stream, and what is still raised. -/
def tryEvents (runId : String) (maxEvents : Nat) (guarded : Bool) :
    Stream (Option Raised × Option Raised) := do
  match ← (primedEvents runId maxEvents guarded).attempt with
  | .ok streamError => return (streamError, none)
  | .error exc =>
    if exc.isException then
      match ← (send (.error "stream processing failed" runId)).attempt with
      | .ok () => return (some exc, none)
      | .error raised => return (some exc, some raised)
    else return (some exc, some exc)

structure Cleanup where
  streamError : Option Raised
  cancellation : Option Raised
  raised : Option Raised

def isCancelled (primary : Option Raised) : Bool := primary.any Raised.isCancellation

/-- After `await events.aclose()`, with what its handler makes of an exception. -/
def Cleanup.closed (primary : Option Raised) : Except Raised Unit → Cleanup
  | .ok () => ⟨primary, none, none⟩
  | .error exc =>
    if exc.isCancellation && !isCancelled primary then
      ⟨if primary.isNone then some exc else primary, some exc, some exc⟩
    else
      let cancellation := if exc.isCancellation then some exc else none
      if primary.isNone then ⟨some exc, cancellation, if exc.isException then none else some exc⟩
      else ⟨primary, cancellation, none⟩

def Cleanup.released (primary : Option Raised) (cleanup : Cleanup) :
    Except Raised Unit → Cleanup
  | .ok () => cleanup
  | .error exc =>
    if exc.isCancellation && cleanup.cancellation.isNone && !isCancelled primary then
      ⟨if cleanup.streamError.isNone then some exc else cleanup.streamError,
        cleanup.cancellation, some exc⟩
    else if primary.isNone && cleanup.streamError.isNone then
      ⟨some exc, cleanup.cancellation, some exc⟩
    else cleanup

def closeEvents (primary : Option Raised) : Stream Cleanup := do
  let answer ← perform .aclose
  return .closed primary answer

def releaseLock (graphName : String) (primary : Option Raised) (cleanup : Cleanup) :
    Option (String × String) → Stream Cleanup
  | none => return cleanup
  | some (threadId, token) => do
    let answer ← perform (.release graphName threadId token)
    return cleanup.released primary answer

def observeEnd : Option Raised → Stream Unit
  | some error => perform (.failed error)
  | none => perform .completed

/-- `_sse_event_stream`, primed. -/
def sseEventStream (graphName runId : String) (maxEvents : Nat) (guarded : Bool)
    (held : Option (String × String)) : Stream Unit := do
  let (primary, pending) ← tryEvents runId maxEvents guarded
  let cleanup ← closeEvents primary
  let cleanup ← releaseLock graphName primary cleanup held
  observeEnd (primary <|> cleanup.streamError)
  match cleanup.raised <|> pending with
  | some exc => .raise exc
  | none => send .done

def abandon (graphName : String) (held : Option (String × String)) (exc : Raised) :
    Stream Unit := do
  match held with
  | some (threadId, token) => discard (perform (.release graphName threadId token))
  | none => pure ()
  perform (.failed exc)
  .raise exc

def prepareStream (graphName : String) (held : Option (String × String)) : Stream Bool := do
  let guarded ← (perform (.guardRunConfig graphName held)).bind .ofExcept
  (perform .respond).bind .ofExcept
  return guarded

def streamLocked (graphName runId : String) (maxEvents : Nat) (held : Option (String × String)) :
    Stream Unit := do
  perform .started
  match ← (prepareStream graphName held).attempt with
  | .error exc => abandon graphName held exc
  | .ok guarded => sseEventStream graphName runId maxEvents guarded held

/-- `_prepare_stream_response`, with the stream it hands over. -/
def streamResponse (graphName runId : String) (maxEvents : Nat) (lockThreadId : Option String) :
    Stream Unit := do
  match lockThreadId with
  | none => streamLocked graphName runId maxEvents none
  | some threadId =>
    match ← (perform (.acquire graphName threadId)).bind .ofExcept with
    | none => perform (.rejected "lock_contention")
    | some token => streamLocked graphName runId maxEvents (some (threadId, token))

end LangGraphFunctions.Native.TrueStream

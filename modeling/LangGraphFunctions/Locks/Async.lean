import LangGraphFunctions.Errors
import LangGraphFunctions.Lib.Tasks

/-! Synchronous thread locks for async callers: the coroutines of `_async.py`. -/

namespace LangGraphFunctions.Locks

open Lib

inductive Job (W : Type)
  | acquire (graphName threadId : String) (timeout : Rat)
  | release (graphName threadId token : String)
  | work (func : W)

variable {W : Type} {V : W → Type} {β : Type}

abbrev Job.Ans (V : W → Type) : Job W → Type
  | .acquire .. => Option String
  | .release .. => Unit
  | .work func => V func

def jobs (V : W → Type) : Tasks.Jobs Exn where
  Job := Job W
  Ans := Job.Ans V
  Outcome
    | .release .., r => r = .ok ()
    | _, _ => True

abbrev Coro (V : W → Type) := Tasks.Coro (jobs V)
abbrev Loop (V : W → Type) := Tasks.Loop (jobs V)
abbrev Task (V : W → Type) := Tasks.Task (jobs V)
abbrev Result (α : Type) := Except (Raised Exn) α

def runSyncRetainingOwnership (fuel : Nat) (func : W) : Coro V (V func) := do
  let (cancellationCount, workerTask, cancellation) ←
    Tasks.waitOut (J := jobs V) true (.work func) fuel
  let cancellation ← Tasks.noticed cancellation cancellationCount
  match ← Tasks.perform (J := jobs V) (.await (.work func) workerTask) with
  | .error e => if e.isException && cancellation then .raise .cancelled else .raise e
  | .ok result => if cancellation then .raise .cancelled else return result

def releaseThreadLock (fuel : Nat) (graphName threadId token : String) : Coro V Unit := do
  let (cancellationCount, releaseTask, cancellation) ←
    Tasks.waitOut (J := jobs V) false (.release graphName threadId token) fuel
  match ← Tasks.perform (J := jobs V) (.await (.release graphName threadId token) releaseTask) with
  | .error e => .raise e
  | .ok () =>
    if ← Tasks.noticed cancellation cancellationCount then .raise .cancelled else return

def acquireThreadLock (fuel : Nat) (graphName threadId : String) (timeout : Rat) :
    Coro V (Option String) := do
  let (cancellationCount, acquireTask, cancellation) ←
    Tasks.waitOut (J := jobs V) true (.acquire graphName threadId timeout) fuel
  let cancellation ← Tasks.noticed cancellation cancellationCount
  match ← Tasks.perform (J := jobs V) (.await (.acquire graphName threadId timeout) acquireTask) with
  | .error e => if e.isException && cancellation then .raise .cancelled else .raise e
  | .ok token =>
    if cancellation then
      match token with
      | none => .raise .cancelled
      | some token =>
        match ← (releaseThreadLock fuel graphName threadId token).attempt with
        | .ok () => .raise .cancelled
        | .error .cancelled => .raise .cancelled
        | .error e => .raise e
    else return token

/-- `async with async_thread_lock(...) as token: body`. -/
def asyncThreadLock (fuel : Nat) (graphName : String) (threadId : Option String) (timeout : Rat)
    (body : Option String → Coro V β) : Coro V β :=
  match threadId with
  | none => body none
  | some threadId => do
    let token ← acquireThreadLock fuel graphName threadId timeout
    let result ← (body token).attempt
    match token with
    | some token => releaseThreadLock fuel graphName threadId token
    | none => pure ()
    .ofExcept result

inductive BodyOp (W : Type)
  | run (func : W)
  | pause

abbrev BodyOp.Ans (V : W → Type) : BodyOp W → Type
  | .run func => Result (V func)
  | .pause => Result Unit

abbrev Body (V : W → Type) := Prog ⟨BodyOp W, BodyOp.Ans V⟩ (Raised Exn)

def BodyOp.program (fuel : Nat) : (o : BodyOp W) → Coro V (o.Ans V)
  | .run func => (runSyncRetainingOwnership fuel func).attempt
  | .pause => Tasks.perform (J := jobs V) .pause

def Body.program (fuel : Nat) (body : Body V β) : Coro V β := body.interpret (BodyOp.program fuel)

end LangGraphFunctions.Locks

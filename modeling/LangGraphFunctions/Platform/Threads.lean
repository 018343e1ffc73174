import LangGraphFunctions.Lib.Prog
import LangGraphFunctions.Platform.Contracts

/-! `InMemoryThreadStore`, and the handlers that write the metadata of a thread. -/

namespace LangGraphFunctions.Platform

open Lib

abbrev Threads := Dict String Thread

namespace InMemoryThreadStore

def get (threads : Threads) (threadId : String) : Option Thread := threads.get? threadId

def update (threads : Threads) (threadId : String) (now : Int) (metadata : Option JsonObject)
    (status : Option ThreadStatus) (values : Option JsonObject)
    (interrupts : Option (Dict Json.Key (List Interrupt))) (assistantId : Option String) :
    Except Exn Thread × Threads :=
  match threads.get? threadId with
  | none => (.error (.keyError threadId), threads)
  | some existing =>
    let updated := { existing with
      updatedAt := now
      metadata := metadata <|> existing.metadata
      status := status.getD existing.status
      values := values <|> existing.values
      interrupts := interrupts.getD existing.interrupts
      assistantId := assistantId <|> existing.assistantId }
    (.ok updated, threads.set threadId updated)

def boundMessage (threadId bound assistantId : String) : String :=
  s!"Thread {reprStr threadId} is bound to assistant {reprStr bound}, cannot run with {reprStr assistantId}"

def lockSeconds : Int := 60

def tryAcquireRunLock (threads : Threads) (threadId : String) (assistantId : Option String)
    (now : Int) (token : String) : Except Exn (Option Thread) × Threads :=
  match threads.get? threadId with
  | none => (.error (.keyError threadId), threads)
  | some existing =>
    match existing.assistantId, assistantId with
    | some bound, some assistantId =>
      if bound != assistantId then
        (.error (.valueError (boundMessage threadId bound assistantId)), threads)
      else locked existing
    | _, _ => locked existing
where
  locked (existing : Thread) : Except Exn (Option Thread) × Threads :=
    if existing.status = .busy then (.ok none, threads)
    else
      let updated := { existing with
        status := .busy
        updatedAt := now
        lockToken := some token
        lockExpiresAt := some (now + lockSeconds)
        assistantId := existing.assistantId <|> assistantId }
      (.ok (some updated), threads.set threadId updated)

def releaseRunLock (threads : Threads) (threadId : String) (status : ThreadStatus)
    (values : Option JsonObject) (ownerToken : Option String) (now : Int) :
    Except Exn Thread × Threads :=
  if status = .busy then
    (.error (.valueError "release_run_lock cannot set status to 'busy'"), threads)
  else
    match threads.get? threadId with
    | none => (.error (.keyError threadId), threads)
    | some existing =>
      if ownerToken.isSome && existing.lockToken != ownerToken then (.ok existing, threads)
      else
        let updated := { existing with
          status := status
          updatedAt := now
          lockToken := none
          lockExpiresAt := none
          values := values <|> existing.values }
        (.ok updated, threads.set threadId updated)

def renewRunLock (threads : Threads) (threadId ownerToken : String) (now : Int) :
    Bool × Threads :=
  match threads.get? threadId with
  | none => (false, threads)
  | some existing =>
    if existing.lockToken != some ownerToken then (false, threads)
    else
      (true, threads.set threadId
        { existing with updatedAt := now, lockExpiresAt := some (now + lockSeconds) })

end InMemoryThreadStore

namespace Api

inductive Op
  | get (threadId : String)
  | updateMetadata (threadId : String) (metadata : JsonObject)
  | tryAcquireRunLock (threadId assistantId : String)
  | releaseRunLock (threadId : String) (status : ThreadStatus) (values : Option JsonObject)
      (ownerToken : String)
  | renewRunLock (threadId ownerToken : String)
  | acquire (graphName threadId : String)
  | release (graphName threadId token : String)
  | startStoreRenewal (threadId ownerToken : String)
  | stopStoreRenewal (ownerToken : String)
  | guardRunConfig (graphName threadId token : String)
  | invoke
  | stream

/-- A stream comes with the chunks buffered so far, and whether it came to its end. -/
abbrev Op.Ans : Op → Type
  | .get _ => Except Exn (Option Thread)
  | .updateMetadata .. => Except Exn Thread
  | .tryAcquireRunLock .. => Except Exn (Option Thread)
  | .releaseRunLock .. => Except Exn Thread
  | .renewRunLock .. => Except Exn Bool
  | .acquire .. => Except Exn (Option String)
  | .release .. => Except Exn Unit
  | .startStoreRenewal .. => Except Exn Unit
  | .stopStoreRenewal _ => Option Exn
  | .guardRunConfig .. => Except Exn Unit
  | .invoke => Except Exn JsonObject
  | .stream => List String × Except Exn Bool

abbrev interface : Interface := ⟨Op, Op.Ans⟩

inductive Response
  | error (statusCode : Nat) (detail : String) (requestId : Option String)
  | thread (thread : Thread)
  | run (output : JsonObject)
  | stream (chunks : List String) (failed : Bool)

end Api

abbrev Api := Prog Api.interface Exn

namespace Api

def perform (o : Op) : Api o.Ans := Prog.perform (I := interface) o

def get (threadId : String) : Api (Option Thread) := (perform (.get threadId)).bind .ofExcept

def update (threadId : String) (metadata : JsonObject) : Api Thread :=
  (perform (.updateMetadata threadId metadata)).bind .ofExcept

def acquire (graphName threadId : String) : Api (Option String) :=
  (perform (.acquire graphName threadId)).bind .ofExcept

def release (graphName threadId token : String) : Api Unit :=
  (perform (.release graphName threadId token)).bind .ofExcept

end Api

def notFound (threadId : String) : Api.Response :=
  .error 404 s!"Thread {reprStr threadId} not found" none

def alreadyBusy (threadId : String) : Api.Response :=
  .error 409 (s!"Thread {reprStr threadId} is already busy. " ++
    "Concurrent runs are not supported (multitask_strategy=reject).") none

/-- `{**(thread.metadata or {}), **metadata}`. -/
def merged (thread : Thread) (metadata : JsonObject) : JsonObject :=
  (thread.metadata.getD ∅).update metadata

/-- `threads_update` from where the body is read: a response to what is wrong with it, or its
metadata. -/
def threadsUpdate (threadId : String) (body : Except Api.Response (Option JsonObject)) :
    Api Api.Response :=
  match body with
  | .error response => return response
  | .ok metadata => do
    match ← Api.get threadId with
    | none => return notFound threadId
    | some thread =>
      match metadata with
      | none => return .thread thread
      | some metadata =>
        match ← Api.perform (.updateMetadata threadId (merged thread metadata)) with
        | .ok updated => return .thread updated
        | .error exc => if exc.isKeyError then return notFound threadId else .raise exc

structure RunCreate where
  runId : String
  assistantId : String
  metadata : Option JsonObject

inductive RunEndpoint
  | wait
  | stream

/-- `_release_thread_run_lock`: the error to report, if there is one. -/
def releaseThreadRunLock (threadId graphName lockToken : String) (status : ThreadStatus)
    (values : Option JsonObject) (storeOwnerToken : String) : Api (Option Exn) := do
  let failure ← Api.perform (.stopStoreRenewal storeOwnerToken)
  let ownerToken := if storeOwnerToken = "" then lockToken else storeOwnerToken
  let status := if failure.isSome then .error else status
  let values := if failure.isSome then none else values
  let released ← Api.perform (.releaseRunLock threadId status values ownerToken)
  let failure := failure <|> match released with
    | .ok _ => none
    | .error exc => some exc
  match ← Api.perform (.release graphName threadId lockToken) with
  | .ok () => return failure
  | .error exc => return failure <|> some exc

def prepareRun (threadId graphName lockToken storeLockToken : String) (thread : Thread)
    (run : RunCreate) : Api Unit := do
  (Api.perform (.startStoreRenewal threadId storeLockToken)).bind .ofExcept
  (Api.perform (.guardRunConfig graphName threadId lockToken)).bind .ofExcept
  match run.metadata with
  | none => return
  | some metadata =>
    if metadata.items.isEmpty then return
    else
      let _ ← Api.update threadId (merged thread metadata)
      return

def executionFailed (run : RunCreate) : Api.Response :=
  .error 500 "Graph execution failed" (some run.runId)

def releaseFailed (run : RunCreate) : Api.Response :=
  .error 500 "Run-lock release failed" (some run.runId)

def waitLocked (threadId graphName lockToken storeLockToken : String) (thread : Thread)
    (run : RunCreate) : Api Api.Response := do
  let outcome ← (do
    prepareRun threadId graphName lockToken storeLockToken thread run
    (Api.perform .invoke).bind .ofExcept : Api JsonObject).attempt
  match outcome with
  | .error _ =>
    let _ ← releaseThreadRunLock threadId graphName lockToken .error none storeLockToken
    return executionFailed run
  | .ok output =>
    match ← releaseThreadRunLock threadId graphName lockToken .idle (some output) storeLockToken with
    | some _ => return releaseFailed run
    | none => return .run output

def streamLocked (threadId graphName lockToken storeLockToken : String) (thread : Thread)
    (run : RunCreate) : Api Api.Response := do
  let prepared ← (prepareRun threadId graphName lockToken storeLockToken thread run).attempt
  match prepared with
  | .error _ => failed
  | .ok () =>
    match ← Api.perform .stream with
    | (chunks, .ok finished) =>
      let status := if finished then ThreadStatus.idle else .error
      match ← releaseThreadRunLock threadId graphName lockToken status none storeLockToken with
      | some _ => return releaseFailed run
      | none => return .stream chunks !finished
    | (chunks, .error _) =>
      if chunks.isEmpty then failed
      else
        match ← releaseThreadRunLock threadId graphName lockToken .error none storeLockToken with
        | some _ => return executionFailed run
        | none => return .stream chunks true
where
  failed : Api Api.Response := do
    let _ ← releaseThreadRunLock threadId graphName lockToken .error none storeLockToken
    return executionFailed run

def runLocked : RunEndpoint → (threadId graphName lockToken storeLockToken : String) → Thread →
    RunCreate → Api Api.Response
  | .wait => waitLocked
  | .stream => streamLocked

def lockedRun (endpoint : RunEndpoint) (threadId graphName lockToken : String) (thread : Thread)
    (run : RunCreate) : Api Api.Response := do
  match ← Api.perform (.tryAcquireRunLock threadId run.assistantId) with
  | .error exc =>
    Api.release graphName threadId lockToken
    if exc.isKeyError then return notFound threadId
    else if exc.isValueError then
      let detail ← .ofExcept exc.str
      return .error 409 detail none
    else return executionFailed run
  | .ok none =>
    Api.release graphName threadId lockToken
    return alreadyBusy threadId
  | .ok (some locked) =>
    let storeLockToken := match locked.lockToken with
      | some token => if token = "" then lockToken else token
      | none => lockToken
    runLocked endpoint threadId graphName lockToken storeLockToken thread run

/-- The run of a thread that was found; `resolve` makes the checks between the read of the thread
and its lock, and gives the name of the graph. -/
def foundRun (endpoint : RunEndpoint) (threadId : String) (thread : Thread) (run : RunCreate)
    (resolve : RunCreate → Except Api.Response String) : Api Api.Response :=
  match resolve run with
  | .error response => return response
  | .ok graphName => do
    match ← Api.acquire graphName threadId with
    | none => return alreadyBusy threadId
    | some lockToken => lockedRun endpoint threadId graphName lockToken thread run

/-- `runs_wait` and `runs_stream` from where the body is read. -/
def runs (endpoint : RunEndpoint) (threadId : String) (body : Except Api.Response RunCreate)
    (resolve : RunCreate → Except Api.Response String) : Api Api.Response :=
  match body with
  | .error response => return response
  | .ok run => do
    match ← Api.get threadId with
    | none => return notFound threadId
    | some thread => foundRun endpoint threadId thread run resolve

end LangGraphFunctions.Platform

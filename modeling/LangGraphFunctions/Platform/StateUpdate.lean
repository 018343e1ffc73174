import LangGraphFunctions.Platform.History
import LangGraphFunctions.Platform.Metadata

/-! `threads_state_update`, and what the routes of threads ask of their surroundings. -/

namespace LangGraphFunctions.Platform

open Lib

namespace InMemoryThreadStore

def create (threads : Threads) (threadId : String) (now : Int) (metadata : Option JsonObject) :
    Except Exn Thread × Threads :=
  match threads.get? threadId with
  | some _ => (.error (.valueError s!"Duplicate thread ID generated: {reprStr threadId}"), threads)
  | none =>
    let thread : Thread :=
      { threadId, createdAt := now, updatedAt := now, metadata, status := .idle, values := none,
        assistantId := none, interrupts := ∅, lockToken := none, lockExpiresAt := none }
    (.ok thread, threads.set threadId thread)

def delete (threads : Threads) (threadId : String) : Except Exn Unit × Threads :=
  match threads.get? threadId with
  | none => (.error (.keyError threadId), threads)
  | some _ => (.ok (), threads.erase threadId)

end InMemoryThreadStore

namespace Routes

inductive Op
  | api (o : Api.Op)
  | create (metadata : Option JsonObject)
  | delete (threadId : String)
  | updateState (config : JsonObject) (values : Json.Value) (asNode : Option String)

abbrev Op.Ans : Op → Type
  | .api o => o.Ans
  | .create _ => Except Exn Thread
  | .delete _ => Except Exn Unit
  | .updateState .. => Except Exn Json.Value

abbrev interface : Interface := ⟨Op, Op.Ans⟩

inductive Response
  | api (response : Api.Response)
  | refused (refusal : History.Refusal)
  | renewed
  | checkpoint (checkpoint : History.Checkpoint)
  | created (thread : Thread)
  | deleted

end Routes

abbrev Routes := Prog Routes.interface Exn

namespace Routes

def perform (o : Op) : Routes o.Ans := Prog.perform (I := interface) o

def get (threadId : String) : Routes (Option Thread) :=
  (perform (.api (.get threadId))).bind .ofExcept

def acquire (graphName threadId : String) : Routes (Option String) :=
  (perform (.api (.acquire graphName threadId))).bind .ofExcept

def release (graphName threadId token : String) : Routes Unit :=
  (perform (.api (.release graphName threadId token))).bind .ofExcept

def refuse (statusCode : Nat) (detail : String) : Response := .api (.error statusCode detail none)

def ofApi {α : Type} (p : Api α) : Routes α := p.interpret fun o => perform (.api o)

end Routes

structure ThreadStateUpdate where
  values : Json.Value
  asNode : Option String
  checkpointId : Option String
  checkpoint : Option JsonObject

/-- `_build_checkpoint_config`, where no checkpoint is given with the id that the request has. -/
def checkpointConfig (eq : Json.Value → Json.Value → Bool) (threadId : String)
    (update : ThreadStateUpdate) : Except History.Refusal JsonObject :=
  match update.checkpoint, update.checkpointId with
  | none, some id =>
    let configurable : JsonObject :=
      Dict.ofList [(threadIdKey, .str threadId), (History.checkpointIdKey, .str id)]
    .ok (Dict.ofList [(configurableKey, configurable.toValue)])
  | checkpoint, _ => History.buildCheckpointConfig eq threadId checkpoint

def stateBusy (threadId : String) : Routes.Response :=
  Routes.refuse 409 (s!"Thread {reprStr threadId} is already busy. " ++
    "State updates are not supported while a run is active.")

def stateNotFound (threadId : String) : Routes.Response := .api (notFound threadId)

/-- `_release_thread_state_lock`: the error to report, if there is one. -/
def releaseThreadStateLock (threadId graphName lockToken : String) (status : ThreadStatus)
    (storeOwnerToken : String) : Routes (Option Exn) := do
  let ownerToken := if storeOwnerToken = "" then lockToken else storeOwnerToken
  let released ← Routes.perform (.api (.releaseRunLock threadId status none ownerToken))
  let failure := match released with
    | .ok released =>
      if released.status = .busy || released.lockToken.isSome then
        some (.runtimeError "State-update store ownership was not released")
      else none
    | .error exc => some exc
  match ← Routes.perform (.api (.release graphName threadId lockToken)) with
  | .ok () => return failure
  | .error exc => return failure <|> some exc

def stateCheckpoint (threadId : String) (result : Json.Value) : Except Exn History.Checkpoint := do
  let configurable := History.configurableIn result
  let checkpointNs ← History.getItem configurable History.checkpointNsKey (.str "")
  let checkpointId ← History.getItem configurable History.checkpointIdKey .null
  return ⟨threadId, ← History.validateStr checkpointNs, ← History.validateOptionalStr checkpointId⟩

def updateLocked (threadId graphName lockToken storeLockToken : String) (priorStatus : ThreadStatus)
    (config : JsonObject) (update : ThreadStateUpdate) : Routes Routes.Response := do
  let outcome ← (do
    (Routes.perform (.api (.guardRunConfig graphName threadId lockToken))).bind .ofExcept
    (Routes.perform (.updateState config update.values update.asNode)).bind .ofExcept :
      Routes Json.Value).attempt
  match outcome with
  | .error exc =>
    let _ ← releaseThreadStateLock threadId graphName lockToken .error storeLockToken
    if exc.isKeyError || exc.isValueError then
      let text ← .ofExcept exc.str
      return Routes.refuse 404 s!"Cannot update state for thread {reprStr threadId}: {text}"
    else return Routes.refuse 500 "Internal error updating thread state"
  | .ok result =>
    match ← releaseThreadStateLock threadId graphName lockToken priorStatus storeLockToken with
    | some _ => return Routes.refuse 500 "Internal error releasing thread state lock"
    | none => return .checkpoint (← .ofExcept (stateCheckpoint threadId result))

/-- The run lock of the store, taken under the lock of the thread; an exception of another kind
leaves without it, and with the lock of the thread. -/
def lockedUpdate (threadId graphName lockToken : String) (priorStatus : ThreadStatus)
    (config : JsonObject) (update : ThreadStateUpdate) : Routes Routes.Response := do
  match ← Routes.perform (.api (.tryAcquireRunLock threadId graphName)) with
  | .error exc =>
    if exc.isKeyError then
      Routes.release graphName threadId lockToken
      return stateNotFound threadId
    else if exc.isValueError then
      Routes.release graphName threadId lockToken
      let detail ← .ofExcept exc.str
      return Routes.refuse 409 detail
    else throw exc
  | .ok none =>
    Routes.release graphName threadId lockToken
    return stateBusy threadId
  | .ok (some locked) =>
    let storeLockToken := match locked.lockToken with
      | some token => if token = "" then lockToken else token
      | none => lockToken
    updateLocked threadId graphName lockToken storeLockToken priorStatus config update

def readUpdate (threadId : String) (config : JsonObject) (update : ThreadStateUpdate) :
    Routes Routes.Response := do
  match ← Routes.get threadId with
  | none => return stateNotFound threadId
  | some thread =>
    match thread.assistantId with
    | none => return stateNotFound threadId
    | some graphName =>
      match ← Routes.acquire graphName threadId with
      | none => return stateBusy threadId
      | some lockToken => lockedUpdate threadId graphName lockToken thread.status config update

/-- `threads_state_update` from where the body is read; `resolve` makes the checks of
`_resolve_thread_graph` on the thread it finds. -/
def threadsStateUpdate (eq : Json.Value → Json.Value → Bool) (threadId : String)
    (body : Except Routes.Response ThreadStateUpdate)
    (resolve : Thread → Except Routes.Response Unit) : Routes Routes.Response :=
  match body with
  | .error response => return response
  | .ok update => do
    match ← Routes.get threadId with
    | none => return stateNotFound threadId
    | some thread =>
      match resolve thread with
      | .error response => return response
      | .ok () =>
        match checkpointConfig eq threadId update with
        | .error refusal => return .refused refusal
        | .ok config => readUpdate threadId config update

def threadsCreate (body : Except Routes.Response (Option JsonObject)) : Routes Routes.Response :=
  match body with
  | .error response => return response
  | .ok metadata => do
    let thread ← (Routes.perform (.create metadata)).bind .ofExcept
    return .created thread

def threadsDelete (threadId : String) : Routes Routes.Response := do
  match ← Routes.perform (.delete threadId) with
  | .ok () => return .deleted
  | .error exc => if exc.isKeyError then return stateNotFound threadId else throw exc

end LangGraphFunctions.Platform

import LangGraphFunctions.Platform.Contracts
import LangGraphFunctions.Stores.TableJson

/-! `AzureTableThreadStore`: each method as a program over the table. -/

namespace LangGraphFunctions.Stores

open Lib Platform

namespace AzureTable

abbrev Table := EtagTable.Table Property
abbrev Row := EtagTable.Row Property

abbrev Call := Prog (EtagTable.interface Property) Exn

def perform (o : EtagTable.Op Property) : Call o.Ans :=
  Prog.perform (I := EtagTable.interface Property) o

def getEntity (threadId : String) : Call (Except EtagTable.Failure Row) :=
  perform (.get threadId)

/-- `update_entity` under `MatchConditions.IfNotModified`. -/
def updateEntity (threadId : String) (entity : Entity) (mode : EtagTable.Mode) (etag : Nat) :
    Call (Except EtagTable.Failure Unit) :=
  perform (.update threadId entity mode etag)

def createEntity (threadId : String) (entity : Entity) : Call (Except EtagTable.Failure Unit) :=
  perform (.create threadId entity)

def deleteEntity (threadId : String) : Call (Except EtagTable.Failure Unit) :=
  perform (.delete threadId)

def queryEntities (matching : Entity → Bool) (select : Option (List String)) :
    Call (Except EtagTable.Failure (List (String × Row))) :=
  perform (.query matching select)

def utcnow : Call Int := perform .now

def uuid4 : Call String := perform .uuid

def partitionKey : String := "thread"

def lockSeconds : Int := 60

def threadToEntity (threadId : String) (createdAt updatedAt : Int)
    (metadata : Option JsonObject) (status : ThreadStatus) (values : Option JsonObject)
    (assistantId : Option String) (interrupts : Dict Json.Key (List Interrupt)) :
    Except Exn Entity := do
  let entity : Entity := Dict.ofList [("PartitionKey", .str partitionKey), ("RowKey", .str threadId),
    ("created_at", .datetime createdAt), ("updated_at", .datetime updatedAt),
    ("status", .str status.text)]
  let entity ← writeJson entity "interrupts_json" (interruptsToValue interrupts)
  let entity ← writeOptionalJson entity "metadata_json" (metadata.map JsonObject.toValue)
  let entity ← writeOptionalJson entity "values_json" (values.map JsonObject.toValue)
  return match assistantId with
    | none => entity
    | some assistantId => entity.set "assistant_id" (.str assistantId)

/-- `_normalize_datetime(entity[field])`. -/
def readDatetime (entity : Entity) (field : String) : Except Exn Int :=
  match entity.get? field with
  | none => .error (.keyError field)
  | some (.datetime t) => .ok t
  | some _ => .error (.attributeError "tzinfo")

def readOptionalDatetime (entity : Entity) (field : String) : Except Exn (Option Int) :=
  match entity.get? field with
  | none => .ok none
  | some .none => .ok none
  | some (.datetime t) => .ok (some t)
  | some _ => .error (.attributeError "tzinfo")

def readOptionalString (entity : Entity) (field : String) : Except Exn (Option String) :=
  match entity.get? field with
  | none => .ok none
  | some .none => .ok none
  | some (.str s) => .ok (some s)
  | some _ => .error (validationError field)

def readStatus (entity : Entity) : Except Exn ThreadStatus :=
  match entity.get? "status" with
  | none => .ok .idle
  | some (.str s) =>
    match ThreadStatus.ofText s with
    | some status => .ok status
    | none => .error (validationError "status")
  | some _ => .error (validationError "status")

def entityToThread (threadId : String) (entity : Entity) : Except Exn Thread := do
  let metadata ← readJson entity "metadata_json" .null
  let values ← readJson entity "values_json" .null
  let interrupts ← readJson entity "interrupts_json" (.dict [])
  let createdAt ← readDatetime entity "created_at"
  let updatedAt ← readDatetime entity "updated_at"
  let lockExpiresAt ← readOptionalDatetime entity "lock_expires_at"
  let metadata ← validateJson "metadata" metadata
  let status ← readStatus entity
  let values ← validateJson "values" values
  let assistantId ← readOptionalString entity "assistant_id"
  let interrupts ← validateInterrupts interrupts
  let lockToken ← readOptionalString entity "lock_token"
  return { threadId, createdAt, updatedAt, metadata, status, values, assistantId, interrupts,
           lockToken, lockExpiresAt }

def create (metadata : Option JsonObject) : Call Thread := do
  let threadId ← uuid4
  let now ← utcnow
  let entity ← .ofExcept (threadToEntity threadId now now metadata .idle none none ∅)
  .ofExcept (validateEntity entity)
  match ← createEntity threadId entity with
  | .ok () => .ofExcept (entityToThread threadId entity)
  | .error f => .raise (.ofFailure f)

def get (threadId : String) : Call (Option Thread) := do
  match ← getEntity threadId with
  | .ok row => return some (← .ofExcept (entityToThread threadId row.entity))
  | .error .notFound => return none
  | .error f => .raise (.ofFailure f)

def updated (entity : Entity) (now : Int) (metadata : Option JsonObject)
    (status : Option ThreadStatus) (values : Option JsonObject)
    (interrupts : Option (Dict Json.Key (List Interrupt))) (assistantId : Option String) :
    Except Exn Entity := do
  let replacement := entity.filterKeys fun key => !(key == "etag" || key == "Timestamp")
  let replacement := replacement.set "updated_at" (.datetime now)
  let replacement ← writeOptionalJson replacement "metadata_json" (metadata.map JsonObject.toValue)
  let replacement ← writeOptionalJson replacement "values_json" (values.map JsonObject.toValue)
  let replacement ← writeOptionalJson replacement "interrupts_json" (interrupts.map interruptsToValue)
  let replacement := match status with
    | none => replacement
    | some status => replacement.set "status" (.str status.text)
  return match assistantId with
    | none => replacement
    | some assistantId => replacement.set "assistant_id" (.str assistantId)

def updateAttempts (threadId : String) (metadata : Option JsonObject)
    (status : Option ThreadStatus) (values : Option JsonObject)
    (interrupts : Option (Dict Json.Key (List Interrupt))) (assistantId : Option String) :
    Nat → Call Thread
  | 0 => .raise .modifiedError
  | n + 1 => do
    match ← getEntity threadId with
    | .error .notFound => .raise (.keyError threadId)
    | .error f => .raise (.ofFailure f)
    | .ok row =>
      let now ← utcnow
      let replacement ←
        .ofExcept (updated row.entity now metadata status values interrupts assistantId)
      .ofExcept (validateEntity replacement)
      match ← updateEntity threadId replacement .replace row.etag with
      | .ok () => .ofExcept (entityToThread threadId replacement)
      | .error .modified =>
        updateAttempts threadId metadata status values interrupts assistantId n
      | .error .notFound => .raise (.keyError threadId)
      | .error f => .raise (.ofFailure f)

def update (threadId : String) (metadata : Option JsonObject) (status : Option ThreadStatus)
    (values : Option JsonObject) (interrupts : Option (Dict Json.Key (List Interrupt)))
    (assistantId : Option String) : Call Thread :=
  updateAttempts threadId metadata status values interrupts assistantId 3

def delete (threadId : String) : Call Unit := do
  match ← deleteEntity threadId with
  | .ok () => return
  | .error .notFound => .raise (.keyError threadId)
  | .error f => .raise (.ofFailure f)

def lockPatch (threadId : String) (now : Int) (ownerToken : String)
    (bound assistantId : Option String) : Entity :=
  let patch : Entity := Dict.ofList [("PartitionKey", .str partitionKey), ("RowKey", .str threadId),
    ("status", .str ThreadStatus.busy.text), ("updated_at", .datetime now),
    ("lock_token", .str ownerToken), ("lock_expires_at", .datetime (now + lockSeconds))]
  match bound, assistantId with
  | none, some assistantId => patch.set "assistant_id" (.str assistantId)
  | _, _ => patch

def lockedThread (thread : Thread) (now : Int) (ownerToken : String)
    (assistantId : Option String) : Thread :=
  { thread with
    status := .busy
    updatedAt := now
    lockToken := some ownerToken
    lockExpiresAt := some (now + lockSeconds)
    assistantId := thread.assistantId.or assistantId }

def boundElsewhere (bound assistantId : Option String) : Bool :=
  match bound, assistantId with
  | some bound, some assistantId => bound != assistantId
  | _, _ => false

def acquireAttempts (threadId : String) (assistantId : Option String) :
    Nat → Call (Option Thread)
  | 0 => return none
  | n + 1 => do
    match ← getEntity threadId with
    | .error .notFound => .raise (.keyError threadId)
    | .error f => .raise (.ofFailure f)
    | .ok row =>
      let thread ← .ofExcept (entityToThread threadId row.entity)
      if boundElsewhere thread.assistantId assistantId then
        .raise (.valueError ("Thread " ++ reprStr threadId ++ " is bound to assistant " ++
          reprOptional thread.assistantId ++ ", cannot run with " ++ reprOptional assistantId))
      else if thread.status = .busy then return none
      else
        let now ← utcnow
        let ownerToken ← uuid4
        let patch := lockPatch threadId now ownerToken thread.assistantId assistantId
        .ofExcept (validateEntity (row.entity.update patch))
        match ← updateEntity threadId patch .merge row.etag with
        | .ok () => return some (lockedThread thread now ownerToken assistantId)
        | .error .modified => acquireAttempts threadId assistantId n
        | .error .notFound => .raise (.keyError threadId)
        | .error f => .raise (.ofFailure f)

def tryAcquireRunLock (threadId : String) (assistantId : Option String) : Call (Option Thread) :=
  acquireAttempts threadId assistantId 3

def released (entity : Entity) (now : Int) (status : ThreadStatus) (values : Option Json.Value) :
    Except Exn Entity :=
  let replacement := entity.filterKeys fun key =>
    !(key == "lock_token" || key == "lock_expires_at" || key == "etag" || key == "Timestamp")
  let replacement := replacement.set "status" (.str status.text)
  let replacement := replacement.set "updated_at" (.datetime now)
  writeOptionalJson replacement "values_json" values

/-- `entity.get("lock_token") == token`. -/
def holdsToken (entity : Entity) (token : String) : Bool :=
  entity.get? "lock_token" == some (.str token)

def isStale (entity : Entity) (ownerToken : Option String) : Bool :=
  match ownerToken with
  | none => false
  | some token => !holdsToken entity token

def releaseAttempts (threadId : String) (status : ThreadStatus) (values : Option Json.Value)
    (ownerToken : Option String) : Nat → Call Thread
  | 0 => .raise (.runLockReleaseError threadId)
  | n + 1 => do
    match ← getEntity threadId with
    | .error .notFound => .raise (.keyError threadId)
    | .error f => .raise (.ofFailure f)
    | .ok row =>
      if isStale row.entity ownerToken then .ofExcept (entityToThread threadId row.entity)
      else
        let now ← utcnow
        let replacement ← .ofExcept (released row.entity now status values)
        .ofExcept (validateEntity replacement)
        match ← updateEntity threadId replacement .replace row.etag with
        | .ok () => .ofExcept (entityToThread threadId replacement)
        | .error .modified => releaseAttempts threadId status values ownerToken n
        | .error .notFound => .raise (.keyError threadId)
        | .error f => .raise (.ofFailure f)

def releaseRunLock (threadId : String) (status : ThreadStatus) (values : Option Json.Value)
    (ownerToken : Option String) : Call Thread :=
  if status = .busy then .raise (.valueError "release_run_lock cannot set status to 'busy'")
  else releaseAttempts threadId status values ownerToken 3

def renewPatch (threadId : String) (now : Int) : Entity :=
  Dict.ofList [("PartitionKey", .str partitionKey), ("RowKey", .str threadId),
    ("updated_at", .datetime now), ("lock_expires_at", .datetime (now + lockSeconds))]

def renewRunLock (threadId ownerToken : String) : Call Bool := do
  match ← getEntity threadId with
  | .error f => .raise (.ofFailure f)
  | .ok row =>
    if holdsToken row.entity ownerToken then
      let now ← utcnow
      match ← updateEntity threadId (renewPatch threadId now) .merge row.etag with
      | .ok () => return true
      | .error .modified => return false
      | .error f => .raise (.ofFailure f)
    else return false

def isBusy (entity : Entity) : Bool :=
  entity.get? "PartitionKey" == some (.str partitionKey) &&
    entity.get? "status" == some (.str ThreadStatus.busy.text)

def resetPatch (threadId : String) (now : Int) (status : ThreadStatus) : Entity :=
  Dict.ofList [("PartitionKey", .str partitionKey), ("RowKey", .str threadId),
    ("status", .str status.text), ("updated_at", .datetime now)]

def isOlder (entity : Entity) (cutoff : Int) : Bool :=
  match entity.get? "updated_at" with
  | some (.datetime t) => t < cutoff
  | _ => false

def resetRow (cutoff : Int) (status : ThreadStatus) (count : Nat) (found : String × Row) :
    Call Nat := do
  if isOlder found.2.entity cutoff then
    let now ← utcnow
    match ← updateEntity found.1 (resetPatch found.1 now status) .merge found.2.etag with
    | .ok () => return count + 1
    | .error .modified => return count
    | .error .notFound => return count
    | .error f => .raise (.ofFailure f)
  else return count

def resetOlder (cutoff : Int) (status : ThreadStatus) : Call Nat := do
  match ← queryEntities isBusy (some ["RowKey", "updated_at"]) with
  | .error f => .raise (.ofFailure f)
  | .ok entities => entities.foldlM (resetRow cutoff status) 0

def resetStaleLocks (olderThanSeconds : Int) (status : ThreadStatus) : Call Nat := do
  if olderThanSeconds < 0 then
    .raise (.valueError s!"older_than_seconds must be non-negative, got {olderThanSeconds}")
  else if !(status == .idle || status == .error) then
    .raise (.valueError ("status must be 'idle' or 'error', got " ++ reprStr status.text))
  else
    let now ← utcnow
    resetOlder (now - olderThanSeconds) status

end AzureTable

end LangGraphFunctions.Stores

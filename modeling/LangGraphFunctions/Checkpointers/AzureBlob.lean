import LangGraphFunctions.Checkpointers.Paths
import LangGraphFunctions.Errors
import LangGraphFunctions.Lib.Container
import LangGraphFunctions.Lib.Decimal
import LangGraphFunctions.Lib.JsonLaws

/-! The checkpoint saver over blob storage. -/

namespace LangGraphFunctions.Checkpointers.AzureBlob

open Lib

inductive Version
  | str (s : String)
  | int (n : Int)
  | float (repr : String)
  deriving DecidableEq

/-- `str(version)`. -/
def Version.text : Version → String
  | .str s => s
  | .int n => toString n
  | .float repr => repr

abbrev ChannelVersions := Dict String Version

/-- A checkpoint without its channel values; `rest` holds the fields that the saver passes on. -/
structure CheckpointData (R : Type) where
  id : String
  channelVersions : ChannelVersions
  rest : R

structure Checkpoint (V R : Type) extends CheckpointData R where
  channelValues : Dict String V

inductive Datum (V R : Type)
  | value (v : V)
  | metadata (m : Dict String V)
  | checkpoint (data : CheckpointData R)

structure Serde (V R : Type) where
  dumpsTyped : Datum V R → Except Exn (String × ByteArray)
  loadsTyped : String × ByteArray → Except Exn (Datum V R)

/-- `guard` is the entry under the private key where it really is a guard. -/
structure Configurable (G : Type) where
  threadId : Option String
  checkpointNs : Option String
  checkpointId : Option String
  guard : Option G

structure RunnableConfig (G : Type) where
  configurable : Option (Configurable G)

structure CheckpointTuple (V R G : Type) where
  config : RunnableConfig G
  checkpoint : Checkpoint V R
  metadata : Dict String V
  parentConfig : Option (RunnableConfig G)
  pendingWrites : List (String × String × V)

variable {V R G : Type}

def configThreadId (config : RunnableConfig G) : Except Exn String :=
  match config.configurable with
  | none => .error (.valueError "configurable must be provided in RunnableConfig")
  | some configurable =>
    match configurable.threadId with
    | none => .error (.valueError "thread_id is required in config.configurable")
    | some threadId => .ok threadId

def configCheckpointNs (config : RunnableConfig G) : Except Exn String :=
  match config.configurable with
  | none => .error (.valueError "configurable must be provided in RunnableConfig")
  | some configurable => .ok (configurable.checkpointNs.getD "")

def getCheckpointId (config : RunnableConfig G) : Except Exn (Option String) :=
  match config.configurable with
  | none => .error (.keyError "configurable")
  | some configurable => .ok configurable.checkpointId

def checkpointConfig (threadId ns checkpointId : String) : RunnableConfig G :=
  ⟨some ⟨some threadId, some ns, some checkpointId, none⟩⟩

structure Blob where
  payload : ByteArray
  metadata : Dict String String
  lastModified : Option Int

abbrev Store := Dict String Blob

structure BlobItem where
  name : String
  lastModified : Option Int

inductive Op (G : Type)
  | downloadBlob (blob : String)
  | getBlobProperties (blob : String)
  | uploadBlob (blob : String) (payload : ByteArray) (metadata : Dict String String)
  | deleteBlob (blob : String)
  | listBlobs (nameStartsWith : String)
  | check (guard : G)
  | utcnow

abbrev Op.Ans : Op G → Type
  | .downloadBlob _ => Except Exn ByteArray
  | .getBlobProperties _ => Except Exn (Option (Dict String String))
  | .uploadBlob .. => Except Exn Unit
  | .deleteBlob _ => Except Exn Unit
  | .listBlobs _ => Except Exn (List BlobItem)
  | .check _ => Except Exn Unit
  | .utcnow => Int

abbrev interface (G : Type) : Interface := ⟨Op G, Op.Ans⟩

abbrev Call (G : Type) := Prog (interface G) Exn

def items (s : Store) (pre : String) : List BlobItem :=
  (Container.names s pre).map fun name => ⟨name, (s.get? name).bind (·.lastModified)⟩

/-- The container at the time `now`, with guards that answer `verdict`. -/
def serve (verdict : G → Except Exn Unit) (now : Int) : (o : Op G) → Store → o.Ans × Store
  | .downloadBlob blob, s =>
    match s.get? blob with
    | some b => (.ok b.payload, s)
    | none => (.error .notFoundError, s)
  | .getBlobProperties blob, s =>
    match s.get? blob with
    | some b => (.ok (some b.metadata), s)
    | none => (.error .notFoundError, s)
  | .uploadBlob blob payload metadata, s => (.ok (), s.set blob ⟨payload, metadata, some now⟩)
  | .deleteBlob blob, s =>
    match s.get? blob with
    | some _ => (.ok (), s.erase blob)
    | none => (.error .notFoundError, s)
  | .listBlobs nameStartsWith, s => (.ok (items s nameStartsWith), s)
  | .check guard, s => (verdict guard, s)
  | .utcnow, s => (now, s)

def service : Prog.Service (interface G) Store where
  step o s a s' := ∃ verdict now, serve verdict now o s = (a, s')

def perform (o : Op G) : Call G o.Ans := Prog.perform (I := interface G) o

def downloadBlob (blobPath : String) : Call G (Option ByteArray) := do
  match ← perform (.downloadBlob blobPath) with
  | .ok payload => return some payload
  | .error .notFoundError => return none
  | .error e => throw e

def blobMetadata (blobPath : String) : Call G (Dict String String) := do
  match ← perform (.getBlobProperties blobPath) with
  | .ok metadata => return metadata.getD ∅
  | .error .notFoundError => return ∅
  | .error e => throw e

def blobExists (blobPath : String) : Call G Bool := do
  match ← perform (.getBlobProperties blobPath) with
  | .ok _ => return true
  | .error .notFoundError => return false
  | .error e => throw e

def uploadBlob (blobPath : String) (payload : ByteArray) (metadata : Dict String String) :
    Call G Unit :=
  (perform (.uploadBlob blobPath payload metadata)).bind .ofExcept

def listBlobs (nameStartsWith : String) : Call G (List BlobItem) :=
  (perform (.listBlobs nameStartsWith)).bind .ofExcept

def deleteBlob (blobPath : String) : Call G Unit :=
  (perform (.deleteBlob blobPath)).bind .ofExcept

/-- A blob that is already gone counts as deleted. -/
def deleteBlobIfThere (blobPath : String) : Call G Unit := do
  match ← perform (.deleteBlob blobPath) with
  | .ok _ => return ()
  | .error .notFoundError => return ()
  | .error e => throw e

def checkOwnershipGuard (guard : Option G) : Call G Unit :=
  match guard with
  | some guard => (perform (.check guard)).bind .ofExcept
  | none => return ()

structure TypedBlob where
  serdeType : String
  payload : ByteArray
  metadata : Dict String String

def downloadTypedBlob (blobPath : String) : Call G (Option TypedBlob) := do
  match ← downloadBlob blobPath with
  | none => return none
  | some payload =>
    let metadata ← blobMetadata blobPath
    match metadata.get? "serde_type" with
    | none => return none
    | some serdeType =>
      if serdeType = "" then return none
      else return some ⟨serdeType, payload, metadata⟩

def sortedSet (xs : List String) : List String := xs.dedup.insertionSort (· ≤ ·)

def checkpointIdOf (name : String) : Option String :=
  if Names.endswith name "/checkpoint.bin" then
    match Names.split '/' name with
    | [_, _, _, _, _, checkpointId, _] => some (Percent.unquote checkpointId)
    | _ => none
  else none

def listCheckpointIds (threadId ns : String) : Call G (List String) := do
  let blobs ← listBlobs (checkpointsPrefix threadId ns)
  return (sortedSet (blobs.filterMap fun blob => checkpointIdOf blob.name)).reverse

def threadIdOf (name : String) : Option String :=
  match Names.split '/' name with
  | "threads" :: threadId :: _ => some (Percent.unquote threadId)
  | _ => none

def listThreadIds : Call G (List String) := do
  let blobs ← listBlobs "threads/"
  return sortedSet (blobs.filterMap fun blob => threadIdOf blob.name)

def namespaceOf (name : String) : Option String :=
  match Names.split '/' name with
  | _ :: _ :: "ns" :: ns :: _ => some (Percent.unquote ns)
  | _ => none

def listCheckpointNamespaces (threadId : String) : Call G (List String) := do
  let blobs ← listBlobs (threadPrefix threadId ++ "ns/")
  return sortedSet (blobs.filterMap fun blob => namespaceOf blob.name)

def findLatestCheckpointId (threadId ns : String) : Call G (Option String) := do
  return (← listCheckpointIds threadId ns).head?

/-- `data.get(key)`, where the last of several members under one key counts. -/
def member (data : List (Json.Key × Json.Value)) (key : String) : Option Json.Value :=
  (Dict.ofList data).get? (.str key)

def isOne : Option Json.Value → Bool
  | some (.int 1) => true
  | some (.bool true) => true
  | some (.float (.finite "1.0")) => true
  | _ => false

def isFalse : Option Json.Value → Bool
  | some (.bool false) => true
  | _ => false

def parseLatestCheckpointId (latestPayload : ByteArray) : Option String :=
  match (String.fromUTF8? latestPayload).bind Json.loads with
  | some (.dict data) =>
    if isOne (member data "version") && isFalse (member data "dirty") then
      match member data "checkpoint_id" with
      | some (.str checkpointId) => if checkpointId = "" then none else some checkpointId
      | _ => none
    else none
  | _ => none

def readLatestCheckpointId (threadId ns : String) : Call G (Option String) := do
  return (← downloadBlob (latestBlobPath threadId ns)).bind parseLatestCheckpointId

/-- What the saver is built with, and what it takes from the library it extends: the indices of the
special channels, the metadata of a put, and `None` and `==` of the values. -/
structure Saver (V R G : Type) where
  serde : Serde V R
  requireOwnershipGuard : Bool
  writesIdxMap : Dict String Int
  getCheckpointMetadata : RunnableConfig G → Dict String V → Dict String V
  none : V
  eq : V → V → Bool

variable (S : Saver V R G)

def loadValue (blob : TypedBlob) : Except Exn V :=
  match S.serde.loadsTyped (blob.serdeType, blob.payload) with
  | .ok (.value v) => .ok v
  | .ok _ => .error (.typeError "not a channel value")
  | .error e => .error e

def loadMetadata (blob : TypedBlob) : Except Exn (Dict String V) :=
  match S.serde.loadsTyped (blob.serdeType, blob.payload) with
  | .ok (.metadata m) => .ok m
  | .ok _ => .error (.typeError "not checkpoint metadata")
  | .error e => .error e

def loadCheckpoint (blob : TypedBlob) : Except Exn (CheckpointData R) :=
  match S.serde.loadsTyped (blob.serdeType, blob.payload) with
  | .ok (.checkpoint data) => .ok data
  | .ok _ => .error (.keyError "channel_versions")
  | .error e => .error e

def loadChannelValue (threadId ns : String) (values : Dict String V) (entry : String × Version) :
    Call G (Dict String V) := do
  match ← downloadTypedBlob (valueBlobPath threadId ns entry.1 entry.2.text) with
  | none => return values
  | some blob =>
    if blob.serdeType = "empty" then return values
    else return values.set entry.1 (← Prog.ofExcept (loadValue S blob))

def loadChannelValues (threadId ns : String) (channelVersions : ChannelVersions) :
    Call G (Dict String V) :=
  channelVersions.items.foldlM (loadChannelValue S threadId ns) ∅

structure PendingWrite (V : Type) where
  taskPath : String
  taskId : String
  index : Int
  channel : String
  value : V

def parseWritePath (writesPrefix name : String) : Option (String × Int) :=
  match Names.split '/' (Names.removePrefix name writesPrefix) with
  | [taskId, fileName] =>
    if Names.endswith fileName ".bin" then
      (Decimal.int (Percent.unquote (Names.removeSuffix fileName ".bin"))).map
        (Percent.unquote taskId, ·)
    else none
  | _ => none

def loadPendingWrite (writesPrefix : String) (loaded : List (PendingWrite V)) (blob : BlobItem) :
    Call G (List (PendingWrite V)) := do
  if !Names.startswith blob.name writesPrefix then return loaded
  match parseWritePath writesPrefix blob.name with
  | none => return loaded
  | some (taskId, writeIndex) =>
    match ← downloadTypedBlob blob.name with
    | none => return loaded
    | some typed =>
      match typed.metadata.get? "channel" with
      | none => return loaded
      | some rawChannel =>
        let rawTaskId := (typed.metadata.get? "task_id").getD ""
        let resolvedTaskId := if rawTaskId = "" then taskId else Percent.unquote rawTaskId
        let value ← Prog.ofExcept (loadValue S typed)
        let taskPath := Percent.unquote ((typed.metadata.get? "task_path").getD "")
        return loaded ++
          [⟨taskPath, resolvedTaskId, writeIndex, Percent.unquote rawChannel, value⟩]

/-- `(task_path, task_id, index)` in order. -/
def PendingWrite.le (a b : PendingWrite V) : Prop :=
  a.taskPath < b.taskPath ∨ a.taskPath = b.taskPath ∧
    (a.taskId < b.taskId ∨ a.taskId = b.taskId ∧ a.index ≤ b.index)

instance : DecidableRel (PendingWrite.le (V := V)) := fun a b => by
  unfold PendingWrite.le
  infer_instance

def loadPendingWrites (threadId ns checkpointId : String) : Call G (List (String × String × V)) := do
  let pre := writesPrefix threadId ns checkpointId
  let loaded ← (← listBlobs pre).foldlM (loadPendingWrite S pre) []
  return (loaded.insertionSort PendingWrite.le).map fun w => (w.taskId, w.channel, w.value)

/-- The parent a checkpoint blob names; an empty one is none. -/
def parentId (metadata : Dict String String) : Option String :=
  match metadata.get? "parent_id" with
  | some raw => if Percent.unquote raw = "" then none else some (Percent.unquote raw)
  | none => none

def buildTuple (threadId ns checkpointId : String) (returnConfig : RunnableConfig G) :
    Call G (Option (CheckpointTuple V R G)) := do
  match ← downloadTypedBlob (checkpointBlobPath threadId ns checkpointId) with
  | none => return none
  | some blob =>
    let data ← Prog.ofExcept (loadCheckpoint S blob)
    let channelValues ← loadChannelValues S threadId ns data.channelVersions
    match ← downloadTypedBlob (metadataBlobPath threadId ns checkpointId) with
    | none => return none
    | some metadataBlob =>
      let metadata ← Prog.ofExcept (loadMetadata S metadataBlob)
      let pendingWrites ← loadPendingWrites S threadId ns checkpointId
      return some
        { config := returnConfig
          checkpoint := { data with channelValues }
          metadata
          parentConfig := (parentId blob.metadata).map (checkpointConfig threadId ns)
          pendingWrites }

def getLatestTuple (threadId ns : String) : Call G (Option (CheckpointTuple V R G)) := do
  let build (checkpointId : String) :=
    buildTuple S threadId ns checkpointId (checkpointConfig threadId ns checkpointId)
  let hinted ← match ← readLatestCheckpointId threadId ns with
    | some latestHint => build latestHint
    | none => pure none
  match hinted with
  | some tuple => return some tuple
  | none =>
    match ← findLatestCheckpointId threadId ns with
    | none => return none
    | some actualLatest => build actualLatest

def getTuple (config : RunnableConfig G) : Call G (Option (CheckpointTuple V R G)) := do
  let threadId ← Prog.ofExcept (configThreadId config)
  let ns ← Prog.ofExcept (configCheckpointNs config)
  let requested ← Prog.ofExcept (getCheckpointId config)
  if requested.getD "" = "" then getLatestTuple S threadId ns
  else buildTuple S threadId ns (requested.getD "") config

def agetTuple (config : RunnableConfig G) : Call G (Option (CheckpointTuple V R G)) :=
  getTuple S config

structure Query (V G : Type) where
  config : Option (RunnableConfig G)
  filter : List (String × V)
  before : Option (RunnableConfig G)
  limit : Option Int

structure Enumeration (V R G : Type) where
  remaining : Option Int
  returned : Bool
  tuples : List (CheckpointTuple V R G)

def Saver.passes (filter : List (String × V)) (metadata : Dict String V) : Bool :=
  filter.all fun entry => S.eq entry.2 ((metadata.get? entry.1).getD S.none)

def Enumeration.offer (e : Enumeration V R G) (tuple : CheckpointTuple V R G) :
    Enumeration V R G :=
  match e.remaining with
  | some remaining =>
    if remaining ≤ 0 then { e with returned := true }
    else { e with remaining := some (remaining - 1), tuples := e.tuples ++ [tuple] }
  | none => { e with tuples := e.tuples ++ [tuple] }

def selected (configId beforeId : Option String) (checkpointId : String) : Bool :=
  (match configId with
    | some configId => decide (checkpointId = configId)
    | none => true) &&
  match beforeId with
  | some beforeId => decide (checkpointId < beforeId)
  | none => true

def listCheckpoint (filter : List (String × V)) (configId beforeId : Option String)
    (threadId ns : String) (e : Enumeration V R G) (checkpointId : String) :
    Call G (Enumeration V R G) := do
  if e.returned || !selected configId beforeId checkpointId then return e
  match ← buildTuple S threadId ns checkpointId (checkpointConfig threadId ns checkpointId) with
  | none => return e
  | some tuple => if S.passes filter tuple.metadata then return e.offer tuple else return e

def listNamespace (filter : List (String × V)) (configId beforeId : Option String)
    (threadId : String) (e : Enumeration V R G) (ns : String) : Call G (Enumeration V R G) := do
  if e.returned then return e
  (← listCheckpointIds threadId ns).foldlM
    (listCheckpoint S filter configId beforeId threadId ns) e

def targetNamespaces (threadId : String) (checkpointNs : Option String) : Call G (List String) :=
  match checkpointNs with
  | some ns => return [ns]
  | none => listCheckpointNamespaces threadId

def listThread (filter : List (String × V)) (configNs configId beforeId : Option String)
    (e : Enumeration V R G) (threadId : String) : Call G (Enumeration V R G) := do
  if e.returned then return e
  (← targetNamespaces threadId configNs).foldlM (listNamespace S filter configId beforeId threadId) e

def ofConfig {α : Type} (f : RunnableConfig G → Except Exn α) (config : Option (RunnableConfig G)) :
    Except Exn (Option α) :=
  match config with
  | some config => (f config).map some
  | none => .ok none

def targetThreads (config : Option (RunnableConfig G)) : Call G (List String) :=
  match config with
  | some config => Prog.ofExcept ((configThreadId config).map fun threadId => [threadId])
  | none => listThreadIds

def list (q : Query V G) : Call G (List (CheckpointTuple V R G)) := do
  let configNs ← Prog.ofExcept (ofConfig configCheckpointNs q.config)
  let configId ← Prog.ofExcept (ofConfig getCheckpointId q.config)
  let beforeId ← Prog.ofExcept (ofConfig getCheckpointId q.before)
  let threadIds ← targetThreads q.config
  let e ← threadIds.foldlM (listThread S q.filter configNs configId.join beforeId.join)
    ⟨q.limit, false, []⟩
  return e.tuples

def alist (q : Query V G) : Call G (List (CheckpointTuple V R G)) := list S q

def resolveOwnershipGuard (bound : Option G) (config : RunnableConfig G) : Option G :=
  bound <|> config.configurable.bind (·.guard)

def writeGuard (bound : Option G) (config : RunnableConfig G) : Except Exn (Option G) :=
  match resolveOwnershipGuard bound config with
  | some guard => .ok (some guard)
  | none => if S.requireOwnershipGuard then .error (.threadLeaseLostError "missing") else .ok none

def guardedUpload (guard : Option G) (blobPath : String) (payload : ByteArray)
    (metadata : Dict String String) : Call G Unit := do
  checkOwnershipGuard guard
  uploadBlob blobPath payload metadata

def typed (serdeType : String) : Dict String String := Dict.ofList [("serde_type", serdeType)]

def dirtyLatest : ByteArray := "\x7b\"version\":1,\"dirty\":true\x7d".toUTF8

def latestMembers (checkpointId : String) : List (Json.Key × Json.Value) :=
  [(.str "version", .int 1), (.str "dirty", .bool false), (.str "checkpoint_id", .str checkpointId)]

def cleanLatest (checkpointId : String) : Except Exn ByteArray :=
  ((Json.dumps .compact true (.dict (latestMembers checkpointId))).mapError Exn.ofJson).map
    String.toUTF8

def currentLatest (threadId ns : String) : Call G (Option String) := do
  match ← readLatestCheckpointId threadId ns with
  | none => findLatestCheckpointId threadId ns
  | some latest =>
    if ← blobExists (checkpointBlobPath threadId ns latest) then return some latest
    else findLatestCheckpointId threadId ns

def putValue (guard : Option G) (threadId ns : String) (channelValues : Dict String V)
    (entry : String × Version) : Call G Unit := do
  let (serdeType, payload) ← match channelValues.get? entry.1 with
    | some v => Prog.ofExcept (S.serde.dumpsTyped (.value v))
    | none => pure ("empty", ByteArray.empty)
  guardedUpload guard (valueBlobPath threadId ns entry.1 entry.2.text) payload (typed serdeType)

def checkpointBlobMetadata (serdeType : String) (parent : Option String) : Dict String String :=
  match parent with
  | some parent => (typed serdeType).set "parent_id" (Percent.quote parent)
  | none => typed serdeType

def put (bound : Option G) (config : RunnableConfig G) (checkpoint : Checkpoint V R)
    (metadata : Dict String V) (newVersions : ChannelVersions) : Call G (RunnableConfig G) := do
  let guard ← Prog.ofExcept (writeGuard S bound config)
  let threadId ← Prog.ofExcept (configThreadId config)
  let ns ← Prog.ofExcept (configCheckpointNs config)
  let parent ← Prog.ofExcept (getCheckpointId config)
  let latest ← currentLatest threadId ns
  guardedUpload guard (latestBlobPath threadId ns) dirtyLatest ∅
  newVersions.items.forM (putValue S guard threadId ns checkpoint.channelValues)
  let (metadataType, metadataPayload) ←
    Prog.ofExcept (S.serde.dumpsTyped (.metadata (S.getCheckpointMetadata config metadata)))
  guardedUpload guard (metadataBlobPath threadId ns checkpoint.id) metadataPayload
    (typed metadataType)
  let (serdeType, payload) ←
    Prog.ofExcept (S.serde.dumpsTyped (.checkpoint checkpoint.toCheckpointData))
  guardedUpload guard (checkpointBlobPath threadId ns checkpoint.id) payload
    (checkpointBlobMetadata serdeType parent)
  let latestPayload ← Prog.ofExcept (cleanLatest (max (latest.getD "") checkpoint.id))
  guardedUpload guard (latestBlobPath threadId ns) latestPayload ∅
  return checkpointConfig threadId ns checkpoint.id

def aput (bound : Option G) (config : RunnableConfig G) (checkpoint : Checkpoint V R)
    (metadata : Dict String V) (newVersions : ChannelVersions) : Call G (RunnableConfig G) :=
  put S bound config checkpoint metadata newVersions

def writeBlobMetadata (serdeType channel taskId taskPath : String) : Dict String String :=
  Dict.ofList [("serde_type", serdeType), ("channel", Percent.quote channel),
    ("task_id", Percent.quote taskId), ("task_path", Percent.quote taskPath)]

def Saver.writeIndex (channel : String) (position : Nat) : Int :=
  (S.writesIdxMap.get? channel).getD position

def settled (writeIndex : Int) (writeBlobPath : String) : Call G Bool :=
  if 0 ≤ writeIndex then blobExists writeBlobPath else return false

def putWrite (guard : Option G) (threadId ns checkpointId taskId taskPath : String)
    (write : (String × V) × Nat) : Call G Unit := do
  let writeIndex := S.writeIndex write.1.1 write.2
  let writeBlobPath := writeBlobPath threadId ns checkpointId taskId writeIndex
  if ← settled writeIndex writeBlobPath then return ()
  let (serdeType, payload) ← Prog.ofExcept (S.serde.dumpsTyped (.value write.1.2))
  guardedUpload guard writeBlobPath payload
    (writeBlobMetadata serdeType write.1.1 taskId taskPath)

def putWrites (bound : Option G) (config : RunnableConfig G) (writes : List (String × V))
    (taskId taskPath : String) : Call G Unit := do
  let guard ← Prog.ofExcept (writeGuard S bound config)
  let threadId ← Prog.ofExcept (configThreadId config)
  let ns ← Prog.ofExcept (configCheckpointNs config)
  match ← Prog.ofExcept (getCheckpointId config) with
  | none => throw (.valueError "checkpoint_id is required in config to store writes")
  | some checkpointId =>
    writes.zipIdx.forM (putWrite S guard threadId ns checkpointId taskId taskPath)

def aputWrites (bound : Option G) (config : RunnableConfig G) (writes : List (String × V))
    (taskId taskPath : String) : Call G Unit :=
  putWrites S bound config writes taskId taskPath

def deleteThread (threadId : String) : Call G Unit := do
  (← listBlobs (threadPrefix threadId)).forM fun blob => deleteBlob blob.name

def adeleteThread (threadId : String) : Call G Unit := deleteThread threadId

def deleteCheckpointBlobs (threadId ns checkpointId : String) : Call G Unit := do
  (← listBlobs (checkpointBasePrefix threadId ns checkpointId)).forM fun blob =>
    deleteBlobIfThere blob.name

def deleteDoomed (doomed : List String → List String) (threadId : String) (deleted : Nat)
    (ns : String) : Call G Nat := do
  let ids := doomed (← listCheckpointIds threadId ns)
  ids.forM (deleteCheckpointBlobs threadId ns)
  return deleted + ids.length

def deleteCheckpointsBefore (threadId beforeCheckpointId : String)
    (checkpointNs : Option String) : Call G Nat := do
  (← targetNamespaces threadId checkpointNs).foldlM
    (deleteDoomed (·.filter (· < beforeCheckpointId)) threadId) 0

def deleteOldCheckpoints (threadId : String) (keepLast : Int) (checkpointNs : Option String) :
    Call G Nat := do
  if keepLast < 0 then throw (.valueError "keep_last must be non-negative")
  (← targetNamespaces threadId checkpointNs).foldlM
    (deleteDoomed (·.drop keepLast.toNat) threadId) 0

structure OrphanedValueCollectionResult where
  dryRun : Bool
  wouldDelete : List String
  deleted : List String
  skippedNamespaces : List (String × String)
  skippedRecent : List String
  deriving DecidableEq

def collectRetained (threadId ns : String) (retained : Option (List (String × String)))
    (checkpointId : String) : Call G (Option (List (String × String))) := do
  match retained with
  | none => return none
  | some retained =>
    match ← downloadTypedBlob (checkpointBlobPath threadId ns checkpointId) with
    | none => return none
    | some blob =>
      match loadCheckpoint S blob with
      | .error _ => return none
      | .ok data =>
        return some (retained ++ data.channelVersions.items.map fun e => (e.1, e.2.text))

def collectRetainedVersions (threadId ns : String) : Call G (Option (List (String × String))) := do
  (← listCheckpointIds threadId ns).foldlM (collectRetained S threadId ns) (some [])

def parseValueBlobPath (threadId ns blobPath : String) : Option (String × String) :=
  if Names.startswith blobPath (valuesPrefix threadId ns) then
    match Names.split '/' (Names.removePrefix blobPath (valuesPrefix threadId ns)) with
    | [channel, fileName] =>
      if Names.endswith fileName ".bin" then
        some (Percent.unquote channel, Percent.unquote (Names.removeSuffix fileName ".bin"))
      else none
    | _ => none
  else none

def listValueBlobs (threadId ns : String) :
    Call G (List (String × Option (String × String) × Option Int)) := do
  return (← listBlobs (valuesPrefix threadId ns)).map fun blob =>
    (blob.name, parseValueBlobPath threadId ns blob.name, blob.lastModified)

def isOrphan (retained : List (String × String)) (channelVersion : Option (String × String)) :
    Bool :=
  match channelVersion with
  | none => false
  | some channelVersion => !retained.contains channelVersion

def isRetained (retained : List (String × String)) (channelVersion : Option (String × String)) :
    Bool :=
  match channelVersion with
  | none => false
  | some channelVersion => retained.contains channelVersion

def isRecent (cutoff : Int) (lastModified : Option Int) : Bool :=
  match lastModified with
  | none => true
  | some lastModified => decide (cutoff < lastModified)

def OrphanedValueCollectionResult.skip (result : OrphanedValueCollectionResult)
    (threadId ns : String) : OrphanedValueCollectionResult :=
  { result with skippedNamespaces := result.skippedNamespaces ++ [(threadId, ns)] }

def deleteOrphan (threadId ns : String) (st : OrphanedValueCollectionResult × Bool)
    (blobPath : String) : Call G (OrphanedValueCollectionResult × Bool) := do
  let (result, broken) := st
  if broken then return st
  match ← readLatestCheckpointId threadId ns with
  | none => return (result.skip threadId ns, true)
  | some _ =>
    match ← collectRetainedVersions S threadId ns with
    | none => return (result.skip threadId ns, true)
    | some freshRetained =>
      if isRetained freshRetained (parseValueBlobPath threadId ns blobPath) then return st
      deleteBlobIfThere blobPath
      return ({ result with deleted := result.deleted ++ [blobPath] }, false)

def collectNamespace (threadId : String) (cutoff : Int) (result : OrphanedValueCollectionResult)
    (ns : String) : Call G OrphanedValueCollectionResult := do
  match ← readLatestCheckpointId threadId ns with
  | none => return result.skip threadId ns
  | some _ =>
    match ← collectRetainedVersions S threadId ns with
    | none => return result.skip threadId ns
    | some retained =>
      let valueBlobs ← listValueBlobs threadId ns
      let orphans := valueBlobs.filter fun blob => isOrphan retained blob.2.1
      let nsOrphans := (orphans.filter fun blob => !isRecent cutoff blob.2.2).map (·.1)
      let result :=
        { result with
          skippedRecent := result.skippedRecent ++
            (orphans.filter fun blob => isRecent cutoff blob.2.2).map (·.1)
          wouldDelete := result.wouldDelete ++ nsOrphans }
      if result.dryRun then return result
      return (← nsOrphans.foldlM (deleteOrphan S threadId ns) (result, false)).1

/-- The cutoff is taken to be a time that `datetime` can hold. -/
def collectOrphanedValues (threadId : String) (checkpointNs : Option String) (dryRun : Bool)
    (gracePeriodSeconds : Int) : Call G OrphanedValueCollectionResult := do
  let namespaces ← targetNamespaces threadId checkpointNs
  let now ← perform .utcnow
  namespaces.foldlM (collectNamespace S threadId (now - gracePeriodSeconds))
    ⟨dryRun, [], [], [], []⟩

end LangGraphFunctions.Checkpointers.AzureBlob

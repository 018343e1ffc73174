import LangGraphFunctions.Lib.Transcript
import LangGraphFunctions.Stores.Listing

/-! The table store does what the in-memory store does, call by call. -/

namespace LangGraphFunctions.Stores.AzureTable

open Lib EtagTable Platform

inductive StoreCall
  | create (metadata : Option JsonObject)
  | get (threadId : String)
  | update (threadId : String) (metadata : Option JsonObject) (status : Option ThreadStatus)
      (values : Option JsonObject) (interrupts : Option (Dict Json.Key (List Interrupt)))
      (assistantId : Option String)
  | delete (threadId : String)
  | tryAcquireRunLock (threadId : String) (assistantId : Option String)
  | releaseRunLock (threadId : String) (status : ThreadStatus) (values : Option JsonObject)
      (ownerToken : Option String)
  | renewRunLock (threadId ownerToken : String)
  | search (metadata : Option JsonObject) (status : Option ThreadStatus) (limit offset : Int)
  | count (metadata : Option JsonObject) (status : Option ThreadStatus)

namespace StoreCall

abbrev Result : StoreCall → Type
  | create _ => Thread
  | get _ => Option Thread
  | update .. => Thread
  | delete _ => Unit
  | tryAcquireRunLock .. => Option Thread
  | releaseRunLock .. => Thread
  | renewRunLock .. => Bool
  | search .. => List Thread
  | count .. => Nat

def program (eq : Json.Value → Json.Value → Bool) : (call : StoreCall) → Call call.Result
  | create metadata => AzureTable.create metadata
  | get threadId => AzureTable.get threadId
  | update threadId metadata status values interrupts assistantId =>
    AzureTable.update threadId metadata status values interrupts assistantId
  | delete threadId => AzureTable.delete threadId
  | tryAcquireRunLock threadId assistantId => AzureTable.tryAcquireRunLock threadId assistantId
  | releaseRunLock threadId status values ownerToken =>
    AzureTable.releaseRunLock threadId status (values.map JsonObject.toValue) ownerToken
  | renewRunLock threadId ownerToken => AzureTable.renewRunLock threadId ownerToken
  | search metadata status limit offset => AzureTable.search eq metadata status limit offset
  | count metadata status => AzureTable.count eq metadata status

def serve (eq : Json.Value → Json.Value → Bool) (now : Int) (uuid : String) (threads : Threads) :
    (call : StoreCall) → Except Exn call.Result × Threads
  | create metadata => InMemoryThreadStore.create threads uuid now metadata
  | get threadId => (.ok (InMemoryThreadStore.get threads threadId), threads)
  | update threadId metadata status values interrupts assistantId =>
    InMemoryThreadStore.update threads threadId now metadata status values interrupts assistantId
  | delete threadId => InMemoryThreadStore.delete threads threadId
  | tryAcquireRunLock threadId assistantId =>
    InMemoryThreadStore.tryAcquireRunLock threads threadId assistantId now uuid
  | releaseRunLock threadId status values ownerToken =>
    InMemoryThreadStore.releaseRunLock threads threadId status values ownerToken now
  | renewRunLock threadId ownerToken =>
    (.ok (InMemoryThreadStore.renewRunLock threads threadId ownerToken now).1,
      (InMemoryThreadStore.renewRunLock threads threadId ownerToken now).2)
  | search metadata status limit offset =>
    (InMemoryThreadStore.search eq threads metadata status limit offset, threads)
  | count metadata status => (.ok (InMemoryThreadStore.count eq threads metadata status), threads)

def IsJson : StoreCall → Prop
  | create metadata => ObjectIsJson metadata
  | update _ metadata _ values interrupts _ => ObjectIsJson metadata ∧ ObjectIsJson values ∧
      ∀ is, interrupts = some is → InterruptsAreJson is
  | releaseRunLock _ _ values _ => ObjectIsJson values
  | _ => True

end StoreCall

/-- Each thread has its row, and no other row is there. -/
def Mirrors (threads : Threads) (T : Table) : Prop :=
  ∀ threadId, Option.Rel (fun thread (row : Row) => thread.threadId = threadId ∧
    Records row.entity thread) (threads.get? threadId) (T.row? threadId)

abbrev Answers := Transcript (interface Property)

/-- The row a call is about to write, from what it was answered. -/
inductive Prepares (w : Answers) : StoreCall → Entity → Prop
  | create : Prog.Recorded w .uuid uuid → Prog.Recorded w .now now →
      threadToEntity uuid now now metadata .idle none none ∅ = .ok entity →
      Prepares w (.create metadata) entity
  | update : Prog.Recorded w (.get threadId) (.ok row) → Prog.Recorded w .now now →
      updated row.entity now metadata status values interrupts assistantId = .ok entity →
      Prepares w (.update threadId metadata status values interrupts assistantId) entity
  | tryAcquireRunLock : Prog.Recorded w (.get threadId) (.ok row) → Prog.Recorded w .now now →
      Prog.Recorded w .uuid uuid → entityToThread threadId row.entity = .ok thread →
      Prepares w (.tryAcquireRunLock threadId assistantId)
        (row.entity.update (lockPatch threadId now uuid thread.assistantId assistantId))
  | releaseRunLock : Prog.Recorded w (.get threadId) (.ok row) → Prog.Recorded w .now now →
      released row.entity now status (values.map JsonObject.toValue) = .ok entity →
      Prepares w (.releaseRunLock threadId status values ownerToken) entity

/-- Why the table store raises where the in-memory store returns, or raises something else. -/
inductive Excuse (threads : Threads) (w : Answers) : StoreCall → Exn → Prop
  | capacity : Prepares w call entity → validateEntity entity = .error exc →
      Excuse threads w call exc
  | service : Prog.Recorded w o a → o.failure a = some (.other message) →
      Excuse threads w call (.other message)
  | taken : Prog.Recorded w .uuid uuid → (threads.get? uuid).isSome →
      Excuse threads w (.create metadata) .existsError
  | missing : threads.get? threadId = none →
      Excuse threads w (.renewRunLock threadId ownerToken) .notFoundError

def Gives (now : Int) (uuid : String) : (o : Op Property) × o.Ans → Prop
  | ⟨.now, answer⟩ => answer = now
  | ⟨.uuid, answer⟩ => answer = uuid
  | _ => True

/-- The times and identifiers that were asked for are these. -/
def Drawn (now : Int) (uuid : String) (w : Answers) : Prop := ∀ x ∈ w, Gives now uuid x

/-- One result, or pages of listings that differ only in the order of threads of one time. -/
inductive Matches : (call : StoreCall) → Except Exn call.Result → Except Exn call.Result → Prop
  | same {call : StoreCall} {r : Except Exn call.Result} : Matches call r r
  | pages {metadata : Option JsonObject} {status : Option ThreadStatus} {limit offset : Int}
      {listed listed' : List Thread} : SameButTies listed listed' →
      Matches (.search metadata status limit offset) (.ok (page limit offset listed))
        (.ok (page limit offset listed'))

/-- The call ends as in memory, or it is excused and has changed nothing. -/
inductive Agrees (eq : Json.Value → Json.Value → Bool) (threads : Threads) (call : StoreCall)
    (r : Except Exn call.Result) (T : Table) (w : Answers) : Prop
  | does (now : Int) (uuid : String) (threads' : Threads) (r' : Except Exn call.Result) :
      Drawn now uuid w → call.serve eq now uuid threads = (r', threads') → Matches call r' r →
      Mirrors threads' T → Agrees eq threads call r T w
  | fails (exc : Exn) : r = .error exc → Excuse threads w call exc → Mirrors threads T →
      Agrees eq threads call r T w

variable {eq : Json.Value → Json.Value → Bool} {threads : Threads} {T T' : Table} {me : Nat}
  {threadId : String}

theorem Mirrors.absent (h : Mirrors threads T) (hrow : T.row? threadId = none) :
    threads.get? threadId = none := by
  have hrel := h threadId
  rw [hrow] at hrel
  cases hthread : threads.get? threadId with
  | none => rfl
  | some thread =>
    rw [hthread] at hrel
    cases hrel

theorem Mirrors.present {row : Row} (h : Mirrors threads T) (hrow : T.row? threadId = some row) :
    ∃ thread, threads.get? threadId = some thread ∧ thread.threadId = threadId ∧
      Records row.entity thread := by
  have hrel := h threadId
  rw [hrow] at hrel
  cases hthread : threads.get? threadId with
  | none =>
    rw [hthread] at hrel
    cases hrel
  | some thread =>
    rw [hthread] at hrel
    cases hrel with
    | some hrecord => exact ⟨thread, rfl, hrecord⟩

theorem Mirrors.isSome_row {thread : Thread} (h : Mirrors threads T)
    (hthread : threads.get? threadId = some thread) : ∃ row, T.row? threadId = some row := by
  cases hrow : T.row? threadId with
  | none =>
    rw [h.absent hrow] at hthread
    cases hthread
  | some row => exact ⟨row, rfl⟩

theorem Mirrors.congr (h : Mirrors threads T) (hrows : T'.rows = T.rows) : Mirrors threads T' := by
  intro threadId
  have hrow : T'.row? threadId = T.row? threadId := by rw [Table.row?, Table.row?, hrows]
  rw [hrow]
  exact h threadId

theorem Mirrors.put (h : Mirrors threads T) {thread : Thread} {entity : Entity}
    (hrecord : Records entity thread) (hid : thread.threadId = threadId) :
    Mirrors (threads.set threadId thread) (T.put threadId entity) := by
  intro id
  rw [Dict.get?_set, row?_put]
  split
  · next heq => exact .some ⟨hid.trans heq.symm, hrecord⟩
  · exact h id

theorem Mirrors.erase (h : Mirrors threads T) (threadId : String) :
    Mirrors (threads.erase threadId) { T with rows := T.rows.erase threadId } := by
  intro id
  rw [Dict.get?_erase, row?_erase]
  split
  · exact .none
  · exact h id

theorem mirrors_empty (clock : Int) : Mirrors ∅ ⟨∅, 0, clock, []⟩ := fun _ => .none

section

variable {α : Type} {Q : Except Exn α → Table → Answers → Prop} {w : Answers}

abbrev Alone (me : Nat) (p : Call α) (Q : Except Exn α → Table → Answers → Prop) (T : Table)
    (w : Answers) : Prop :=
  p.Safe (service me).recorded Eq (fun _ _ _ _ => True) (fun r s => Q r s.1 s.2) (T, w)

theorem alone_get {k : Except Failure Row → Call α} (hnone : T.row? threadId = none →
      Alone me (k (.error .notFound)) Q T (w ++ [⟨.get threadId, .error .notFound⟩]))
    (hsome : ∀ row, T.row? threadId = some row →
      Alone me (k (.ok row)) Q T (w ++ [⟨.get threadId, .ok row⟩]))
    (hother : ∀ m, Alone me (k (.error (.other m))) Q T
      (w ++ [⟨.get threadId, .error (.other m)⟩])) :
    Alone me (.call (.get threadId) k) Q T w := by
  rintro _ rfl answer ⟨T', _⟩ ⟨⟨hanswer, hsame⟩, rfl⟩
  have hsame : T' = T := hsame
  subst hsame
  refine ⟨trivial, ?_⟩
  rcases hanswer with rfl | ⟨m, rfl⟩
  · rw [Table.read]
    split
    · next row hrow => exact hsome row hrow
    · next hrow => exact hnone hrow
  · exact hother m

theorem alone_now {k : Int → Call α}
    (h : ∀ now, Alone me (k now) Q { T with clock := now } (w ++ [⟨.now, now⟩])) :
    Alone me (.call .now k) Q T w := by
  rintro _ rfl now ⟨T', _⟩ ⟨⟨-, hmoved⟩, rfl⟩
  have hmoved : T' = { T with clock := now } := hmoved
  subst hmoved
  exact ⟨trivial, h now⟩

theorem alone_uuid {k : String → Call α} (h : ∀ uuid, Alone me (k uuid) Q
      { T with issued := (me, uuid) :: T.issued } (w ++ [⟨.uuid, uuid⟩])) :
    Alone me (.call .uuid k) Q T w := by
  rintro _ rfl uuid ⟨T', _⟩ ⟨⟨-, hissued⟩, rfl⟩
  have hissued : T' = { T with issued := (me, uuid) :: T.issued } := hissued
  subst hissued
  exact ⟨trivial, h uuid⟩

theorem alone_update {k : Except Failure Unit → Call α} {row : Row} {entity : Entity} {mode : Mode}
    (hrow : T.row? threadId = some row)
    (hok : Alone me (k (.ok ())) Q (T.put threadId (mode.written row.entity entity))
      (w ++ [⟨.update threadId entity mode row.etag, .ok ()⟩]))
    (hother : ∀ m, Alone me (k (.error (.other m))) Q T
      (w ++ [⟨.update threadId entity mode row.etag, .error (.other m)⟩])) :
    Alone me (.call (.update threadId entity mode row.etag) k) Q T w := by
  rintro _ rfl answer ⟨T', _⟩ ⟨hstep, rfl⟩
  refine ⟨trivial, ?_⟩
  rcases hstep with hstep | ⟨⟨m, rfl⟩, hsame⟩
  · rw [Table.update, hrow] at hstep
    simp only [if_true] at hstep
    cases hstep
    exact hok
  · have hsame : T' = T := hsame
    subst hsame
    exact hother m

theorem alone_create {k : Except Failure Unit → Call α} {entity : Entity}
    (hnone : T.row? threadId = none → Alone me (k (.ok ())) Q (T.put threadId entity)
      (w ++ [⟨.create threadId entity, .ok ()⟩]))
    (hsome : ∀ row, T.row? threadId = some row → Alone me (k (.error .exists)) Q T
      (w ++ [⟨.create threadId entity, .error .exists⟩]))
    (hother : ∀ m, Alone me (k (.error (.other m))) Q T
      (w ++ [⟨.create threadId entity, .error (.other m)⟩])) :
    Alone me (.call (.create threadId entity) k) Q T w := by
  rintro _ rfl answer ⟨T', _⟩ ⟨hstep, rfl⟩
  refine ⟨trivial, ?_⟩
  rcases hstep with hstep | ⟨⟨m, rfl⟩, hsame⟩
  · rw [Table.create] at hstep
    split at hstep
    · next hrow =>
      cases hstep
      exact hnone hrow
    · next row hrow =>
      cases hstep
      exact hsome row hrow
  · have hsame : T' = T := hsame
    subst hsame
    exact hother m

theorem alone_delete {k : Except Failure Unit → Call α}
    (hnone : T.row? threadId = none →
      Alone me (k (.error .notFound)) Q T (w ++ [⟨.delete threadId, .error .notFound⟩]))
    (hsome : ∀ row, T.row? threadId = some row →
      Alone me (k (.ok ())) Q { T with rows := T.rows.erase threadId }
        (w ++ [⟨.delete threadId, .ok ()⟩]))
    (hother : ∀ m, Alone me (k (.error (.other m))) Q T
      (w ++ [⟨.delete threadId, .error (.other m)⟩])) :
    Alone me (.call (.delete threadId) k) Q T w := by
  rintro _ rfl answer ⟨T', _⟩ ⟨hstep, rfl⟩
  refine ⟨trivial, ?_⟩
  rcases hstep with hstep | ⟨⟨m, rfl⟩, hsame⟩
  · rw [Table.delete] at hstep
    split at hstep
    · next hrow =>
      cases hstep
      exact hnone hrow
    · next row hrow =>
      cases hstep
      exact hsome row hrow
  · have hsame : T' = T := hsame
    subst hsame
    exact hother m

end

theorem Mirrors.agrees {call : StoreCall} {r : Except Exn call.Result} {w : Answers}
    (h : Mirrors threads T) (hdrawn : Drawn 0 "" w)
    (hserve : call.serve eq 0 "" threads = (r, threads)) : Agrees eq threads call r T w :=
  .does 0 "" threads r hdrawn hserve .same h

theorem Mirrors.excused {call : StoreCall} {exc : Exn} {w : Answers} (h : Mirrors threads T)
    (hexcuse : Excuse threads w call exc) : Agrees eq threads call (.error exc) T w :=
  .fails exc rfl hexcuse h

theorem Mirrors.faulted {call : StoreCall} {message : String} {w : Answers} {o : Op Property}
    {a : o.Ans} (h : Mirrors threads T) (hfault : o.failure a = some (.other message)) :
    Agrees eq threads call (.error (.other message)) T (w ++ [⟨o, a⟩]) :=
  h.excused (.service (Prog.recorded_last w o a) hfault)

abbrev Refines (eq : Json.Value → Json.Value → Bool) (me : Nat) (threads : Threads)
    (call : StoreCall) (T : Table) : Prop :=
  Alone me (call.program eq) (Agrees eq threads call) T []

theorem refines_get (h : Mirrors threads T) : Refines eq me threads (.get threadId) T := by
  apply alone_get
  · intro hrow
    exact h.agrees (by simp [Drawn, Gives])
      (by rw [StoreCall.serve, InMemoryThreadStore.get, h.absent hrow])
  · intro row hrow
    obtain ⟨thread, hthread, hid, hrecord⟩ := h.present hrow
    refine Prog.safe_ofExcept_bind (fun thread' hread => ?_) fun exc hexc => ?_
    · rw [hrecord.entityToThread hid] at hread
      cases hread
      exact h.agrees (by simp [Drawn, Gives])
        (by rw [StoreCall.serve, InMemoryThreadStore.get, hthread])
    · rw [hrecord.entityToThread hid] at hexc
      cases hexc
  · exact fun m => h.faulted rfl

theorem refines_delete (h : Mirrors threads T) : Refines eq me threads (.delete threadId) T := by
  apply alone_delete
  · intro hrow
    exact h.agrees (by simp [Drawn, Gives])
      (by rw [StoreCall.serve, InMemoryThreadStore.delete, h.absent hrow])
  · intro row hrow
    obtain ⟨thread, hthread, -⟩ := h.present hrow
    exact .does 0 "" (threads.erase threadId) (.ok ()) (by simp [Drawn, Gives])
      (by rw [StoreCall.serve, InMemoryThreadStore.delete, hthread]) .same (h.erase threadId)
  · exact fun m => h.faulted rfl

theorem threadToEntity_ok (threadId : String) (createdAt updatedAt : Int)
    {metadata : Option JsonObject} (hmetadata : ObjectIsJson metadata) : ∃ entity,
      threadToEntity threadId createdAt updatedAt metadata .idle none none ∅ = .ok entity := by
  have hinterrupts : ∀ v, (some (∅ : Dict Json.Key (List Interrupt))).map interruptsToValue =
      some v → Json.IsJson v.rendered := rendered_of_interruptsAreJson fun is his => by
    cases his
    exact fun p hp => absurd hp List.not_mem_nil
  obtain ⟨e₁, h₁⟩ := writeOptionalJson_ok (Dict.ofList [("PartitionKey", .str partitionKey),
    ("RowKey", .str threadId), ("created_at", .datetime createdAt),
    ("updated_at", .datetime updatedAt), ("status", .str ThreadStatus.idle.text)])
    "interrupts_json" hinterrupts
  obtain ⟨e₂, h₂⟩ := writeOptionalJson_ok e₁ "metadata_json" (rendered_of_objectIsJson hmetadata)
  exact ⟨e₂, bind_eq_ok.mpr ⟨e₁, h₁, bind_eq_ok.mpr ⟨e₂, h₂, rfl⟩⟩⟩

theorem refines_create {metadata : Option JsonObject} (h : Mirrors threads T)
    (hjson : ObjectIsJson metadata) : Refines eq me threads (.create metadata) T := by
  apply alone_uuid
  intro uuid
  apply alone_now
  intro now
  have h : Mirrors threads { T with clock := now, issued := (me, uuid) :: T.issued } := h.congr rfl
  apply Prog.safe_ofExcept_bind
  · intro entity hentity
    apply Prog.safe_ofExcept_bind
    · intro _ hvalid
      have hrecord := records_threadToEntity hentity hvalid hjson (fun x hx => by cases hx)
        fun p hp => absurd hp List.not_mem_nil
      apply alone_create
      · intro hrow
        dsimp only
        rw [hrecord.entityToThread rfl]
        refine .does now uuid _ _ (by simp [Drawn, Gives]) ?_ .same (h.put hrecord rfl)
        rw [StoreCall.serve, InMemoryThreadStore.create, h.absent hrow]
      · intro row hrow
        obtain ⟨thread, hthread, -⟩ := h.present hrow
        have hthere : (threads.get? uuid).isSome := by
          rw [hthread]
          rfl
        exact h.excused (.taken ((((Prog.recorded_last _ _ _).later _).later _)) hthere)
      · exact fun m => h.faulted rfl
    · exact fun exc hexc => h.excused (.capacity
        (.create ((Prog.recorded_last _ _ _).later _) (Prog.recorded_last _ _ _) hentity) hexc)
  · intro exc hexc
    obtain ⟨entity, hentity⟩ := threadToEntity_ok uuid now now hjson
    rw [hentity] at hexc
    cases hexc

theorem updated_ok (entity : Entity) (now : Int) {metadata values : Option JsonObject}
    (status : Option ThreadStatus) {interrupts : Option (Dict Json.Key (List Interrupt))}
    (assistantId : Option String) (hmetadata : ObjectIsJson metadata)
    (hvalues : ObjectIsJson values)
    (hinterrupts : ∀ is, interrupts = some is → InterruptsAreJson is) :
    ∃ entity', updated entity now metadata status values interrupts assistantId = .ok entity' := by
  obtain ⟨e₁, h₁⟩ := writeOptionalJson_ok ((entity.filterKeys fun key =>
    !(key == "etag" || key == "Timestamp")).set "updated_at" (.datetime now)) "metadata_json"
    (rendered_of_objectIsJson hmetadata)
  obtain ⟨e₂, h₂⟩ := writeOptionalJson_ok e₁ "values_json" (rendered_of_objectIsJson hvalues)
  obtain ⟨e₃, h₃⟩ := writeOptionalJson_ok e₂ "interrupts_json"
    (rendered_of_interruptsAreJson hinterrupts)
  exact ⟨_, bind_eq_ok.mpr ⟨e₁, h₁, bind_eq_ok.mpr ⟨e₂, h₂, bind_eq_ok.mpr ⟨e₃, h₃, rfl⟩⟩⟩⟩

theorem refines_update {metadata values : Option JsonObject} {status : Option ThreadStatus}
    {interrupts : Option (Dict Json.Key (List Interrupt))} {assistantId : Option String}
    (h : Mirrors threads T)
    (hjson : (StoreCall.update threadId metadata status values interrupts assistantId).IsJson) :
    Refines eq me threads (.update threadId metadata status values interrupts assistantId) T := by
  obtain ⟨hmetadata, hvalues, hinterrupts⟩ := hjson
  apply alone_get
  · intro hrow
    exact h.agrees (by simp [Drawn, Gives])
      (by rw [StoreCall.serve, InMemoryThreadStore.update, h.absent hrow])
  · intro row hrow
    obtain ⟨thread, hthread, hid, hrecord⟩ := h.present hrow
    apply alone_now
    intro now
    have h : Mirrors threads { T with clock := now } := h.congr rfl
    apply Prog.safe_ofExcept_bind
    · intro entity hentity
      apply Prog.safe_ofExcept_bind
      · intro _ hvalid
        have hupdated := hrecord.updated hentity hvalid hmetadata hvalues hinterrupts
        have hrow' : ({ T with clock := now } : Table).row? threadId = some row := hrow
        apply alone_update hrow'
        · dsimp only
          rw [hupdated.entityToThread hid]
          refine .does now "" _ _ (by simp [Drawn, Gives]) ?_ .same (h.put hupdated hid)
          rw [StoreCall.serve, InMemoryThreadStore.update, hthread]
        · exact fun m => h.faulted rfl
      · exact fun exc hexc => h.excused (.capacity
          (.update ((Prog.recorded_last _ _ _).later _) (Prog.recorded_last _ _ _) hentity) hexc)
    · intro exc hexc
      obtain ⟨entity, hentity⟩ := updated_ok row.entity now status assistantId hmetadata hvalues
        hinterrupts
      rw [hentity] at hexc
      cases hexc
  · exact fun m => h.faulted rfl

theorem isStale_eq {entity : Entity} {thread : Thread} (hrecord : Records entity thread)
    (ownerToken : Option String) :
    isStale entity ownerToken = (ownerToken.isSome && thread.lockToken != ownerToken) := by
  cases ownerToken with
  | none => rfl
  | some token =>
    have hholds : holdsToken entity token = (thread.lockToken == some token) := by
      rw [holdsToken, hrecord.lockToken]
      cases thread.lockToken with
      | none => rfl
      | some held =>
        rw [Bool.eq_iff_iff, beq_iff_eq, beq_iff_eq]
        simp
    rw [isStale, hholds]
    rfl

theorem refines_tryAcquireRunLock {assistantId : Option String} (h : Mirrors threads T) :
    Refines eq me threads (.tryAcquireRunLock threadId assistantId) T := by
  apply alone_get
  · intro hrow
    exact h.agrees (by simp [Drawn, Gives])
      (by rw [StoreCall.serve, InMemoryThreadStore.tryAcquireRunLock, h.absent hrow])
  · intro row hrow
    obtain ⟨thread, hthread, hid, hrecord⟩ := h.present hrow
    have hlocked (now : Int) (uuid : String)
        (hfree : boundElsewhere thread.assistantId assistantId = false) :
        InMemoryThreadStore.tryAcquireRunLock threads threadId assistantId now uuid =
          InMemoryThreadStore.tryAcquireRunLock.locked threads threadId assistantId now uuid
            thread := by
      rw [InMemoryThreadStore.tryAcquireRunLock, hthread]
      dsimp only
      split
      · next bound asked hbound =>
        rw [hbound] at hfree
        rw [if_neg (by rw [show (bound != asked) = false from hfree]; exact Bool.false_ne_true)]
      · rfl
    refine Prog.safe_ofExcept_bind (fun thread' hread => ?_) fun exc hexc => ?_
    · rw [hrecord.entityToThread hid] at hread
      cases hread
      split
      · next hbound =>
        refine h.agrees (by simp [Drawn, Gives]) ?_
        rw [StoreCall.serve, InMemoryThreadStore.tryAcquireRunLock, hthread]
        cases hassistant : thread.assistantId with
        | none =>
          rw [hassistant] at hbound
          cases hbound
        | some bound =>
          cases assistantId with
          | none =>
            rw [hassistant] at hbound
            cases hbound
          | some asked =>
            rw [hassistant] at hbound
            have hne : (bound != asked) = true := hbound
            simp only [hassistant, if_pos hne]
            rfl
      · next hbound =>
        have hfree : boundElsewhere thread.assistantId assistantId = false :=
          Bool.eq_false_iff.mpr hbound
        split
        · next hbusy =>
          refine h.agrees (by simp [Drawn, Gives]) ?_
          rw [StoreCall.serve, hlocked 0 "" hfree, InMemoryThreadStore.tryAcquireRunLock.locked,
            if_pos hbusy]
        · next hidle =>
          apply alone_now
          intro now
          apply alone_uuid
          intro uuid
          have h : Mirrors threads { T with clock := now, issued := (me, uuid) :: T.issued } :=
            h.congr rfl
          refine Prog.safe_ofExcept_bind (fun _ _ => ?_) fun exc hexc => h.excused (.capacity
            (.tryAcquireRunLock (((Prog.recorded_last _ _ _).later _).later _)
              ((Prog.recorded_last _ _ _).later _) (Prog.recorded_last _ _ _)
              (hrecord.entityToThread hid)) hexc)
          have hrow' : ({ T with clock := now, issued := (me, uuid) :: T.issued } : Table).row?
            threadId = some row := hrow
          apply alone_update hrow'
          · refine .does now uuid _ _ (by simp [Drawn, Gives]) ?_ .same (h.put hrecord.locked hid)
            rw [StoreCall.serve, hlocked now uuid hfree,
              InMemoryThreadStore.tryAcquireRunLock.locked, if_neg hidle]
            have hassistant : (thread.assistantId <|> assistantId) =
                thread.assistantId.or assistantId := by
              cases thread.assistantId <;> rfl
            rw [hassistant]
            rfl
          · exact fun m => h.faulted rfl
    · rw [hrecord.entityToThread hid] at hexc
      cases hexc
  · exact fun m => h.faulted rfl

theorem refines_releaseRunLock {status : ThreadStatus} {values : Option JsonObject}
    {ownerToken : Option String} (h : Mirrors threads T) (hjson : ObjectIsJson values) :
    Refines eq me threads (.releaseRunLock threadId status values ownerToken) T := by
  rw [Refines, StoreCall.program, releaseRunLock]
  split
  · next hbusy =>
    exact h.agrees (by simp [Drawn, Gives])
      (by rw [StoreCall.serve, InMemoryThreadStore.releaseRunLock, if_pos hbusy])
  · next hbusy =>
    apply alone_get
    · intro hrow
      exact h.agrees (by simp [Drawn, Gives]) (by
        rw [StoreCall.serve, InMemoryThreadStore.releaseRunLock, if_neg hbusy, h.absent hrow])
    · intro row hrow
      obtain ⟨thread, hthread, hid, hrecord⟩ := h.present hrow
      change Alone me (if isStale row.entity ownerToken then _ else _) _ T _
      rw [isStale_eq hrecord]
      split
      · next hstale =>
        rw [hrecord.entityToThread hid]
        refine h.agrees (by simp [Drawn, Gives]) ?_
        rw [StoreCall.serve, InMemoryThreadStore.releaseRunLock, if_neg hbusy, hthread]
        dsimp only
        rw [if_pos hstale]
      · next hstale =>
        apply alone_now
        intro now
        have h : Mirrors threads { T with clock := now } := h.congr rfl
        refine Prog.safe_ofExcept_bind (fun entity hentity => ?_) fun exc hexc => ?_
        · refine Prog.safe_ofExcept_bind (fun _ hvalid => ?_) fun exc hexc => h.excused (.capacity
            (.releaseRunLock ((Prog.recorded_last _ _ _).later _) (Prog.recorded_last _ _ _)
              hentity) hexc)
          have hreleased := hrecord.released hentity hvalid hjson
          have hrow' : ({ T with clock := now } : Table).row? threadId = some row := hrow
          apply alone_update hrow'
          · dsimp only
            rw [hreleased.entityToThread hid]
            refine .does now "" _ _ (by simp [Drawn, Gives]) ?_ .same (h.put hreleased hid)
            rw [StoreCall.serve, InMemoryThreadStore.releaseRunLock, if_neg hbusy, hthread]
            dsimp only
            rw [if_neg hstale]
          · exact fun m => h.faulted rfl
        · obtain ⟨entity, hentity⟩ := writeOptionalJson_ok (((row.entity.filterKeys fun key =>
            !(key == "lock_token" || key == "lock_expires_at" || key == "etag" ||
              key == "Timestamp")).set "status" (.str status.text)).set "updated_at"
            (.datetime now)) "values_json" (rendered_of_objectIsJson hjson)
          have hentity : released row.entity now status (values.map JsonObject.toValue) =
            .ok entity := hentity
          rw [hentity] at hexc
          cases hexc
    · exact fun m => h.faulted rfl

theorem refines_renewRunLock {ownerToken : String} (h : Mirrors threads T) :
    Refines eq me threads (.renewRunLock threadId ownerToken) T := by
  apply alone_get
  · intro hrow
    exact h.excused (.missing (h.absent hrow))
  · intro row hrow
    obtain ⟨thread, hthread, hid, hrecord⟩ := h.present hrow
    have hstale := isStale_eq hrecord (some ownerToken)
    rw [isStale, Option.isSome_some, Bool.true_and] at hstale
    change Alone me (if holdsToken row.entity ownerToken then _ else _) _ T _
    split
    · next hholds =>
      rw [hholds] at hstale
      apply alone_now
      intro now
      have h : Mirrors threads { T with clock := now } := h.congr rfl
      have hrow' : ({ T with clock := now } : Table).row? threadId = some row := hrow
      apply alone_update hrow'
      · refine .does now "" _ _ (by simp [Drawn, Gives]) ?_ .same (h.put hrecord.renewed hid)
        rw [StoreCall.serve, InMemoryThreadStore.renewRunLock, hthread]
        dsimp only
        rw [← hstale]
        rfl
      · exact fun m => h.faulted rfl
    · next hholds =>
      rw [Bool.eq_false_iff.mpr hholds] at hstale
      refine h.agrees (by simp [Drawn, Gives]) ?_
      rw [StoreCall.serve, InMemoryThreadStore.renewRunLock, hthread]
      dsimp only
      rw [← hstale]
      rfl
  · exact fun m => h.faulted rfl

end LangGraphFunctions.Stores.AzureTable

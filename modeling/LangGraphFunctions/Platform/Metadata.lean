import LangGraphFunctions.Lib.Pool
import LangGraphFunctions.Platform.Threads

/-! What concurrent requests leave of the metadata of a thread. -/

namespace LangGraphFunctions.Platform

open Lib

variable {ι : Type} {α β : Type}

def Api.Always (φ : Api.Op → Prop) : Prog Api.interface Exn α → Prop
  | .ret _ => True
  | .raise _ => True
  | .call o k => φ o ∧ ∀ a, Api.Always φ (k a)

namespace Api

variable {φ ψ : Op → Prop} {p : Api α}

theorem always_bind {f : α → Api β} (h : Always φ p) (hf : ∀ a, Always φ (f a)) :
    Always φ (p.bind f) := by
  induction p with
  | ret a => exact hf a
  | raise e => trivial
  | call o k ih => exact ⟨h.1, fun a => ih a (h.2 a)⟩

theorem always_attempt (h : Always φ p) : Always φ p.attempt := by
  induction p with
  | ret a => trivial
  | raise e => trivial
  | call o k ih => exact ⟨h.1, fun a => ih a (h.2 a)⟩

theorem always_perform {o : Op} (h : φ o) : Always φ (perform o) := ⟨h, fun _ => trivial⟩

theorem always_ofExcept (r : Except Exn α) : Always φ (Prog.ofExcept r : Api α) := by
  cases r <;> trivial

theorem always_call {o : Op} {f : o.Ans → Except Exn α} (h : φ o) :
    Always φ ((perform o).bind fun a => .ofExcept (f a)) :=
  always_bind (always_perform h) fun a => always_ofExcept (f a)

theorem always_prepareRun {threadId graphName lockToken storeLockToken : String} {thread : Thread}
    {run : RunCreate} (hstart : φ (.startStoreRenewal threadId storeLockToken))
    (hguard : φ (.guardRunConfig graphName threadId lockToken))
    (hupdate : ∀ metadata, φ (.updateMetadata threadId metadata)) :
    Always φ (prepareRun threadId graphName lockToken storeLockToken thread run) := by
  refine always_bind (always_call hstart) fun _ => always_bind (always_call hguard) fun _ => ?_
  cases run.metadata with
  | none => trivial
  | some metadata =>
    dsimp only
    split
    · trivial
    · exact always_bind (always_call (hupdate _)) fun _ => trivial

end Api

inductive Request
  | patch (threadId : String) (body : Except Api.Response (Option JsonObject))
  | run (endpoint : RunEndpoint) (threadId : String) (body : Except Api.Response RunCreate)
      (resolve : RunCreate → Except Api.Response String)
  | renewal (threadId ownerToken : String)

namespace Request

def program : Request → Api (Option Api.Response)
  | patch threadId body => some <$> threadsUpdate threadId body
  | run endpoint threadId body resolve => some <$> runs endpoint threadId body resolve
  | renewal threadId ownerToken => do
    let _ ← (Api.perform (.renewRunLock threadId ownerToken)).bind .ofExcept
    return none

def threadId : Request → String
  | patch threadId _ => threadId
  | run _ threadId _ _ => threadId
  | renewal threadId _ => threadId

def metadata : Request → JsonObject
  | patch _ (.ok (some metadata)) => metadata
  | run _ _ (.ok create) _ => create.metadata.getD ∅
  | _ => ∅

def Allowed (request : Request) (thread : Option Thread) : Api.Op → Prop
  | .get _ => False
  | .updateMetadata threadId metadata => threadId = request.threadId ∧
      ∃ t, thread = some t ∧ metadata = merged t request.metadata
  | _ => True

def ReadsOnce (request : Request) (p : Api (Option Api.Response)) : Prop :=
  (∀ thread, Api.Always (request.Allowed thread) p) ∨
    ∃ k, p = .call (.get request.threadId) k ∧
      (∀ exc thread, Api.Always (request.Allowed thread) (k (.error exc))) ∧
      ∀ thread, Api.Always (request.Allowed thread) (k (.ok thread))

variable {request : Request} {thread : Option Thread}

theorem always_releaseThreadRunLock (threadId graphName lockToken : String) (status : ThreadStatus)
    (values : Option JsonObject) (storeOwnerToken : String) :
    Api.Always (request.Allowed thread)
      (releaseThreadRunLock threadId graphName lockToken status values storeOwnerToken) := by
  refine ⟨trivial, fun failure => ⟨trivial, fun released => ⟨trivial, fun answer => ?_⟩⟩⟩
  cases answer <;> trivial

theorem always_prepareRun {t : Thread} {run : RunCreate} (graphName lockToken storeLockToken : String)
    (hmetadata : request.metadata = run.metadata.getD ∅) :
    Api.Always (request.Allowed (some t))
      (prepareRun request.threadId graphName lockToken storeLockToken t run) := by
  refine Api.always_bind (Api.always_call trivial) fun _ =>
    Api.always_bind (Api.always_call trivial) fun _ => ?_
  cases hrun : run.metadata with
  | none => trivial
  | some metadata =>
    dsimp only
    split
    · trivial
    · refine Api.always_bind (Api.always_call ⟨rfl, t, rfl, ?_⟩) fun _ => trivial
      rw [hmetadata, hrun]
      rfl

theorem always_runLocked {t : Thread} {run : RunCreate} (endpoint : RunEndpoint)
    (graphName lockToken storeLockToken : String)
    (hmetadata : request.metadata = run.metadata.getD ∅) :
    Api.Always (request.Allowed (some t))
      (runLocked endpoint request.threadId graphName lockToken storeLockToken t run) := by
  have hprepare := always_prepareRun (t := t) graphName lockToken storeLockToken hmetadata
  cases endpoint with
  | wait =>
    refine Api.always_bind (Api.always_attempt (Api.always_bind hprepare fun _ =>
      Api.always_call trivial)) fun outcome => ?_
    cases outcome with
    | error exc =>
      exact Api.always_bind (always_releaseThreadRunLock ..) fun _ => trivial
    | ok output =>
      refine Api.always_bind (always_releaseThreadRunLock ..) fun failure => ?_
      cases failure <;> trivial
  | stream =>
    refine Api.always_bind (Api.always_attempt hprepare) fun prepared => ?_
    have hfailed : Api.Always (request.Allowed (some t)) (streamLocked.failed request.threadId
        graphName lockToken storeLockToken run) :=
      Api.always_bind (always_releaseThreadRunLock ..) fun _ => trivial
    cases prepared with
    | error exc => exact hfailed
    | ok =>
      refine ⟨trivial, fun answer => ?_⟩
      obtain ⟨chunks, ended⟩ := answer
      cases ended with
      | ok finished =>
        change Api.Always _ (Prog.bind (releaseThreadRunLock ..) _)
        refine Api.always_bind (always_releaseThreadRunLock ..) fun failure => ?_
        cases failure <;> trivial
      | error exc =>
        change Api.Always _ (if chunks.isEmpty then _ else _)
        split
        · exact hfailed
        · refine Api.always_bind (always_releaseThreadRunLock ..) fun failure => ?_
          cases failure <;> trivial

theorem always_lockedRun {t : Thread} {run : RunCreate} (endpoint : RunEndpoint)
    (graphName lockToken : String) (hmetadata : request.metadata = run.metadata.getD ∅) :
    Api.Always (request.Allowed (some t))
      (lockedRun endpoint request.threadId graphName lockToken t run) := by
  have hrelease {f : Unit → Api Api.Response} (hf : Api.Always (request.Allowed (some t)) (f ())) :
      Api.Always (request.Allowed (some t))
        (Prog.bind (Api.release graphName request.threadId lockToken) f) :=
    Api.always_bind (Api.always_call trivial) fun _ => hf
  refine ⟨trivial, fun locked => ?_⟩
  cases locked with
  | error exc =>
    refine hrelease ?_
    split
    · trivial
    split
    · exact Api.always_bind (Api.always_ofExcept _) fun _ => trivial
    · trivial
  | ok locked =>
    cases locked with
    | none => exact hrelease trivial
    | some locked => exact always_runLocked endpoint _ _ _ hmetadata

theorem always_foundRun {t : Thread} {run : RunCreate} (endpoint : RunEndpoint)
    (resolve : RunCreate → Except Api.Response String)
    (hmetadata : request.metadata = run.metadata.getD ∅) :
    Api.Always (request.Allowed (some t))
      (foundRun endpoint request.threadId t run resolve) := by
  rw [foundRun]
  split
  · trivial
  · refine Api.always_bind (Api.always_call trivial) fun lockToken => ?_
    cases lockToken with
    | none => trivial
    | some lockToken => exact always_lockedRun endpoint _ _ hmetadata

theorem readsOnce_program (request : Request) : request.ReadsOnce request.program := by
  cases request with
  | patch threadId body =>
    cases body with
    | error response => exact .inl fun _ => trivial
    | ok metadata =>
      refine .inr ⟨_, rfl, fun _ _ => trivial, fun thread => ?_⟩
      cases thread with
      | none => trivial
      | some t =>
        cases metadata with
        | none => trivial
        | some metadata =>
          refine ⟨⟨rfl, t, rfl, rfl⟩, fun answer => ?_⟩
          cases answer with
          | ok updated => trivial
          | error exc =>
            change Api.Always _ (Prog.bind (if exc.isKeyError then _ else _) _)
            split <;> trivial
  | run endpoint threadId body resolve =>
    cases body with
    | error response => exact .inl fun _ => trivial
    | ok run =>
      refine .inr ⟨_, rfl, fun _ _ => trivial, fun thread => ?_⟩
      cases thread with
      | none => trivial
      | some t =>
        change Api.Always _ (Prog.bind (foundRun endpoint threadId t run resolve) _)
        have hfound := @always_foundRun (.run endpoint threadId (.ok run) resolve) t run endpoint
          resolve rfl
        exact Api.always_bind hfound fun _ => trivial
  | renewal threadId ownerToken =>
    exact .inl fun _ => Api.always_bind (Api.always_call trivial) fun _ => trivial

end Request

def metadataOf (threads : Threads) (threadId : String) : JsonObject :=
  ((threads.get? threadId).bind Thread.metadata).getD ∅

def Thread.annotate (thread : Thread) (now : Int) (metadata : JsonObject) : Thread :=
  { thread with updatedAt := now, metadata := some metadata }

/-- What a store with atomic operations makes of its threads; an operation that raises changes
nothing of their metadata. -/
def Atomic : (o : Api.Op) → Threads → o.Ans → Threads → Prop
  | .get threadId, s, answer, s' =>
    s' = s ∧ ∀ thread, answer = .ok thread → thread = s.get? threadId
  | .updateMetadata threadId metadata, s, answer, s' =>
    (∃ exc, answer = .error exc ∧ s' = s) ∨ ∃ thread now, s.get? threadId = some thread ∧
      answer = .ok (thread.annotate now metadata) ∧
        s' = s.set threadId (thread.annotate now metadata)
  | _, s, _, s' => ∀ threadId, metadataOf s' threadId = metadataOf s threadId

/-- The threads, and what each request has read. -/
structure Board (ι : Type) where
  threads : Threads
  read : ι → Option Thread

abbrev ApiEvent (ι : Type) :=
  Pool.Event Api.interface Exn (Option Api.Response) (Board ι) ι Request

def Updates (threadId : String) (request : Request) : ApiEvent ι → Prop
  | .op _ r (.updateMetadata id _) _ (.ok _) _ => id = threadId ∧ r = request
  | _ => False

def Fresh : ApiEvent ι → Prop
  | .op i request (.updateMetadata threadId _) s (.ok _) _ =>
    ∀ key, request.metadata.get? key = none →
      (((s.read i).bind Thread.metadata).getD ∅).get? key = (metadataOf s.threads threadId).get? key
  | _ => True

def Apart (requests : ι → Request) : Prop :=
  ∀ i j, i ≠ j → (requests i).threadId = (requests j).threadId → ∀ key,
    (requests i).metadata.get? key = none ∨ (requests j).metadata.get? key = none

structure Kept (s₀ : Threads) (t : List (ApiEvent ι)) (s : Threads) (threadId : String) : Prop where
  before : ∀ key, (metadataOf s₀ threadId).contains key → (metadataOf s threadId).contains key
  supplied : ∀ e ∈ t, ∀ request, Updates threadId request e → ∀ key value,
    request.metadata.get? key = some value → (metadataOf s threadId).get? key = some value

variable {requests : ι → Request} {i : ι} {o : Api.Op} {answer : o.Ans} {s s₀ s' : Threads}
  {t : List (ApiEvent ι)} {threadId : String} {e : ApiEvent ι}

theorem metadataOf_set_self (s : Threads) (threadId : String) (thread : Thread) :
    metadataOf (s.set threadId thread) threadId = thread.metadata.getD ∅ := by
  rw [metadataOf, Dict.get?_set_self]
  rfl

theorem metadataOf_set_ne (s : Threads) {threadId threadId' : String} (thread : Thread)
    (h : threadId' ≠ threadId) : metadataOf (s.set threadId thread) threadId' =
      metadataOf s threadId' := by
  rw [metadataOf, Dict.get?_set_ne _ _ h, metadataOf]

theorem Kept.quiet (h : Kept s₀ t s threadId) (hs : metadataOf s' threadId = metadataOf s threadId)
    (he : ∀ request, ¬Updates threadId request e) : Kept s₀ (t ++ [e]) s' threadId := by
  refine ⟨fun key hkey => hs ▸ h.before key hkey, fun e' he' request hrequest key value hvalue => ?_⟩
  cases List.mem_append.mp he' with
  | inl hmem => exact hs ▸ h.supplied e' hmem request hrequest key value hvalue
  | inr hmem =>
    cases List.mem_singleton.mp hmem
    exact absurd hrequest (he request)

theorem Kept.update {own snapshot : JsonObject} {thread : Thread} {now : Int}
    (h : Kept s₀ t s threadId)
    (hfresh : ∀ key, own.get? key = none →
      snapshot.get? key = (metadataOf s threadId).get? key)
    (hown : ∀ request, Updates threadId request e → request.metadata = own)
    (hapart : ∀ e' ∈ t, ∀ request, Updates threadId request e' → request.metadata = own ∨
      ∀ key, own.get? key = none ∨ request.metadata.get? key = none) :
    Kept s₀ (t ++ [e]) (s.set threadId (thread.annotate now (snapshot.update own))) threadId := by
  have hget (key : Json.Key) :
      (metadataOf (s.set threadId (thread.annotate now (snapshot.update own))) threadId).get? key =
        (own.get? key).or ((metadataOf s threadId).get? key) := by
    rw [metadataOf_set_self]
    change (snapshot.update own).get? key = _
    rw [Dict.get?_update]
    cases hkey : own.get? key with
    | none => exact hfresh key hkey
    | some value => rfl
  constructor
  · intro key hkey
    have hbefore := h.before key hkey
    rw [Dict.contains] at hbefore ⊢
    rw [hget, Option.isSome_or, hbefore, Bool.or_true]
  · intro e' he' request hrequest key value hvalue
    rw [hget]
    cases List.mem_append.mp he' with
    | inr hmem =>
      cases List.mem_singleton.mp hmem
      rw [← hown request hrequest, hvalue]
      rfl
    | inl hmem =>
      have hstored := h.supplied e' hmem request hrequest key value hvalue
      cases hapart e' hmem request hrequest with
      | inl heq =>
        rw [← heq, hvalue]
        rfl
      | inr hnone =>
        cases hnone key with
        | inl hown => rw [hown, Option.none_or, hstored]
        | inr hother => cases hother.symm.trans hvalue

def Stage (request : Request) (thread : Option Thread) (p : Api (Option Api.Response)) : Prop :=
  Api.Always (request.Allowed thread) p ∨ request.ReadsOnce p

structure Recorded (requests : ι → Request) (s₀ : Threads) (t : List (ApiEvent ι))
    (P : Pool Api.interface Exn (Option Api.Response) (Board ι) ι Request) : Prop where
  clients : ∀ i request p, P.clients i = some (request, p) → request = requests i ∧
    Stage request (P.store.read i) p
  updates : ∀ e ∈ t, ∀ threadId request, Updates threadId request e →
    request = requests e.client ∧ request.threadId = threadId
  kept : ∀ threadId, Kept s₀ t P.store.threads threadId

theorem Recorded.quiet {P P' : Pool Api.interface Exn (Option Api.Response) (Board ι) ι Request}
    (h : Recorded requests s₀ t P) (hclients : ∀ i request p,
      P'.clients i = some (request, p) → request = requests i ∧ Stage request (P'.store.read i) p)
    (hs : ∀ threadId, metadataOf P'.store.threads threadId = metadataOf P.store.threads threadId)
    (he : ∀ threadId request, ¬Updates threadId request e) : Recorded requests s₀ (t ++ [e]) P' := by
  refine ⟨hclients, fun e' he' threadId request hrequest => ?_, fun threadId =>
    (h.kept threadId).quiet (hs threadId) (he threadId)⟩
  cases List.mem_append.mp he' with
  | inl hmem => exact h.updates e' hmem threadId request hrequest
  | inr hmem =>
    cases List.mem_singleton.mp hmem
    exact absurd hrequest (he threadId request)

variable [DecidableEq ι]

def noted (i : ι) (read : ι → Option Thread) : (o : Api.Op) → o.Ans → ι → Option Thread
  | .get _, .ok thread => Function.update read i thread
  | .get _, .error _ => Function.update read i none
  | _, _ => read

def board (i : ι) : Prog.Service Api.interface (Board ι) where
  step o s answer s' := Atomic o s.threads answer s'.threads ∧ s'.read = noted i s.read o answer

abbrev ApiRuns (requests : ι → Request) :=
  Pool.Runs (fun i (_ : Request) => board i) Request.program fun i request _ => request = requests i

theorem Stage.op {request : Request} {read : ι → Option Thread}
    {k : o.Ans → Api (Option Api.Response)} (h : Stage request (read i) (.call o k))
    (answer : o.Ans) : Stage request (noted i read o answer i) (k answer) ∧
      ∀ id metadata, o = .updateMetadata id metadata → request.Allowed (read i) o := by
  have halways (hp : Api.Always (request.Allowed (read i)) (.call o k)) :
      Stage request (noted i read o answer i) (k answer) ∧
        ∀ id metadata, o = .updateMetadata id metadata → request.Allowed (read i) o := by
    refine ⟨.inl ?_, fun _ _ _ => hp.1⟩
    cases o with
    | get => exact absurd hp.1 id
    | _ => exact hp.2 answer
  cases h with
  | inl hp => exact halways hp
  | inr hp =>
    cases hp with
    | inl hp => exact halways (hp _)
    | inr hp =>
      obtain ⟨k', heq, herror, hok⟩ := hp
      cases heq
      refine ⟨.inl ?_, fun _ _ h => (by cases h)⟩
      cases answer with
      | error exc => exact herror exc _
      | ok thread =>
        change Api.Always (request.Allowed (Function.update read i thread i)) _
        rw [Function.update_self]
        exact hok thread

theorem noted_ne {read : ι → Option Thread} {j : ι} (h : j ≠ i) :
    noted i read o answer j = read j := by
  cases o with
  | get => cases answer <;> exact Function.update_of_ne h _ _
  | _ => rfl

theorem Recorded.update {P P' : Pool Api.interface Exn (Option Api.Response) (Board ι) ι Request}
    {s : Board ι} {metadata : JsonObject} {updated thread : Thread} {now : Int}
    (h : Recorded requests s₀ t P) (hapart : Apart requests) (hclients : ∀ i request p,
      P'.clients i = some (request, p) → request = requests i ∧ Stage request (P'.store.read i) p)
    (hallowed : (requests i).Allowed (P.store.read i) (.updateMetadata threadId metadata))
    (hfresh : Fresh (.op i (requests i) (.updateMetadata threadId metadata) P.store (.ok updated) s))
    (hs : P'.store.threads = P.store.threads.set threadId (thread.annotate now metadata)) :
    Recorded requests s₀ (t ++ [.op i (requests i) (.updateMetadata threadId metadata) P.store
      (.ok updated) s]) P' := by
  obtain ⟨rfl, snapshot, hread, rfl⟩ := hallowed
  refine ⟨hclients, fun e' he' threadId' request hrequest => ?_, fun threadId' => ?_⟩
  · cases List.mem_append.mp he' with
    | inl hmem => exact h.updates e' hmem threadId' request hrequest
    | inr hmem =>
      cases List.mem_singleton.mp hmem
      obtain ⟨rfl, rfl⟩ := hrequest
      exact ⟨rfl, rfl⟩
  · rw [hs]
    by_cases hthread : threadId' = (requests i).threadId
    · subst hthread
      refine (h.kept _).update (fun key hkey => ?_) ?_ fun e' he' request hrequest => ?_
      · have hkey := hfresh key hkey
        rwa [hread] at hkey
      · rintro request ⟨-, rfl⟩
        rfl
      · obtain ⟨rfl, hsame⟩ := h.updates e' he' _ request hrequest
        by_cases hclient : e'.client = i
        · exact .inl (by rw [hclient])
        · exact .inr fun key => (hapart i e'.client (Ne.symm hclient) hsame.symm key)
    · refine (h.kept threadId').quiet (metadataOf_set_ne _ _ hthread) ?_
      rintro request ⟨heq, -⟩
      exact hthread heq.symm

theorem recorded_step {P P' : Pool Api.interface Exn (Option Api.Response) (Board ι) ι Request}
    (hapart : Apart requests) (h : Recorded requests s₀ t P)
    (hstep : Pool.Step (fun i (_ : Request) => board i) Request.program
      (fun i request _ => request = requests i) P e P') (hfresh : Fresh e) :
    Recorded requests s₀ (t ++ [e]) P' := by
  cases hstep with
  | @start i request hnone hstart =>
    refine h.quiet (fun j request' p hj => ?_) (fun _ => rfl) fun _ _ => id
    cases Pool.clients_become hj with
    | inl hsame =>
      obtain ⟨rfl, ⟨⟩⟩ := hsame
      exact ⟨hstart, .inr (request.readsOnce_program)⟩
    | inr hother => exact h.clients j request' p hother.2
  | leave hcall =>
    refine h.quiet (fun j request' p hj => ?_) (fun _ => rfl) fun _ _ => id
    cases Pool.clients_become hj with
    | inl hsame => cases hsame.2
    | inr hother => exact h.clients j request' p hother.2
  | @op i request o k answer s' hcall hs =>
    obtain ⟨rfl, hstage⟩ := h.clients i _ _ hcall
    obtain ⟨hatomic, hread⟩ := hs
    obtain ⟨hnext, hallowed⟩ := hstage.op answer
    have hclients (j : ι) (request' : Request) (p : Api (Option Api.Response))
        (hj : (P.become i (some (requests i, k answer)) s').clients j = some (request', p)) :
        request' = requests j ∧ Stage request' (s'.read j) p := by
      rw [hread]
      cases Pool.clients_become hj with
      | inl hsame =>
        obtain ⟨rfl, ⟨⟩⟩ := hsame
        exact ⟨rfl, hnext⟩
      | inr hother =>
        rw [noted_ne hother.1]
        exact h.clients j request' p hother.2
    cases o with
    | updateMetadata threadId metadata =>
      cases hatomic with
      | inl hfailed =>
        obtain ⟨exc, rfl, hsame⟩ := hfailed
        exact h.quiet hclients (fun _ => congrArg (metadataOf · _) hsame) fun _ _ => id
      | inr hdone =>
        obtain ⟨thread, now, -, rfl, hset⟩ := hdone
        exact h.update hapart hclients (hallowed threadId metadata rfl) hfresh hset
    | get _ =>
      exact h.quiet hclients (fun _ => congrArg (metadataOf · _) hatomic.1) fun _ _ => id
    | _ => exact h.quiet hclients hatomic fun _ _ => id

/-- The operations of the store on its dictionary; the others answer as `other` says. -/
def InMemoryThreadStore.serve (now : Int) (token : String) (other : (o : Api.Op) → o.Ans)
    (o : Api.Op) (threads : Threads) : o.Ans × Threads :=
  match o with
  | .get threadId => (.ok (get threads threadId), threads)
  | .updateMetadata threadId metadata =>
    update threads threadId now (some metadata) none none none none
  | .tryAcquireRunLock threadId assistantId =>
    tryAcquireRunLock threads threadId (some assistantId) now token
  | .releaseRunLock threadId status values ownerToken =>
    releaseRunLock threads threadId status values (some ownerToken) now
  | .renewRunLock threadId ownerToken =>
    ((.ok (renewRunLock threads threadId ownerToken now).1),
      (renewRunLock threads threadId ownerToken now).2)
  | o => (other o, threads)

theorem metadataOf_set_same {thread : Thread} (thread' : Thread) (h : s.get? threadId = some thread)
    (hmetadata : thread'.metadata = thread.metadata) (threadId' : String) :
    metadataOf (s.set threadId thread') threadId' = metadataOf s threadId' := by
  by_cases heq : threadId' = threadId
  · subst heq
    rw [metadataOf_set_self, hmetadata, metadataOf, h]
    rfl
  · exact metadataOf_set_ne _ _ heq

theorem InMemoryThreadStore.atomic_serve (now : Int) (token : String)
    (other : (o : Api.Op) → o.Ans) (o : Api.Op) (threads : Threads) :
    Atomic o threads (serve now token other o threads).1 (serve now token other o threads).2 := by
  cases o with
  | get threadId =>
    refine ⟨rfl, fun thread h => ?_⟩
    cases h
    rfl
  | updateMetadata threadId metadata =>
    change Atomic (.updateMetadata threadId metadata) threads (update threads threadId now (some metadata) none none none none).1
      (update threads threadId now (some metadata) none none none none).2
    rw [update]
    split
    · exact .inl ⟨_, rfl, rfl⟩
    · next existing hexisting => exact .inr ⟨existing, now, hexisting, rfl, rfl⟩
  | tryAcquireRunLock threadId assistantId =>
    intro threadId'
    change metadataOf (tryAcquireRunLock threads threadId (some assistantId) now token).2 _ = _
    rw [tryAcquireRunLock]
    split
    · rfl
    · next existing hexisting =>
      have hlocked : metadataOf (tryAcquireRunLock.locked threads threadId (some assistantId) now
          token existing).2 threadId' = metadataOf threads threadId' := by
        rw [tryAcquireRunLock.locked]
        split
        · rfl
        · refine metadataOf_set_same _ hexisting ?_ threadId'
          rfl
      split
      · split
        · rfl
        · exact hlocked
      · exact hlocked
  | releaseRunLock threadId status values ownerToken =>
    intro threadId'
    change metadataOf (releaseRunLock threads threadId status values (some ownerToken) now).2 _ = _
    rw [releaseRunLock]
    split
    · rfl
    split
    · rfl
    · next existing hexisting =>
      split
      · rfl
      · refine metadataOf_set_same _ hexisting ?_ threadId'
        rfl
  | renewRunLock threadId ownerToken =>
    intro threadId'
    change metadataOf (renewRunLock threads threadId ownerToken now).2 _ = _
    rw [renewRunLock]
    split
    · rfl
    · next existing hexisting =>
      split
      · rfl
      · refine metadataOf_set_same _ hexisting ?_ threadId'
        rfl
  | _ => exact fun _ => rfl

/-- Where no request writes over what it has not read, no update is lost. -/
theorem metadata_kept (hapart : Apart requests) {start : Board ι}
    {P : Pool Api.interface Exn (Option Api.Response) (Board ι) ι Request}
    (h : ApiRuns requests (Pool.idle start) t P) (hfresh : ∀ e ∈ t, Fresh e) (threadId : String) :
    Kept start.threads t P.store.threads threadId := by
  have hrecorded : Recorded requests start.threads [] (Pool.idle start) :=
    ⟨fun _ _ _ h => (by cases h), fun _ h => (by cases h), fun _ =>
      ⟨fun _ => id, fun _ h => (by cases h)⟩⟩
  exact (h.record (J := Recorded requests start.threads) (recorded_step hapart) hfresh
    hrecorded).kept threadId

def bareThread : Thread := ⟨"t", 0, 0, none, .idle, none, none, ∅, none, none⟩

def bareBoard : Board Bool := ⟨Dict.ofList [("t", bareThread)], fun _ => none⟩

def pair (key : String) : JsonObject := Dict.ofList [(.str key, .int 1)]

def patches (i : Bool) : Request := .patch "t" (.ok (some (pair (if i then "a" else "b"))))

theorem apart_patches : Apart patches := by
  intro i j hne _ key
  have hpair (k : String) (h : key ≠ .str k) : (pair k).get? key = none :=
    Dict.get?_ofList_of_not_mem (by simpa using h)
  cases i with
  | true =>
    cases j with
    | true => exact absurd rfl hne
    | false =>
      by_cases hkey : key = .str "a"
      · exact .inr (hpair "b" (by rw [hkey]; decide))
      · exact .inl (hpair "a" hkey)
  | false =>
    cases j with
    | false => exact absurd rfl hne
    | true =>
      by_cases hkey : key = .str "b"
      · exact .inr (hpair "a" (by rw [hkey]; decide))
      · exact .inl (hpair "b" hkey)

def idleAnswer : (o : Api.Op) → o.Ans
  | .get _ => .ok none
  | .updateMetadata .. => .error .notFoundError
  | .tryAcquireRunLock .. => .ok none
  | .releaseRunLock .. => .error .notFoundError
  | .renewRunLock .. => .ok true
  | .acquire .. => .ok none
  | .release .. => .ok ()
  | .startStoreRenewal .. => .ok ()
  | .stopStoreRenewal _ => none
  | .guardRunConfig .. => .ok ()
  | .invoke => .ok ∅
  | .stream => ([], .ok true)

theorem board_serve (i : Bool) (o : Api.Op) (s : Board Bool) :
    (board i).step o s (InMemoryThreadStore.serve 0 "k" idleAnswer o s.threads).1
      ⟨(InMemoryThreadStore.serve 0 "k" idleAnswer o s.threads).2,
        noted i s.read o (InMemoryThreadStore.serve 0 "k" idleAnswer o s.threads).1⟩ :=
  ⟨InMemoryThreadStore.atomic_serve .., rfl⟩

theorem runs_patches : ∃ t P, ApiRuns patches (Pool.idle bareBoard) t P ∧
    (∀ e ∈ t, e.Finished) ∧ (∀ i, P.clients i = none) ∧
      (metadataOf P.store.threads "t").get? (.str "a") = none ∧
        ∃ e ∈ t, Updates "t" (patches true) e := by
  refine ⟨_, _, .cons (.start (i := true) rfl rfl) <| .cons (.start (i := false) rfl rfl) <|
    .cons (.op (i := true) rfl (board_serve true _ _)) <|
    .cons (.op (i := false) rfl (board_serve false _ _)) <|
    .cons (.op (i := true) rfl (board_serve true _ _)) <|
    .cons (.op (i := false) rfl (board_serve false _ _)) <|
    .cons (.leave (i := true) rfl) <| .cons (.leave (i := false) rfl) .nil, ?_, ?_, rfl, ?_⟩
  · simp only [List.forall_mem_cons]
    exact ⟨trivial, trivial, trivial, trivial, trivial, trivial, rfl, rfl, List.forall_mem_nil _⟩
  · intro i
    cases i <;> rfl
  · exact ⟨_, .tail _ (.tail _ (.tail _ (.tail _ (.head _)))), rfl, rfl⟩

/-- The second of two requests that read before either writes takes the keys of the first away. -/
theorem metadata_lost : ¬∀ (requests : Bool → Request) (start : Board Bool)
    (t : List (ApiEvent Bool)) (P : Pool Api.interface Exn (Option Api.Response) (Board Bool) Bool
      Request), Apart requests → ApiRuns requests (Pool.idle start) t P →
    (∀ e ∈ t, e.Finished) → (∀ i, P.clients i = none) →
      ∀ threadId, Kept start.threads t P.store.threads threadId := by
  intro h
  obtain ⟨t, P, hruns, hfinished, hidle, hlost, e, he, hupdates⟩ := runs_patches
  have hkept := h patches bareBoard t P apart_patches hruns hfinished hidle "t"
  have hpair := hkept.supplied e he _ hupdates (.str "a") (.int 1) rfl
  cases hlost.symm.trans hpair

theorem metadata_kept_patches : ∃ t P, ApiRuns patches (Pool.idle bareBoard) t P ∧
    Kept bareBoard.threads t P.store.threads "t" ∧ ∃ e ∈ t, Updates "t" (patches true) e := by
  obtain ⟨t, P, hruns, hfresh, hupdates⟩ : ∃ t P, ApiRuns patches (Pool.idle bareBoard) t P ∧
      (∀ e ∈ t, Fresh e) ∧ ∃ e ∈ t, Updates "t" (patches true) e := by
    refine ⟨_, _, .cons (.start (i := true) rfl rfl) <| .cons (.start (i := false) rfl rfl) <|
      .cons (.op (i := true) rfl (board_serve true _ _)) <|
      .cons (.op (i := true) rfl (board_serve true _ _)) <|
      .cons (.op (i := false) rfl (board_serve false _ _)) <|
      .cons (.op (i := false) rfl (board_serve false _ _)) .nil, ?_, ?_⟩
    · simp only [List.forall_mem_cons]
      exact ⟨trivial, trivial, trivial, fun _ _ => rfl, trivial, fun _ _ => rfl,
        List.forall_mem_nil _⟩
    · exact ⟨_, .tail _ (.tail _ (.tail _ (.head _))), rfl, rfl⟩
  exact ⟨t, P, hruns, metadata_kept apart_patches hruns hfresh "t", hupdates⟩

end LangGraphFunctions.Platform

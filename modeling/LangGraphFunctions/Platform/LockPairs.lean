import LangGraphFunctions.Lib.Transcript
import LangGraphFunctions.Platform.LockAccounts

/-! The lock of a thread, from where a request takes it to where it gives it back. -/

namespace LangGraphFunctions.Platform.LockPairs

open Lib RunLocks

inductive LockMark
  | acquired (graphName threadId token : String)
  | refused (error : Option Exn)
  | taken (threadId : String) (lockToken : Option String)
  | renewing (ownerToken : String)
  | graph
  | stopped (ownerToken : String)
  | freed (threadId ownerToken : String)
  | released (graphName threadId token : String)

def apiMark : (o : Api.Op) × o.Ans → List LockMark
  | ⟨.acquire graphName threadId, .ok (some token)⟩ => [.acquired graphName threadId token]
  | ⟨.tryAcquireRunLock .., .error exc⟩ => [.refused (some exc)]
  | ⟨.tryAcquireRunLock .., .ok none⟩ => [.refused none]
  | ⟨.tryAcquireRunLock threadId _, .ok (some locked)⟩ => [.taken threadId locked.lockToken]
  | ⟨.startStoreRenewal _ ownerToken, _⟩ => [.renewing ownerToken]
  | ⟨.invoke, _⟩ => [.graph]
  | ⟨.stream, _⟩ => [.graph]
  | ⟨.stopStoreRenewal ownerToken, _⟩ => [.stopped ownerToken]
  | ⟨.releaseRunLock threadId _ _ ownerToken, _⟩ => [.freed threadId ownerToken]
  | ⟨.release graphName threadId token, _⟩ => [.released graphName threadId token]
  | _ => []

def lockMark : (o : Routes.Op) × o.Ans → List LockMark
  | ⟨.api o, answer⟩ => apiMark ⟨o, answer⟩
  | ⟨.updateState .., _⟩ => [.graph]
  | _ => []

/-- The token that a request goes by in the row: the token of the row, or of the thread's lock. -/
def ownerOf (lockToken : String) : Option String → String
  | some token => if token = "" then lockToken else token
  | none => lockToken

inductive Work (ownerToken : String) : Call → List LockMark → Prop
  | unreached {request : Request} :
      Work ownerToken (.platform request) [.renewing ownerToken, .stopped ownerToken]
  | run {request : Request} :
      Work ownerToken (.platform request) [.renewing ownerToken, .graph, .stopped ownerToken]
  | unguarded {call : Call} : call.Updates → Work ownerToken call []
  | update {call : Call} : call.Updates → Work ownerToken call [.graph]

/-- What a request has done when it is over. -/
inductive Paired (call : Call) : Except Exn Routes.Response → List LockMark → Prop
  | unlocked {r : Except Exn Routes.Response} : Paired call r []
  | refused {r : Except Exn Routes.Response} {graphName threadId token : String}
      (error : Option Exn) : call.threadId = some threadId → Paired call r
        [.acquired graphName threadId token, .refused error, .released graphName threadId token]
  | served {r : Except Exn Routes.Response} {graphName threadId token : String}
      {lockToken : Option String} {work : List LockMark} : call.threadId = some threadId →
      Work (ownerOf token lockToken) call work → Paired call r
        (.acquired graphName threadId token :: .taken threadId lockToken ::
          (work ++ [.freed threadId (ownerOf token lockToken), .released graphName threadId token]))
  | leaked {exc : Exn} {graphName threadId token : String} : call.threadId = some threadId →
      call.Updates → exc.isKeyError = false → exc.isValueError = false → Paired call (.error exc)
        [.acquired graphName threadId token, .refused (some exc)]

variable {α β : Type}

abbrev ApiPairs (p : Api α) (S : Except Exn α → List LockMark → Prop) : Prop :=
  Prog.Writes (I := Api.interface) (fun _ _ => True) apiMark p S

abbrev Pairs (p : Routes α) (S : Except Exn α → List LockMark → Prop) : Prop :=
  Prog.Writes (I := Routes.interface) (fun _ _ => True) lockMark p S

theorem pairs_ofApi {p : Api α} {S : Except Exn α → List LockMark → Prop} (h : ApiPairs p S) :
    Pairs (Routes.ofApi p) S := by
  induction p generalizing S with
  | ret a => exact h
  | raise e => exact h
  | call o k ih => exact fun a ha => ih a (h a ha)

theorem apiPairs_bind {p : Api α} {f : α → Api β} {S : Except Exn α → List LockMark → Prop}
    {T : Except Exn β → List LockMark → Prop} (hp : ApiPairs p S)
    (hok : ∀ a u, S (.ok a) u → ApiPairs (f a) fun r v => T r (u ++ v))
    (herror : ∀ e u, S (.error e) u → T (.error e) u) : ApiPairs (p >>= f) T :=
  Prog.writes_bind hp hok herror

theorem pairs_bind {p : Routes α} {f : α → Routes β} {S : Except Exn α → List LockMark → Prop}
    {T : Except Exn β → List LockMark → Prop} (hp : Pairs p S)
    (hok : ∀ a u, S (.ok a) u → Pairs (f a) fun r v => T r (u ++ v))
    (herror : ∀ e u, S (.error e) u → T (.error e) u) : Pairs (p >>= f) T :=
  Prog.writes_bind hp hok herror

theorem writes_answer {I : Interface} {mark : (o : I.Op) × I.Ans o → List LockMark}
    {p : Prog I Exn (Except Exn α)} {u : List LockMark}
    (h : p.Writes (fun _ _ => True) mark fun r v => v = u ∧ ∃ a, r = .ok a) :
    (p.bind .ofExcept).Writes (fun _ _ => True) mark fun _ v => v = u := by
  apply Prog.writes_bind h
  · rintro a v ⟨rfl, -⟩
    apply Prog.writes_ofExcept
    rw [List.append_nil]
  · rintro e v ⟨-, a, ha⟩
    cases ha

theorem apiPairs_map {p : Api α} {P : List LockMark → Prop} (f : α → β)
    (h : ApiPairs p fun _ u => P u) : ApiPairs (f <$> p) fun _ u => P u := by
  rw [map_eq_pure_bind]
  apply apiPairs_bind h
  · intro a u hu
    change P (u ++ [])
    rwa [List.append_nil]
  · exact fun e u hu => hu

variable {threadId graphName lockToken ownerToken : String} {status : ThreadStatus}
  {values : Option JsonObject} {thread : Thread} {run : RunCreate}

def ending (threadId graphName lockToken ownerToken : String) : List LockMark :=
  [.stopped ownerToken, .freed threadId ownerToken, .released graphName threadId lockToken]

theorem ownerOf_eq (lockToken : String) (token : Option String) :
    (if ownerOf lockToken token = "" then lockToken else ownerOf lockToken token) =
      ownerOf lockToken token := by
  cases token with
  | none => exact ite_self lockToken
  | some token =>
    rw [ownerOf]
    split
    · exact ite_self lockToken
    · rfl

theorem apiPairs_releaseThreadRunLock
    (howner : (if ownerToken = "" then lockToken else ownerToken) = ownerToken) :
    ApiPairs (releaseThreadRunLock threadId graphName lockToken status values ownerToken)
      fun r u => u = ending threadId graphName lockToken ownerToken ∧
        ∃ failure, r = .ok failure := by
  intro failure _ released _ answer _
  rw [ending]
  cases answer with
  | ok _ => exact ⟨by simp only [apiMark, howner]; rfl, _, rfl⟩
  | error exc => exact ⟨by simp only [apiMark, howner]; rfl, _, rfl⟩

theorem apiPairs_prepareRun :
    ApiPairs (prepareRun threadId graphName lockToken ownerToken thread run)
      fun _ u => u = [.renewing ownerToken] := by
  have hstart : ApiPairs ((Api.perform (.startStoreRenewal threadId ownerToken)).bind .ofExcept)
      fun _ u => u = [.renewing ownerToken] := writes_answer fun a _ => ⟨rfl, a, rfl⟩
  have hguard : ApiPairs ((Api.perform (.guardRunConfig graphName threadId lockToken)).bind
      .ofExcept) fun _ u => u = [] := writes_answer fun a _ => ⟨rfl, a, rfl⟩
  apply apiPairs_bind hstart ?_ fun e u hu => hu
  rintro _ u rfl
  apply apiPairs_bind hguard ?_ fun e u hu => by rw [hu, List.append_nil]
  rintro _ u rfl
  cases run.metadata with
  | none => rfl
  | some metadata =>
    change ApiPairs (if _ then _ else _) _
    split
    · rfl
    · have hupdate : ApiPairs (Api.update threadId (merged thread metadata)) fun _ u => u = [] :=
        writes_answer fun a _ => ⟨rfl, a, rfl⟩
      apply apiPairs_bind hupdate ?_ fun e u hu => by rw [hu]; rfl
      rintro _ u rfl
      rfl

def Reached (ownerToken : String) (u : List LockMark) : Prop :=
  u = [.renewing ownerToken] ∨ u = [.renewing ownerToken, .graph]

def Ended (threadId graphName lockToken ownerToken : String) (u : List LockMark) : Prop :=
  ∃ v, Reached ownerToken v ∧ u = v ++ ending threadId graphName lockToken ownerToken

theorem apiPairs_end {f : Option Exn → Api α} {v : List LockMark} (hv : Reached ownerToken v)
    (howner : (if ownerToken = "" then lockToken else ownerToken) = ownerToken)
    (hf : ∀ failure, ApiPairs (f failure) fun _ u => u = []) :
    ApiPairs (releaseThreadRunLock threadId graphName lockToken status values ownerToken >>= f)
      fun _ u => Ended threadId graphName lockToken ownerToken (v ++ u) := by
  apply apiPairs_bind (apiPairs_releaseThreadRunLock howner)
  · rintro failure u ⟨rfl, -⟩
    apply Prog.Writes.mono (hf failure)
    rintro _ u rfl
    exact ⟨v, hv, by rw [List.append_nil]⟩
  · rintro e u ⟨-, failure, h⟩
    cases h

theorem apiPairs_waitLocked
    (howner : (if ownerToken = "" then lockToken else ownerToken) = ownerToken) :
    ApiPairs (waitLocked threadId graphName lockToken ownerToken thread run)
      fun _ u => Ended threadId graphName lockToken ownerToken u := by
  have hinvoke : ApiPairs ((Api.perform .invoke).bind .ofExcept) fun _ u => u = [.graph] :=
    writes_answer fun a _ => ⟨rfl, a, rfl⟩
  have htry : ApiPairs (do
      prepareRun threadId graphName lockToken ownerToken thread run
      (Api.perform .invoke).bind .ofExcept : Api JsonObject) fun _ u => Reached ownerToken u := by
    apply apiPairs_bind apiPairs_prepareRun ?_ fun e u hu => .inl hu
    rintro _ u rfl
    apply Prog.Writes.mono hinvoke
    rintro r v rfl
    exact .inr rfl
  have hattempt := Prog.writes_attempt (T := fun r u => Reached ownerToken u ∧ ∃ a, r = .ok a)
    htry fun r u hu => ⟨hu, r, rfl⟩
  apply apiPairs_bind hattempt
  · rintro outcome u ⟨hu, -⟩
    cases outcome with
    | error exc => exact apiPairs_end hu howner fun _ => rfl
    | ok output =>
      apply apiPairs_end hu howner
      intro failure
      cases failure <;> rfl
  · rintro e u ⟨-, a, ha⟩
    cases ha

theorem apiPairs_streamLocked
    (howner : (if ownerToken = "" then lockToken else ownerToken) = ownerToken) :
    ApiPairs (streamLocked threadId graphName lockToken ownerToken thread run)
      fun _ u => Ended threadId graphName lockToken ownerToken u := by
  have hprepare : ApiPairs (prepareRun threadId graphName lockToken ownerToken thread run)
      fun _ u => u = [.renewing ownerToken] := apiPairs_prepareRun
  have hattempt := Prog.writes_attempt
    (T := fun r u => u = [LockMark.renewing ownerToken] ∧ ∃ a, r = .ok a) hprepare
    fun r u hu => ⟨hu, r, rfl⟩
  apply apiPairs_bind hattempt
  · rintro prepared u ⟨rfl, -⟩
    cases prepared with
    | error exc => exact apiPairs_end (.inl rfl) howner fun _ => rfl
    | ok _ =>
      rintro ⟨chunks, streamed⟩ _
      have hreached : Reached ownerToken ([LockMark.renewing ownerToken] ++ [.graph]) := .inr rfl
      cases streamed with
      | ok finished =>
        apply apiPairs_end hreached howner
        intro failure
        cases failure <;> rfl
      | error exc =>
        change ApiPairs (if _ then _ else _) _
        split
        · exact apiPairs_end hreached howner fun _ => rfl
        · apply apiPairs_end hreached howner
          intro failure
          cases failure <;> rfl
  · rintro e u ⟨-, a, ha⟩
    cases ha

theorem Ended.paired {call : Call} {request : Request} {token : Option String} {u : List LockMark}
    (h : Ended threadId graphName lockToken (ownerOf lockToken token) u)
    (hcall : call = .platform request) (hthread : call.threadId = some threadId)
    (r : Except Exn Routes.Response) :
    Paired call r (.acquired graphName threadId lockToken :: .taken threadId token :: u) := by
  obtain ⟨v, rfl | rfl, rfl⟩ := h
  · subst hcall
    exact .served hthread .unreached
  · subst hcall
    exact .served hthread .run

def RunPaired (threadId graphName lockToken : String) (u : List LockMark) : Prop :=
  (∃ error, u = [.refused error, .released graphName threadId lockToken]) ∨
    ∃ token v, Ended threadId graphName lockToken (ownerOf lockToken token) v ∧
      u = .taken threadId token :: v

theorem apiPairs_lockedRun {endpoint : RunEndpoint} :
    ApiPairs (lockedRun endpoint threadId graphName lockToken thread run)
      fun _ u => RunPaired threadId graphName lockToken u := by
  intro answer _
  cases answer with
  | error exc =>
    intro answer _
    cases answer with
    | error exc' => exact .inl ⟨_, rfl⟩
    | ok _ =>
      change ApiPairs (if _ then _ else if _ then _ else _) _
      split
      · exact .inl ⟨_, rfl⟩
      · split
        · cases exc.str with
          | error exc' => exact .inl ⟨_, rfl⟩
          | ok detail => exact .inl ⟨_, rfl⟩
        · exact .inl ⟨_, rfl⟩
  | ok locked =>
    cases locked with
    | none =>
      intro answer _
      cases answer <;> exact .inl ⟨_, rfl⟩
    | some locked =>
      have hrun : ApiPairs (runLocked endpoint threadId graphName lockToken
          (ownerOf lockToken locked.lockToken) thread run)
          fun _ u => Ended threadId graphName lockToken (ownerOf lockToken locked.lockToken) u := by
        cases endpoint with
        | wait => exact apiPairs_waitLocked (ownerOf_eq lockToken locked.lockToken)
        | stream => exact apiPairs_streamLocked (ownerOf_eq lockToken locked.lockToken)
      apply Prog.Writes.mono hrun
      exact fun r u hu => .inr ⟨locked.lockToken, u, hu, rfl⟩

theorem Paired.of_run {call : Call} {request : Request} {u : List LockMark}
    (h : RunPaired threadId graphName lockToken u) (hcall : call = .platform request)
    (hthread : call.threadId = some threadId) (r : Except Exn Routes.Response) :
    Paired call r (.acquired graphName threadId lockToken :: u) := by
  rcases h with ⟨error, rfl⟩ | ⟨token, v, hended, rfl⟩
  · exact .refused error hthread
  · exact hended.paired hcall hthread r

theorem apiPairs_runs {endpoint : RunEndpoint} {body : Except Api.Response RunCreate}
    {resolve : RunCreate → Except Api.Response String} :
    ApiPairs (runs endpoint threadId body resolve) fun _ u => u = [] ∨
      ∃ graphName lockToken v, RunPaired threadId graphName lockToken v ∧
        u = .acquired graphName threadId lockToken :: v := by
  cases body with
  | error response => exact .inl rfl
  | ok run =>
    intro answer _
    cases answer with
    | error exc => exact .inl rfl
    | ok thread =>
      cases thread with
      | none => exact .inl rfl
      | some thread =>
        change ApiPairs (foundRun endpoint threadId thread run resolve) _
        rw [foundRun]
        cases resolve run with
        | error response => exact .inl rfl
        | ok graphName =>
          intro answer _
          cases answer with
          | error exc => exact .inl rfl
          | ok token =>
            cases token with
            | none => exact .inl rfl
            | some token =>
              apply Prog.Writes.mono apiPairs_lockedRun
              exact fun r u hu => .inr ⟨graphName, token, u, hu, rfl⟩

theorem apiPairs_request (request : Request) : ApiPairs request.program fun _ u => u = [] ∨
    ∃ graphName lockToken v, RunPaired request.threadId graphName lockToken v ∧
      u = .acquired graphName request.threadId lockToken :: v := by
  cases request with
  | patch threadId body =>
    have hpatch : ApiPairs (threadsUpdate threadId body) fun _ u => u = [] := by
      cases body with
      | error response => rfl
      | ok metadata =>
        intro answer _
        cases answer with
        | error exc => rfl
        | ok thread =>
          cases thread with
          | none => rfl
          | some thread =>
            cases metadata with
            | none => rfl
            | some metadata =>
              intro answer _
              cases answer with
              | ok updated => rfl
              | error exc =>
                change ApiPairs (if _ then _ else _) _
                split <;> rfl
    exact (apiPairs_map some hpatch).mono fun r u hu => .inl hu
  | run endpoint threadId body resolve => exact apiPairs_map some apiPairs_runs
  | renewal threadId ownerToken =>
    intro answer _
    cases answer <;> exact .inl rfl

theorem pairs_releaseThreadStateLock
    (howner : (if ownerToken = "" then lockToken else ownerToken) = ownerToken) :
    Pairs (releaseThreadStateLock threadId graphName lockToken status ownerToken) fun r u =>
      u = [.freed threadId ownerToken, .released graphName threadId lockToken] ∧
        ∃ failure, r = .ok failure := by
  intro released _ answer _
  cases answer with
  | ok _ => exact ⟨by simp only [lockMark, apiMark, howner]; rfl, _, rfl⟩
  | error exc => exact ⟨by simp only [lockMark, apiMark, howner]; rfl, _, rfl⟩

variable {call : Call} {config : JsonObject} {update : ThreadStateUpdate}

theorem pairs_updateLocked {token : Option String} (hupdates : call.Updates)
    (hthread : call.threadId = some threadId) :
    Pairs (updateLocked threadId graphName lockToken (ownerOf lockToken token) status config update)
      fun r u =>
        Paired call r (.acquired graphName threadId lockToken :: .taken threadId token :: u) := by
  have hserved {u : List LockMark} (hu : u = [] ∨ u = [.graph]) (r : Except Exn Routes.Response) :
      Paired call r (.acquired graphName threadId lockToken :: .taken threadId token :: (u ++
        [.freed threadId (ownerOf lockToken token), .released graphName threadId lockToken])) := by
    rcases hu with rfl | rfl
    · exact .served hthread (.unguarded hupdates)
    · exact .served hthread (.update hupdates)
  have hguard : Pairs ((Routes.perform (.api (.guardRunConfig graphName threadId lockToken))).bind
      .ofExcept) fun _ u => u = [] := writes_answer fun a _ => ⟨rfl, a, rfl⟩
  have hupdate : Pairs ((Routes.perform (.updateState config update.values update.asNode)).bind
      .ofExcept) fun _ u => u = [.graph] := writes_answer fun a _ => ⟨rfl, a, rfl⟩
  have htry : Pairs (do
      (Routes.perform (.api (.guardRunConfig graphName threadId lockToken))).bind .ofExcept
      (Routes.perform (.updateState config update.values update.asNode)).bind .ofExcept :
        Routes Json.Value) fun _ u => u = [] ∨ u = [.graph] := by
    apply pairs_bind hguard ?_ fun e u hu => .inl hu
    rintro _ u rfl
    exact Prog.Writes.mono hupdate fun r u hu => .inr hu
  have hrelease (status : ThreadStatus) :
      Pairs (releaseThreadStateLock threadId graphName lockToken status (ownerOf lockToken token))
        fun r u => u = [.freed threadId (ownerOf lockToken token),
          .released graphName threadId lockToken] ∧ ∃ failure, r = .ok failure :=
    pairs_releaseThreadStateLock (ownerOf_eq lockToken token)
  have hattempt := Prog.writes_attempt
    (T := fun r u => (u = [] ∨ u = [LockMark.graph]) ∧ ∃ a, r = .ok a) htry
    fun r u hu => ⟨hu, r, rfl⟩
  apply pairs_bind hattempt
  · rintro outcome u ⟨hu, -⟩
    cases outcome with
    | error exc =>
      apply pairs_bind (hrelease .error)
      · rintro failure v ⟨rfl, -⟩
        change Pairs (if _ then _ else _) _
        split
        · cases exc.str with
          | error exc' => exact hserved hu _
          | ok text => exact hserved hu _
        · exact hserved hu _
      · rintro e v ⟨-, failure, h⟩
        cases h
    | ok result =>
      apply pairs_bind (hrelease status)
      · rintro failure v ⟨rfl, -⟩
        cases failure with
        | some exc => exact hserved hu _
        | none =>
          cases stateCheckpoint threadId result with
          | error exc => exact hserved hu _
          | ok checkpoint => exact hserved hu _
      · rintro e v ⟨-, failure, h⟩
        cases h
  · rintro e u ⟨-, a, ha⟩
    cases ha

theorem pairs_lockedUpdate (hupdates : call.Updates) (hthread : call.threadId = some threadId) :
    Pairs (lockedUpdate threadId graphName lockToken status config update)
      fun r u => Paired call r (.acquired graphName threadId lockToken :: u) := by
  intro answer _
  cases answer with
  | error exc =>
    change Pairs (if _ then _ else if _ then _ else _) _
    split
    · intro answer _
      cases answer <;> exact .refused _ hthread
    · next hkey =>
      split
      · intro answer _
        cases answer with
        | error exc' => exact .refused _ hthread
        | ok _ =>
          change Pairs (Prog.ofExcept exc.str >>= _) _
          cases exc.str <;> exact .refused _ hthread
      · next hvalue =>
        exact .leaked hthread hupdates (Bool.eq_false_iff.mpr hkey) (Bool.eq_false_iff.mpr hvalue)
  | ok locked =>
    cases locked with
    | none =>
      intro answer _
      cases answer <;> exact .refused _ hthread
    | some locked => exact pairs_updateLocked hupdates hthread

theorem pairs_get_bind {f : Option Thread → Routes α} {S : Except Exn α → List LockMark → Prop}
    (hok : ∀ thread, Pairs (f thread) S) (herror : ∀ e, S (.error e) []) :
    Pairs (Routes.get threadId >>= f) S := by
  intro answer _
  cases answer with
  | error exc => exact herror exc
  | ok thread => exact hok thread

theorem pairs_readUpdate (hupdates : call.Updates) (hthread : call.threadId = some threadId) :
    Pairs (readUpdate threadId config update) fun r u => Paired call r u := by
  apply pairs_get_bind ?_ fun e => .unlocked
  intro thread
  cases thread with
  | none => exact .unlocked
  | some thread =>
    dsimp only
    split
    · exact .unlocked
    · intro answer _
      cases answer with
      | error exc => exact .unlocked
      | ok token =>
        cases token with
        | none => exact .unlocked
        | some token => exact pairs_lockedUpdate hupdates hthread

theorem pairs_threadsStateUpdate {eq : Json.Value → Json.Value → Bool}
    {body : Except Routes.Response ThreadStateUpdate}
    {resolve : Thread → Except Routes.Response Unit}
    (hupdates : call.Updates) (hthread : call.threadId = some threadId) :
    Pairs (threadsStateUpdate eq threadId body resolve) fun r u => Paired call r u := by
  cases body with
  | error response => exact .unlocked
  | ok update =>
    apply pairs_get_bind ?_ fun e => .unlocked
    intro thread
    cases thread with
    | none => exact .unlocked
    | some thread =>
      dsimp only
      split
      · exact .unlocked
      · split
        · exact .unlocked
        · exact pairs_readUpdate hupdates hthread

theorem pairs_program (call : Call) : Pairs call.program fun r u => Paired call r u := by
  cases call with
  | platform request =>
    apply pairs_bind (pairs_ofApi (apiPairs_request request))
    · rintro response u (rfl | ⟨graphName, lockToken, v, hrun, rfl⟩)
      · exact .unlocked
      · have hpaired := @Paired.of_run _ _ _ (.platform request) request v hrun rfl rfl
          (.ok ((response.map .api).getD .renewed))
        change Paired _ _ (_ :: v ++ [])
        rwa [List.append_nil]
    · rintro exc u (rfl | ⟨graphName, lockToken, v, hrun, rfl⟩)
      · exact .unlocked
      · exact Paired.of_run hrun rfl rfl (.error exc)
  | stateUpdate eq threadId body resolve => exact pairs_threadsStateUpdate trivial rfl
  | create body =>
    cases body with
    | error response => exact .unlocked
    | ok metadata =>
      intro answer _
      cases answer <;> exact .unlocked
  | delete threadId =>
    intro answer _
    cases answer with
    | ok _ => exact .unlocked
    | error exc =>
      change Pairs (if _ then _ else _) _
      split <;> exact .unlocked

/-- Whatever is answered or raised: a request that takes the lock of its thread gives it back once,
under its token, after it has given back its run lock or was refused one; only a state update whose
run lock raises neither a `KeyError` nor a `ValueError` keeps the lock. -/
theorem locks_paired {call : Call} {w : Transcript Routes.interface}
    {r : Except Exn Routes.Response} (h : call.program.Plays (fun _ _ => True) w (.ofExcept r)) :
    Paired call r (w.flatMap lockMark) := h.writes (pairs_program call)

def boundThread : Thread where
  threadId := "t"
  createdAt := 0
  updatedAt := 0
  metadata := none
  status := .idle
  values := none
  assistantId := some "g"
  interrupts := ∅
  lockToken := none
  lockExpiresAt := none

def failing : (o : Routes.Op) → Option o.Ans
  | .api (.get _) => some (.ok (some boundThread))
  | .api (.acquire ..) => some (.ok (some "k"))
  | .api (.tryAcquireRunLock ..) => some (.error (.runtimeError "the service is down"))
  | .api (.release ..) => some (.ok ())
  | _ => none

def someUpdate : Call :=
  .stateUpdate (fun _ _ => true) "t" (.ok ⟨.dict [], none, none, none⟩) fun _ => .ok ()

theorem locks_paired_failing : Paired someUpdate (.error (.runtimeError "the service is down"))
    [.acquired "g" "t" "k", .refused (some (.runtimeError "the service is down"))] := by
  have hplays : ∃ w : Transcript Routes.interface,
      someUpdate.program.Plays (fun _ _ => True) w
        (.ofExcept (.error (.runtimeError "the service is down"))) ∧
      w.flatMap lockMark = [.acquired "g" "t" "k",
        .refused (some (.runtimeError "the service is down"))] :=
    ⟨_, Prog.plays_answered (f := failing) (fun _ _ _ => trivial) rfl, rfl⟩
  obtain ⟨w, hw, hmarks⟩ := hplays
  rw [← hmarks]
  exact locks_paired hw

end LangGraphFunctions.Platform.LockPairs

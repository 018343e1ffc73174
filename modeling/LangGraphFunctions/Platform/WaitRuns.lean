import LangGraphFunctions.Lib.Traces
import LangGraphFunctions.Platform.LockPairs
import LangGraphFunctions.Stores.RunLock

/-! `runs_wait` on the table store, with what it tells its observer. -/

namespace LangGraphFunctions.Platform.WaitRuns

open Lib EtagTable Stores AzureTable LockPairs

inductive RunEvent
  | rejected
  | started
  | completed
  | failed
  deriving DecidableEq

inductive Op
  | table (o : EtagTable.Op Property)
  | server (o : Api.Op)
  | observe (event : RunEvent)

abbrev Op.Ans : Op → Type
  | .table o => o.Ans
  | .server o => o.Ans
  | .observe _ => Unit

abbrev interface : Interface := ⟨Op, Op.Ans⟩

abbrev Wait := Prog interface Exn

variable {α β : Type}

namespace Wait

def perform (o : Op) : Wait o.Ans := Prog.perform (I := interface) o

def observe (event : RunEvent) : Wait Unit := perform (.observe event)

def ofStore (p : AzureTable.Call α) : Wait α := p.interpret fun o => perform (.table o)

def ofOp : (o : Api.Op) → Wait o.Ans
  | .get threadId => (ofStore (AzureTable.get threadId)).attempt
  | .updateMetadata threadId metadata =>
    (ofStore (AzureTable.update threadId (some metadata) none none none none)).attempt
  | .tryAcquireRunLock threadId assistantId =>
    (ofStore (AzureTable.tryAcquireRunLock threadId (some assistantId))).attempt
  | .releaseRunLock threadId status values ownerToken => (ofStore (AzureTable.releaseRunLock
      threadId status (values.map JsonObject.toValue) (some ownerToken))).attempt
  | .renewRunLock threadId ownerToken =>
    (ofStore (AzureTable.renewRunLock threadId ownerToken)).attempt
  | o => perform (.server o)

def ofApi (p : Api α) : Wait α := p.interpret ofOp

end Wait

open Wait

def tryInvoke (threadId graphName lockToken storeLockToken : String) (thread : Thread)
    (run : RunCreate) : Wait JsonObject := do
  ofApi (prepareRun threadId graphName lockToken storeLockToken thread run)
  observe .started
  (perform (.server .invoke)).bind .ofExcept

def waitLocked (threadId graphName lockToken storeLockToken : String) (thread : Thread)
    (run : RunCreate) : Wait Api.Response := do
  match ← (tryInvoke threadId graphName lockToken storeLockToken thread run).attempt with
  | .error _ =>
    observe .failed
    let _ ← ofApi (releaseThreadRunLock threadId graphName lockToken .error none storeLockToken)
    return executionFailed run
  | .ok output =>
    match ← ofApi
        (releaseThreadRunLock threadId graphName lockToken .idle (some output) storeLockToken) with
    | some _ =>
      observe .failed
      return releaseFailed run
    | none =>
      observe .completed
      return .run output

def lockedRun (threadId graphName lockToken : String) (thread : Thread) (run : RunCreate) :
    Wait Api.Response := do
  match ← ofApi (Api.perform (.tryAcquireRunLock threadId run.assistantId)) with
  | .error exc =>
    if exc.isKeyError then
      ofApi (Api.release graphName threadId lockToken)
      return notFound threadId
    else if exc.isValueError then
      ofApi (Api.release graphName threadId lockToken)
      let detail ← .ofExcept exc.str
      return .error 409 detail none
    else
      observe .failed
      ofApi (Api.release graphName threadId lockToken)
      return executionFailed run
  | .ok none =>
    ofApi (Api.release graphName threadId lockToken)
    observe .rejected
    return alreadyBusy threadId
  | .ok (some locked) =>
    waitLocked threadId graphName lockToken (ownerOf lockToken locked.lockToken) thread run

def foundRun (threadId : String) (thread : Thread) (run : RunCreate)
    (resolve : RunCreate → Except Api.Response String) : Wait Api.Response :=
  match resolve run with
  | .error response => return response
  | .ok graphName => do
    match ← ofApi (Api.acquire graphName threadId) with
    | none =>
      observe .rejected
      return alreadyBusy threadId
    | some lockToken => lockedRun threadId graphName lockToken thread run

/-- `runs_wait` from where the body is read. -/
def runsWait (threadId : String) (body : Except Api.Response RunCreate)
    (resolve : RunCreate → Except Api.Response String) : Wait Api.Response :=
  match body with
  | .error response => return response
  | .ok run => do
    match ← ofApi (Api.get threadId) with
    | none => return notFound threadId
    | some thread => foundRun threadId thread run resolve

/-- The program without what it tells its observer. -/
def unobserved : Wait α → Wait α
  | .ret a => .ret a
  | .raise e => .raise e
  | .call (.observe _) k => unobserved (k ())
  | .call (.table o) k => .call (.table o) fun a => unobserved (k a)
  | .call (.server o) k => .call (.server o) fun a => unobserved (k a)

theorem unobserved_bind (p : Wait α) (f : α → Wait β) :
    unobserved (p.bind f) = (unobserved p).bind fun a => unobserved (f a) := by
  induction p with
  | ret a => rfl
  | raise e => rfl
  | call o k ih =>
    cases o with
    | table o => exact congrArg (Prog.call _) (funext ih)
    | server o => exact congrArg (Prog.call _) (funext ih)
    | observe event => exact ih ()

theorem unobserved_attempt (p : Wait α) : unobserved p.attempt = (unobserved p).attempt := by
  induction p with
  | ret a => rfl
  | raise e => rfl
  | call o k ih =>
    cases o with
    | table o => exact congrArg (Prog.call _) (funext ih)
    | server o => exact congrArg (Prog.call _) (funext ih)
    | observe event => exact ih ()

theorem unobserved_ofStore (p : AzureTable.Call α) : unobserved (ofStore p) = ofStore p := by
  induction p with
  | ret a => rfl
  | raise e => rfl
  | call o k ih => exact congrArg (Prog.call _) (funext ih)

theorem unobserved_ofOp (o : Api.Op) : unobserved (ofOp o) = ofOp o := by
  cases o with
  | get | updateMetadata | tryAcquireRunLock | releaseRunLock | renewRunLock =>
    rw [ofOp, unobserved_attempt, unobserved_ofStore]
  | _ => rfl

theorem unobserved_ofApi (p : Api α) : unobserved (ofApi p) = ofApi p := by
  induction p with
  | ret a => rfl
  | raise e => rfl
  | call o k ih =>
    change unobserved ((ofOp o).bind fun a => ofApi (k a)) = (ofOp o).bind fun a => ofApi (k a)
    rw [unobserved_bind, unobserved_ofOp]
    exact congrArg (ofOp o).bind (funext ih)

theorem ofApi_bind (p : Api α) (f : α → Api β) :
    ofApi (p.bind f) = (ofApi p).bind fun a => ofApi (f a) := by
  induction p with
  | ret a => rfl
  | raise e => rfl
  | call o k ih =>
    change (ofOp o).bind (fun a => ofApi ((k a).bind f)) =
      ((ofOp o).bind fun a => ofApi (k a)).bind fun a => ofApi (f a)
    rw [Prog.bind_bind]
    exact congrArg (ofOp o).bind (funext ih)

theorem attempt_bind_attempt (p : Wait α) (f : Except Exn α → Wait β) :
    (p.attempt.bind f).attempt = p.attempt.bind fun r => (f r).attempt := by
  induction p with
  | ret a => rfl
  | raise e => rfl
  | call o k ih => exact congrArg (Prog.call _) (funext ih)

theorem attempt_ofOp_bind (o : Api.Op) (f : o.Ans → Wait β) :
    ((ofOp o).bind f).attempt = (ofOp o).bind fun a => (f a).attempt := by
  cases o with
  | get | updateMetadata | tryAcquireRunLock | releaseRunLock | renewRunLock =>
    exact attempt_bind_attempt ..
  | _ => rfl

theorem ofApi_attempt (p : Api α) : ofApi p.attempt = (ofApi p).attempt := by
  induction p with
  | ret a => rfl
  | raise e => rfl
  | call o k ih =>
    change (ofOp o).bind (fun a => ofApi (k a).attempt) =
      ((ofOp o).bind fun a => ofApi (k a)).attempt
    rw [attempt_ofOp_bind]
    exact congrArg (ofOp o).bind (funext ih)

theorem unobserved_waitLocked (threadId graphName lockToken storeLockToken : String)
    (thread : Thread) (run : RunCreate) :
    unobserved (waitLocked threadId graphName lockToken storeLockToken thread run) =
      ofApi (Platform.waitLocked threadId graphName lockToken storeLockToken thread run) := by
  have htry : unobserved (tryInvoke threadId graphName lockToken storeLockToken thread run) =
      ofApi ((prepareRun threadId graphName lockToken storeLockToken thread run).bind fun _ =>
        (Api.perform .invoke).bind .ofExcept) := by
    rw [ofApi_bind, tryInvoke]
    refine (unobserved_bind ..).trans ?_
    rw [unobserved_ofApi]
    refine congrArg (Prog.bind _) (funext fun _ => congrArg (Prog.call _) (funext fun answer => ?_))
    cases answer <;> rfl
  refine (unobserved_bind ..).trans ?_
  rw [unobserved_attempt, htry, ← ofApi_attempt]
  refine Eq.trans ?_ (ofApi_bind ..).symm
  refine congrArg (Prog.bind _) (funext fun outcome => ?_)
  cases outcome with
  | error exc =>
    change unobserved ((ofApi (releaseThreadRunLock threadId graphName lockToken .error none
      storeLockToken)).bind fun _ => .ret (executionFailed run)) = _
    rw [unobserved_bind, unobserved_ofApi]
    exact (ofApi_bind (releaseThreadRunLock threadId graphName lockToken .error none storeLockToken)
      fun _ => .ret (executionFailed run)).symm
  | ok output =>
    refine Eq.trans ?_ (ofApi_bind ..).symm
    refine (unobserved_bind ..).trans ?_
    rw [unobserved_ofApi]
    refine congrArg (Prog.bind _) (funext fun failure => ?_)
    cases failure <;> rfl

theorem unobserved_lockedRun (threadId graphName lockToken : String) (thread : Thread)
    (run : RunCreate) : unobserved (lockedRun threadId graphName lockToken thread run) =
      ofApi (Platform.lockedRun .wait threadId graphName lockToken thread run) := by
  have hrelease (response : Wait Api.Response) (response' : Api Api.Response)
      (h : unobserved response = ofApi response') :
      unobserved ((ofApi (Api.release graphName threadId lockToken)).bind fun _ => response) =
        ofApi ((Api.release graphName threadId lockToken).bind fun _ => response') := by
    rw [unobserved_bind, unobserved_ofApi, ofApi_bind, h]
  refine (unobserved_bind ..).trans ?_
  rw [unobserved_ofApi]
  refine Eq.trans ?_ (ofApi_bind ..).symm
  refine congrArg (Prog.bind _) (funext fun answer => ?_)
  cases answer with
  | error exc =>
    dsimp only
    cases hkey : exc.isKeyError with
    | true => exact hrelease _ _ rfl
    | false =>
      cases hvalue : exc.isValueError with
      | true =>
        refine hrelease _ _ ?_
        cases exc.str <;> rfl
      | false => exact hrelease _ _ rfl
  | ok locked =>
    cases locked with
    | none => exact hrelease _ _ rfl
    | some locked => exact unobserved_waitLocked ..

/-- But for its observer, `runs_wait` is the handler of `runs`, on the table store. -/
theorem unobserved_runsWait (threadId : String) (body : Except Api.Response RunCreate)
    (resolve : RunCreate → Except Api.Response String) :
    unobserved (runsWait threadId body resolve) = ofApi (runs .wait threadId body resolve) := by
  cases body with
  | error response => rfl
  | ok run =>
    refine (unobserved_bind ..).trans ?_
    rw [unobserved_ofApi]
    refine Eq.trans ?_ (ofApi_bind ..).symm
    refine congrArg (Prog.bind _) (funext fun thread => ?_)
    cases thread with
    | none => rfl
    | some thread =>
      change unobserved (foundRun threadId thread run resolve) =
        ofApi (Platform.foundRun .wait threadId thread run resolve)
      rw [foundRun, Platform.foundRun]
      cases resolve run with
      | error response => rfl
      | ok graphName =>
        refine (unobserved_bind ..).trans ?_
        rw [unobserved_ofApi]
        refine Eq.trans ?_ (ofApi_bind ..).symm
        refine congrArg (Prog.bind _) (funext fun lockToken => ?_)
        cases lockToken with
        | none => rfl
        | some lockToken => exact unobserved_lockedRun ..

/-- The table is that of the store; thread locks, renewals and the graph answer what they like. -/
def service (me : Nat) : Prog.Service interface Table where
  step o T a T' := match o, a with
    | .table o, a => EtagTable.step me o T a T'
    | .server _, _ => T' = T
    | .observe _, _ => T' = T

abbrev RunOp := Event interface Table

def emits (event : RunEvent) : RunOp → Bool
  | .call (.observe event') .. => event' == event
  | _ => false

/-- The release of the run lock begins: the renewal under this token is stopped. -/
def stops (token : String) : RunOp → Bool
  | .call (.server (.stopStoreRenewal ownerToken)) .. => ownerToken == token
  | _ => false

inductive Invoked : RunOp → Prop
  | mk {T T' : Table} {output : JsonObject} : Invoked (.call (.server .invoke) T (.ok output) T')

/-- The row of the thread, busy under `token`, gets this status, these values and no token. -/
inductive Takes (threadId token : String) (status : ThreadStatus) (values : Option JsonObject) :
    RunOp → Prop
  | mk {T T' : Table} {row : Row} {entity : Entity} {now : Int} : HeldBy threadId token T →
      T.row? threadId = some row →
      released row.entity now status (values.map JsonObject.toValue) = .ok entity →
      T' = T.put threadId entity → Takes threadId token status values
        (.call (.table (.update threadId entity .replace row.etag)) T (.ok ()) T')

/-- What the observer and the client are told is so. -/
structure Truthful (threadId : String) (t : List RunOp) (r : Except Exn Api.Response) : Prop where
  recorded : ∀ output, r = .ok (.run output) → t.any (emits .completed) → ∃ token,
    t.any (stops token) ∧ ∃ e ∈ t, Takes threadId token .idle (some output) e
  reported : ∀ token, t.any (stops token) →
    (∀ status values, ∀ e ∈ t, ¬ Takes threadId token status values e) →
    (∃ detail requestId, r = .ok (.error 500 detail requestId)) ∧ t.any (emits .failed)

/-- A row that is read is busy under `token`. -/
def ReadsHeld (threadId token : String) (e : RunOp) : Prop :=
  ∀ T row T', e = .call (.table (.get threadId)) T (.ok row) T' → HeldBy threadId token T

/-- Once the graph has answered and the renewal has reported no loss, the release finds the row busy
under its token, if it finds the row. -/
def Kept (threadId : String) (t : List RunOp) : Prop :=
  ∀ u v token T T', t = u ++ .call (.server (.stopStoreRenewal token)) T none T' :: v →
    (∃ e ∈ u, Invoked e) → ∀ e ∈ v, ReadsHeld threadId token e

def Quiet : RunOp → Prop
  | .call (.server (.stopStoreRenewal _)) .. => False
  | .call (.observe .completed) .. => False
  | _ => True

abbrev Traced (me : Nat) (p : Wait α) (Φ : Except Exn α → List RunOp → Prop) (T : Table) : Prop :=
  p.Traces (service me) Evolves (fun r T' u => Stamped T' ∧ Φ r u) T

def Calm (_ : Except Exn α) (u : List RunOp) : Prop := ∀ e ∈ u, Quiet e

variable {me : Nat} {T T' : Table} {threadId token : String} {status : ThreadStatus}
  {values : Option JsonObject} {u v t : List RunOp} {r : Except Exn Api.Response} {e : RunOp}

theorem traced_ofStore {p : AzureTable.Call α} {Φ : Except Exn α → List RunOp → Prop}
    (h : p.Traces (EtagTable.service me) Evolves (fun r _ u => Φ r (u.map fun
      | .env T T' => .env T T'
      | .call o T a T' => .call (.table o) T a T')) T) (hT : Stamped T) :
    Traced me (ofStore p) Φ T := by
  induction p generalizing Φ T with
  | ret a => exact ⟨hT, h⟩
  | raise e => exact ⟨hT, h⟩
  | call o k ih =>
    intro T₁ hE a T₂ hs
    exact ih a (h T₁ hE a T₂ hs) ((step_evolves me hs).stamped (hE.stamped hT))

def KeepsRenewal : Api.Op → Prop
  | .stopStoreRenewal _ => False
  | _ => True

/-- Of what is asked of the server, only this, and nothing that is told. -/
def Only (φ : Api.Op → Prop) : RunOp → Prop
  | .call (.server o) .. => φ o
  | .call (.observe _) .. => False
  | _ => True

abbrev Plain (φ : Api.Op → Prop) (_ : Except Exn α) (T : Table) (u : List RunOp) : Prop :=
  Stamped T ∧ ∀ e ∈ u, Only φ e

variable {φ ψ : Api.Op → Prop} {R : Table → Table → Prop}

theorem Only.mono (h : Only φ e) (hφ : ∀ o, φ o → ψ o) : Only ψ e := by
  cases e with
  | env => trivial
  | call o =>
    cases o with
    | table o => trivial
    | server o => exact hφ o h
    | observe event => exact h

theorem Only.quiet (h : Only KeepsRenewal e) : Quiet e := by
  cases e with
  | env => trivial
  | call o =>
    cases o with
    | table o => trivial
    | server o => cases o <;> trivial
    | observe event => exact h.elim

theorem plain_ofStore (hR : ∀ T T', R T T' → Evolves T T') (p : AzureTable.Call α)
    (hT : Stamped T) : (ofStore p).attempt.Traces (service me) R (Plain φ) T := by
  apply Prog.traces_attempt (Φ := Plain φ)
  · induction p generalizing T with
    | ret a => exact ⟨hT, List.forall_mem_nil _⟩
    | raise e => exact ⟨hT, List.forall_mem_nil _⟩
    | call o k ih =>
      intro T₁ hT₁ a T₂ hs
      apply Prog.Traces.mono (ih a ((step_evolves me hs).stamped ((hR _ _ hT₁).stamped hT)))
      rintro r T' u ⟨hT', hu⟩
      exact ⟨hT', List.forall_mem_cons.mpr ⟨trivial, hu⟩⟩
  · exact fun _ _ _ h => h

theorem plain_ofOp (hR : ∀ T T', R T T' → Evolves T T') {o : Api.Op} (h : φ o) (hT : Stamped T) :
    (ofOp o).Traces (service me) R (Plain φ) T := by
  have hserver (o : Api.Op) (h : φ o) :
      (Wait.perform (.server o)).Traces (service me) R (Plain φ) T := by
    rintro T₁ hT₁ a _ rfl
    exact ⟨(hR _ _ hT₁).stamped hT, List.forall_mem_singleton.mpr h⟩
  cases o with
  | get | updateMetadata | tryAcquireRunLock | releaseRunLock | renewRunLock =>
    exact plain_ofStore hR _ hT
  | _ => exact hserver _ h

theorem plain_ofApi (hR : ∀ T T', R T T' → Evolves T T') {p : Api α} (h : Api.Always φ p)
    (hT : Stamped T) : (ofApi p).Traces (service me) R (Plain φ) T := by
  induction p generalizing T with
  | ret a => exact ⟨hT, List.forall_mem_nil _⟩
  | raise e => exact ⟨hT, List.forall_mem_nil _⟩
  | call o k ih =>
    apply Prog.traces_bind (plain_ofOp hR h.1 hT)
    · rintro a T₁ u ⟨hT₁, hu⟩
      apply Prog.Traces.mono (ih a (h.2 a) hT₁)
      rintro r T₂ v ⟨hT₂, hv⟩
      exact ⟨hT₂, List.forall_mem_append.mpr ⟨hu, hv⟩⟩
    · exact fun _ _ _ h => h

theorem calm_ofApi {p : Api α} (h : Api.Always KeepsRenewal p) (hT : Stamped T) :
    Traced me (ofApi p) Calm T := by
  apply Prog.Traces.mono (plain_ofApi (fun _ _ h => h) h hT)
  exact fun r T' u h => ⟨h.1, fun e he => (h.2 e he).quiet⟩

/-- A release that found the row under its token, if it found it, has written it, or raises. -/
def Written (threadId token : String) (status : ThreadStatus) (values : Option JsonObject)
    (u : List RunOp) : Prop :=
  (∀ e ∈ u, ReadsHeld threadId token e) → ∃ e ∈ u, Takes threadId token status values e

theorem Written.cons (h : Written threadId token status values u) (e : RunOp) :
    Written threadId token status values (e :: u) := by
  intro hreads
  obtain ⟨e', he', htakes⟩ := h (List.forall_mem_cons.mp hreads).2
  exact ⟨e', List.mem_cons_of_mem e he', htakes⟩

theorem traced_releaseRunLock (hT : Stamped T) : Traced me (ofStore
    (AzureTable.releaseRunLock threadId status (values.map JsonObject.toValue) (some token)))
    (fun r u => ∀ thread, r = .ok thread → Written threadId token status values u) T := by
  refine traced_ofStore ?_ hT
  rw [AzureTable.releaseRunLock]
  split
  · rintro thread ⟨⟩
  · generalize 3 = n
    induction n generalizing T with
    | zero => rintro thread ⟨⟩
    | succ n ih =>
      intro T₁ hE a T₂ hs
      cases a with
      | error f => cases f <;> rintro thread ⟨⟩
      | ok row =>
        obtain ⟨rfl, hrow⟩ := step_get me hs
        change Prog.Traces _ _ (if isStale row.entity (some token) then _ else _) _ _
        split
        · next hstale =>
          refine Prog.traces_ofExcept fun thread _ hreads => ?_
          obtain ⟨row', hrow', -, htoken⟩ :=
            hreads _ List.mem_cons_self _ _ _ rfl
          rw [hrow] at hrow'
          cases hrow'
          rw [isStale, htoken] at hstale
          cases hstale
        · intro T₃ hE₃ now T₄ hs₄
          have hT₄ := (step_evolves me (o := .now) hs₄).stamped (hE₃.stamped (hE.stamped hT))
          refine Prog.traces_bind (Φ := fun r T' u => T₄ = T' ∧ u = [] ∧
            r = released row.entity now status (values.map JsonObject.toValue))
            (Prog.traces_ofExcept ⟨rfl, rfl, rfl⟩) ?_ ?_
          · rintro entity _ _ ⟨rfl, rfl, hentity⟩
            refine Prog.traces_bind (Φ := fun _ T' u => T₄ = T' ∧ u = [])
              (Prog.traces_ofExcept ⟨rfl, rfl⟩) ?_ ?_
            · rintro _ _ _ ⟨rfl, rfl⟩ T₅ hE₅ b T₆ hs₆
              cases b with
              | ok _ =>
                have hseen := ((seen_of_row? (hE.stamped hT) hrow).evolves
                  (hE₃.trans (step_evolves me (o := .now) hs₄))).evolves hE₅
                obtain ⟨hrow₅, rfl⟩ := hseen.update_ok me hs₆ rfl
                refine Prog.traces_ofExcept fun thread _ hreads => ?_
                obtain ⟨row', hrow', hbusy, htoken⟩ := hreads _ List.mem_cons_self _ _ _ rfl
                rw [hrow] at hrow'
                cases hrow'
                refine ⟨_, List.mem_cons_of_mem _ (List.mem_cons_of_mem _ List.mem_cons_self), ?_⟩
                exact .mk ⟨row, hrow₅, hbusy, htoken⟩ hrow₅ hentity.symm rfl
              | error f =>
                cases f with
                | modified =>
                  have hT₆ := (step_evolves me (o := .update ..) hs₆).stamped (hE₅.stamped hT₄)
                  apply Prog.Traces.mono (ih hT₆)
                  exact fun r T' u h thread hr => (((h thread hr).cons _).cons _).cons _
                | _ => rintro thread ⟨⟩
            · rintro _ _ _ - thread ⟨⟩
          · rintro e _ u - thread ⟨⟩
theorem Written.append (h : Written threadId token status values u) (v : List RunOp) :
    Written threadId token status values (u ++ v) := by
  intro hreads
  obtain ⟨e, he, htakes⟩ := h fun e he => hreads e (List.mem_append_left v he)
  exact ⟨e, List.mem_append_left v he, htakes⟩

theorem traced_release (hT : Stamped T) :
    Traced me (ofOp (.releaseRunLock threadId status values token)) (fun r u => (∀ e ∈ u, Quiet e) ∧
      ∃ answer, r = .ok answer ∧
        ∀ thread, answer = .ok thread → Written threadId token status values u) T := by
  have hwritten : Traced me (ofOp (.releaseRunLock threadId status values token))
      (fun r u => ∃ answer, r = .ok answer ∧
        ∀ thread, answer = .ok thread → Written threadId token status values u) T :=
    Prog.traces_attempt (traced_releaseRunLock hT) fun r _ u h => ⟨h.1, r, rfl, h.2⟩
  have hplain : (ofOp (.releaseRunLock threadId status values token)).Traces (service me) Evolves
      (Plain KeepsRenewal) T := plain_ofOp (fun _ _ h => h) trivial hT
  apply Prog.Traces.mono (hplain.and hwritten)
  exact fun r T' u h => ⟨h.1.1, fun e he => (h.1.2 e he).quiet, h.2.2⟩

/-- The release of both locks, which reports a failure or has written the row. -/
def Releases (threadId token : String) (status : ThreadStatus) (values : Option JsonObject)
    (r : Except Exn (Option Exn)) (u : List RunOp) : Prop :=
  ∃ failure a T T' v, r = .ok failure ∧
    u = .call (.server (.stopStoreRenewal token)) T a T' :: v ∧ (∀ e ∈ v, Quiet e) ∧
    (failure = none → a = none ∧ Written threadId token status values v)

theorem traced_releaseThreadRunLock {graphName lockToken : String}
    (howner : (if token = "" then lockToken else token) = token) (hT : Stamped T) : Traced me
      (ofApi (releaseThreadRunLock threadId graphName lockToken status values token))
      (Releases threadId token status values) T := by
  rintro T₁ hE a _ rfl
  rw [howner]
  apply Prog.traces_bind (traced_release (hE.stamped hT))
  · rintro answer T₂ u ⟨hT₂, hquiet, _, ⟨⟩, hwritten⟩ T₃ hE₃ b _ rfl
    have hquiet' (T T' : Table) (b : Except Exn Unit) :
        ∀ e ∈ u ++ [.call (.server (.release graphName threadId lockToken)) T b T'], Quiet e :=
      List.forall_mem_append.mpr ⟨hquiet, List.forall_mem_singleton.mpr trivial⟩
    cases b with
    | ok _ =>
      refine ⟨hE₃.stamped hT₂, _, a, _, _, _, rfl, rfl, hquiet' _ _ _, fun hnone => ?_⟩
      cases a with
      | some failure => cases hnone
      | none =>
        cases answer with
        | ok thread => exact ⟨rfl, (hwritten thread rfl).append _⟩
        | error exc => cases hnone
    | error exc =>
      refine ⟨hE₃.stamped hT₂, _, a, _, _, _, rfl, rfl, hquiet' _ _ _, fun hnone => ?_⟩
      cases a with
      | some failure => cases hnone
      | none => cases answer <;> cases hnone
  · rintro e T₂ u ⟨-, -, _, ⟨⟩, -⟩

theorem traced_tryInvoke (threadId graphName lockToken storeLockToken : String) (thread : Thread)
    (run : RunCreate) (hT : Stamped T) : Traced me
      (tryInvoke threadId graphName lockToken storeLockToken thread run)
      (fun r u => (∀ e ∈ u, Quiet e) ∧ ∀ output, r = .ok output → ∃ e ∈ u, Invoked e) T := by
  apply Prog.traces_bind (calm_ofApi (Api.always_prepareRun trivial trivial fun _ => trivial) hT)
  · rintro _ T₁ u ⟨hT₁, hu⟩ T₂ hE₂ _ _ rfl T₃ hE₃ answer _ rfl
    refine Prog.traces_ofExcept ⟨hE₃.stamped (hE₂.stamped hT₁), ?_, ?_⟩
    · refine List.forall_mem_append.mpr ⟨hu, List.forall_mem_cons.mpr ⟨trivial, ?_⟩⟩
      exact List.forall_mem_singleton.mpr trivial
    · rintro output rfl
      exact ⟨_, List.mem_append_right u (List.mem_cons_of_mem _ List.mem_cons_self), .mk⟩
  · rintro e T₁ u ⟨hT₁, hu⟩
    exact ⟨hT₁, hu, fun _ h => (by cases h)⟩

/-- A run that tells of nothing, one that tells of its failure, and one whose release was made. -/
inductive Course (threadId : String) : Except Exn Api.Response → List RunOp → Prop
  | quiet {r : Except Exn Api.Response} {u : List RunOp} : (∀ e ∈ u, Quiet e) → Course threadId r u
  | failed {detail : String} {requestId : Option String} {u : List RunOp} :
      u.any (emits .failed) → Course threadId (.ok (.error 500 detail requestId)) u
  | completed {u v w : List RunOp} {token : String} {T T' : Table} {output : JsonObject} :
      (∀ e ∈ u, Quiet e) → (∃ e ∈ u, Invoked e) → (∀ e ∈ v, Quiet e) →
      Written threadId token .idle (some output) v → (∀ e ∈ w, ∀ token, stops token e = false) →
      Course threadId (.ok (.run output))
        (u ++ .call (.server (.stopStoreRenewal token)) T none T' :: (v ++ w))

theorem Course.after (hu : ∀ e ∈ u, Quiet e) (h : Course threadId r v) :
    Course threadId r (u ++ v) := by
  cases h with
  | quiet hv => exact .quiet (List.forall_mem_append.mpr ⟨hu, hv⟩)
  | failed hv => exact .failed (by rw [List.any_append, hv, Bool.or_true])
  | completed hu' hinvoked hv hwritten hw =>
    rw [← List.append_assoc]
    refine .completed (List.forall_mem_append.mpr ⟨hu, hu'⟩) ?_ hv hwritten hw
    obtain ⟨e, he, hinvoked⟩ := hinvoked
    exact ⟨e, List.mem_append_right u he, hinvoked⟩

theorem traced_waitLocked {graphName lockToken : String} {thread : Thread} {run : RunCreate}
    (howner : (if token = "" then lockToken else token) = token) (hT : Stamped T) : Traced me
      (waitLocked threadId graphName lockToken token thread run) (Course threadId) T := by
  have htry : Traced me (tryInvoke threadId graphName lockToken token thread run).attempt
      (fun r u => ∃ outcome, r = .ok outcome ∧ (∀ e ∈ u, Quiet e) ∧
        ∀ output, outcome = .ok output → ∃ e ∈ u, Invoked e) T :=
    Prog.traces_attempt (traced_tryInvoke threadId graphName lockToken token thread run hT)
      fun r T' u h => ⟨h.1, r, rfl, h.2⟩
  apply Prog.traces_bind htry
  · rintro outcome T₁ u ⟨hT₁, _, ⟨⟩, hquiet, hinvoked⟩
    cases outcome with
    | error exc =>
      rintro T₂ hE₂ _ _ rfl
      apply Prog.traces_bind (traced_releaseThreadRunLock howner (hE₂.stamped hT₁))
      · rintro failure T₃ v ⟨hT₃, -⟩
        refine ⟨hT₃, .failed ?_⟩
        simp [emits]
      · rintro e T₃ v ⟨-, _, _, _, _, _, ⟨⟩, -⟩
    | ok output =>
      obtain hinvoked := hinvoked output rfl
      apply Prog.traces_bind (traced_releaseThreadRunLock howner hT₁)
      · rintro failure T₂ v ⟨hT₂, _, a, T₃, T₄, w, ⟨⟩, rfl, hw, hwritten⟩
        cases failure with
        | some exc =>
          rintro T₅ hE₅ _ _ rfl
          refine ⟨hE₅.stamped hT₂, .failed ?_⟩
          simp [emits]
        | none =>
          obtain ⟨rfl, hrow⟩ := hwritten rfl
          rintro T₅ hE₅ _ _ rfl
          refine ⟨hE₅.stamped hT₂, ?_⟩
          exact .completed hquiet hinvoked hw hrow
            (List.forall_mem_singleton.mpr fun _ => rfl)
      · rintro e T₂ v ⟨-, _, _, _, _, _, ⟨⟩, -⟩
  · rintro e T₁ u ⟨-, _, ⟨⟩, -⟩
theorem traced_calm {p : Wait α} {f : α → Wait Api.Response} (h : Traced me p Calm T)
    (hok : ∀ a T', Stamped T' → Traced me (f a) (Course threadId) T') :
    Traced me (p.bind f) (Course threadId) T := by
  apply Prog.traces_bind h
  · rintro a T₁ u ⟨hT₁, hu⟩
    apply Prog.Traces.mono (hok a T₁ hT₁)
    exact fun r T₂ v h => ⟨h.1, h.2.after hu⟩
  · rintro e T₁ u ⟨hT₁, hu⟩
    exact ⟨hT₁, .quiet hu⟩

theorem traced_response (response : Api.Response) (hT : Stamped T) :
    Traced me (.ret response) (Course threadId) T :=
  ⟨hT, .quiet (List.forall_mem_nil _)⟩

theorem calm_observe {event : RunEvent} (h : event ≠ .completed) (hT : Stamped T) :
    Traced me (observe event) Calm T := by
  rintro T₁ hE _ _ rfl
  refine ⟨hE.stamped hT, List.forall_mem_singleton.mpr ?_⟩
  cases event with
  | completed => exact absurd rfl h
  | _ => trivial

theorem calm_lock (graphName lockToken : String) (hT : Stamped T) :
    Traced me (ofApi (Api.release graphName threadId lockToken)) Calm T :=
  calm_ofApi (Api.always_call trivial) hT

theorem traced_lockedRun {graphName lockToken : String} {thread : Thread} {run : RunCreate}
    (hT : Stamped T) :
    Traced me (lockedRun threadId graphName lockToken thread run) (Course threadId) T := by
  refine traced_calm (calm_ofApi (Api.always_perform trivial) hT) fun answer T₁ hT₁ => ?_
  cases answer with
  | error exc =>
    change Traced me (if _ then _ else if _ then _ else _) _ T₁
    split
    · exact traced_calm (calm_lock graphName lockToken hT₁) fun _ _ => traced_response _
    · split
      · refine traced_calm (calm_lock graphName lockToken hT₁) fun _ T₂ hT₂ => ?_
        refine traced_calm (Prog.traces_ofExcept ⟨hT₂, List.forall_mem_nil _⟩) ?_
        exact fun _ _ => traced_response _
      · refine traced_calm (calm_observe (by decide) hT₁) fun _ T₂ hT₂ => ?_
        exact traced_calm (calm_lock graphName lockToken hT₂) fun _ _ => traced_response _
  | ok locked =>
    cases locked with
    | none =>
      refine traced_calm (calm_lock graphName lockToken hT₁) fun _ T₂ hT₂ => ?_
      exact traced_calm (calm_observe (by decide) hT₂) fun _ _ => traced_response _
    | some locked => exact traced_waitLocked (ownerOf_eq lockToken locked.lockToken) hT₁

theorem traced_runsWait {body : Except Api.Response RunCreate}
    {resolve : RunCreate → Except Api.Response String} (hT : Stamped T) :
    Traced me (runsWait threadId body resolve) (Course threadId) T := by
  cases body with
  | error response => exact traced_response response hT
  | ok run =>
    refine traced_calm (calm_ofApi (Api.always_call trivial) hT) fun thread T₁ hT₁ => ?_
    cases thread with
    | none => exact traced_response _ hT₁
    | some thread =>
      change Traced me (foundRun threadId thread run resolve) _ T₁
      rw [foundRun]
      cases resolve run with
      | error response => exact traced_response response hT₁
      | ok graphName =>
        refine traced_calm (calm_ofApi (Api.always_call trivial) hT₁) fun lockToken T₂ hT₂ => ?_
        cases lockToken with
        | none => exact traced_calm (calm_observe (by decide) hT₂) fun _ _ => traced_response _
        | some lockToken => exact traced_lockedRun hT₂

theorem Quiet.not_stops (h : Quiet e) (token : String) : stops token e = false := by
  cases e with
  | env => rfl
  | call o =>
    cases o with
    | server o => cases o <;> first | rfl | exact h.elim
    | _ => rfl

theorem Quiet.not_completed (h : Quiet e) : emits .completed e = false := by
  cases e with
  | env => rfl
  | call o =>
    cases o with
    | observe event => cases event <;> first | rfl | exact h.elim
    | _ => rfl

theorem any_eq_false {p : RunOp → Bool} (h : ∀ e ∈ u, p e = false) : u.any p = false := by
  simpa using h

theorem Course.truthful (h : Course threadId r t) (hkept : Kept threadId t) :
    Truthful threadId t r := by
  cases h with
  | quiet hu =>
    constructor
    · intro output _ hcompleted
      rw [any_eq_false fun e he => (hu e he).not_completed] at hcompleted
      cases hcompleted
    · intro token hstops
      rw [any_eq_false fun e he => (hu e he).not_stops token] at hstops
      cases hstops
  | failed hfailed => exact ⟨fun _ h => (by cases h), fun _ _ _ => ⟨⟨_, _, rfl⟩, hfailed⟩⟩
  | @completed u v w token T T' output hu hinvoked hv hwritten hw =>
    have hreads := hkept u (v ++ w) token T T' rfl hinvoked
    obtain ⟨e, he, htakes⟩ := hwritten fun e he => hreads e (List.mem_append_left w he)
    have hmem : e ∈ u ++ .call (.server (.stopStoreRenewal token)) T none T' :: (v ++ w) :=
      List.mem_append_right u (List.mem_cons_of_mem _ (List.mem_append_left w he))
    constructor
    · rintro _ ⟨⟩ -
      exact ⟨token, by simp [stops], e, hmem, htakes⟩
    · intro token' hstops hnone
      rw [List.any_append, List.any_cons, List.any_append,
        any_eq_false fun e he => (hu e he).not_stops token',
        any_eq_false fun e he => (hv e he).not_stops token',
        any_eq_false fun e he => hw e he token', Bool.or_false, Bool.or_false, Bool.false_or,
        stops, beq_iff_eq] at hstops
      rw [← hstops] at hnone
      exact absurd htakes (hnone .idle (some output) e hmem)

def served (output : JsonObject) : (o : Api.Op) → o.Ans
  | .get _ => .ok none
  | .updateMetadata threadId _ => .error (.keyError threadId)
  | .tryAcquireRunLock .. => .ok none
  | .releaseRunLock threadId .. => .error (.keyError threadId)
  | .renewRunLock .. => .ok false
  | .acquire .. => .ok (some "l")
  | .release .. => .ok ()
  | .startStoreRenewal .. => .ok ()
  | .stopStoreRenewal _ => none
  | .guardRunConfig .. => .ok ()
  | .invoke => .ok output
  | .stream => ([], .ok true)

def acts (output : JsonObject) : (o : Op) → Table → o.Ans × Table
  | .table o, T => act 0 o T
  | .server o, T => (served output o, T)
  | .observe _, T => ((), T)

theorem acts_step (output : JsonObject) (o : Op) (T : Table) :
    (service 0).step o T (acts output o T).1 (acts output o T).2 := by
  cases o with
  | table o => exact act_step 0 o T
  | _ => rfl

def carriedOut (T : Table) (requests : List AzureTable.Request) : Table :=
  requests.foldl (fun T request => (request.program.run (act 1) T).2) T

/-- Another client has some of its requests carried out. -/
def Requested (T T' : Table) : Prop := ∃ requests, T' = carriedOut T requests

def reclaimed : Op → Table → Table
  | .server (.stopStoreRenewal _), T =>
    carriedOut T [.resetStaleLocks 0 .idle, .tryAcquireRunLock "u" none]
  | _, T => T

def oneThread : Table := carriedOut ⟨∅, 0, 0, []⟩ [.create none]

theorem stamped_oneThread : Stamped oneThread := by
  refine (evolves_run 1 (AzureTable.Request.program (.create none)) _).stamped fun key row h => ?_
  rw [Table.row?, Dict.get?_empty] at h
  cases h

def oneRun : Wait Api.Response := runsWait "u" (.ok ⟨"r", "a", none⟩) fun _ => .ok "g"

def replaces : RunOp → Bool
  | .call (.table (.update _ _ .replace _)) .. => true
  | _ => false

def readsHeld (threadId token : String) : RunOp → Bool
  | .call (.table (.get key)) T _ _ => key != threadId || decide (HeldBy threadId token T)
  | _ => true

def keeps (threadId : String) : List RunOp → Bool
  | [] => true
  | .call (.server (.stopStoreRenewal token)) _ _ _ :: t =>
    t.all (readsHeld threadId token) && keeps threadId t
  | _ :: t => keeps threadId t

theorem keeps_of_cons (h : keeps threadId (e :: t)) : keeps threadId t := by
  unfold keeps at h
  split at h
  · next h' => cases h'
  · next h' =>
    cases h'
    exact (Bool.and_eq_true_iff.mp h).2
  · next h' =>
    cases h'
    exact h

theorem kept_of_keeps (h : keeps threadId t) : Kept threadId t := by
  rintro u v token T T' rfl - e he
  induction u with
  | nil =>
    rintro T row T' rfl
    have hreads := List.all_eq_true.mp (Bool.and_eq_true_iff.mp h).1 _ he
    simpa [readsHeld] using hreads
  | cons e u ih => exact ih (keeps_of_cons h)

end LangGraphFunctions.Platform.WaitRuns

import LangGraphFunctions.Lifecycle

/-! The thread lock around a graph, in every handler that answers when the run is over. -/

namespace LangGraphFunctions.GraphLocks

open Lib Prog Lifecycle

variable {γ α β : Type}

inductive LockMark
  | named (threadId : Option String)
  | acquired (graphName : String) (threadId : Json.Value) (token : String)
  | denied (graphName : String) (threadId : Json.Value)
  | graph
  | released (graphName : String) (threadId : Json.Value) (token : String)

/-- An iterator that a stream goes through belongs to the graph until it is closed. -/
def lockMark : (o : Host.Op γ) × o.Ans → List LockMark
  | ⟨.threadIdFactory, .ok threadId⟩ => [.named threadId]
  | ⟨.acquire graphName threadId _, .ok (some token)⟩ => [.acquired graphName threadId token]
  | ⟨.acquire graphName threadId _, .ok none⟩ => [.denied graphName threadId]
  | ⟨.acquire graphName threadId _, .error _⟩ => [.denied graphName threadId]
  | ⟨.release graphName threadId token, _⟩ => [.released graphName threadId token]
  | ⟨.invoke _, _⟩ => [.graph]
  | ⟨.stream _, _⟩ => [.graph]
  | ⟨.next, _⟩ => [.graph]
  | ⟨.close, _⟩ => [.graph]
  | _ => []

/-- A run over the thread lock `lock`. The synchronous handlers take an empty token for a refusal
and leave it. -/
inductive Kept (sync : Bool) (graphName : String) : Option Json.Value → List LockMark → Prop
  | unlocked {work : List LockMark} : (∀ x ∈ work, x = .graph) → Kept sync graphName none work
  | denied {threadId : Json.Value} :
      Kept sync graphName (some threadId) [.denied graphName threadId]
  | blank {threadId : Json.Value} : sync = true →
      Kept sync graphName (some threadId) [.acquired graphName threadId ""]
  | held {threadId : Json.Value} {token : String} {work : List LockMark} :
      (sync = true → token ≠ "") → (∀ x ∈ work, x = .graph) →
      Kept sync graphName (some threadId)
        (.acquired graphName threadId token :: (work ++ [.released graphName threadId token]))

def requestThread (env : Native.Env) (reg : Native.Registration) (req : Native.HttpRequest) :
    Option String :=
  match Native.parseNativeRequest env.model env.limits reg.allowedConfigurableKeys req with
  | .error _ => none
  | .ok request =>
    match Native.validatedRunThread reg (request.config.getD ∅) with
    | .error _ => none
    | .ok threadId => threadId

def syncLock (reg : Native.Registration) (threadId : Option String) : Option Json.Value :=
  if reg.hasCheckpointer then (threadId.filter (· ≠ "")).map .str else none

def messageThread (reg : Triggers.ServiceBusRegistration) (msg : Triggers.ServiceBusMessage)
    (names : List (Option String)) : Option String :=
  if reg.session then msg.sessionId else names.head?.join

def messageLock (reg : Triggers.ServiceBusRegistration) (threadId : Option String) :
    Option Json.Value :=
  if Triggers.useLock reg threadId then threadId.map .str else none

def sync : Handler → Bool
  | .invoke .. => true
  | .stream .. => true
  | .serviceBus .. => true
  | _ => false

def Locks (names : List (Option String)) : Handler → String → Option Json.Value → Prop
  | .invoke env reg req, graphName, lock =>
    graphName = reg.name ∧ lock = syncLock reg (requestThread env reg req)
  | .stream env reg req, graphName, lock =>
    graphName = reg.name ∧ lock = syncLock reg (requestThread env reg req)
  | .invokeAsync env reg req, graphName, lock =>
    graphName = reg.name ∧ lock = Native.lockThreadIdOf reg (requestThread env reg req)
  | .streamAsync env reg req, graphName, lock =>
    graphName = reg.name ∧ lock = Native.lockThreadIdOf reg (requestThread env reg req)
  | .serviceBus reg msg _, graphName, lock =>
    graphName = reg.name ∧ lock = messageLock reg (messageThread reg msg names)
  | .serviceBusAsync reg msg _, graphName, lock =>
    graphName = reg.name ∧ lock = messageLock reg (messageThread reg msg names)
  | .durable registry _ payload, graphName, lock => ∃ reg, registry payload.graphName = some reg ∧
    graphName = reg.name ∧ lock = Durable.lockThreadIdOf reg payload

def Settles (h : Handler) (u : List LockMark) : Prop :=
  ∃ names work, u = names.map .named ++ work ∧
    (work = [] ∨ ∃ graphName lock, Locks names h graphName lock ∧ Kept (sync h) graphName lock work)

abbrev LockWrites (p : Host γ α) (S : Host.Result α → List LockMark → Prop) : Prop :=
  p.Writes Host.Answers lockMark S

abbrev Only (M : LockMark → Prop) (p : Host γ α) : Prop := LockWrites p fun _ u => ∀ x ∈ u, M x

variable {M : LockMark → Prop}

theorem only_ret (a : α) : Only (γ := γ) M (.ret a) := List.forall_mem_nil _

theorem only_raise (e : Raised Exn) : Only (γ := γ) (α := α) M (.raise e) := List.forall_mem_nil _

theorem only_bind {p : Host γ α} {f : α → Host γ β} (h : Only M p) (hf : ∀ a, Only M (f a)) :
    Only M (p >>= f) :=
  writes_bind h
    (fun a _ hu => (hf a).mono fun _ _ hv => List.forall_mem_append.mpr ⟨hu, hv⟩)
    fun _ _ hu => hu

theorem only_map {p : Host γ α} (f : α → β) (h : Only M p) : Only M (f <$> p) := by
  rw [map_eq_pure_bind]
  exact only_bind h fun a => only_ret (f a)

theorem only_ofExcept (r : Host.Result α) : Only (γ := γ) M (.ofExcept r) :=
  writes_ofExcept (List.forall_mem_nil _)

theorem only_perform {o : Host.Op γ} (h : ∀ a, ∀ x ∈ lockMark ⟨o, a⟩, M x) :
    Only M (Host.perform o) := by
  intro a _
  change ∀ x ∈ lockMark ⟨o, a⟩ ++ [], M x
  rw [List.append_nil]
  exact h a

theorem only_aside {o : Host.Op γ} (h : ∀ a, lockMark ⟨o, a⟩ = []) : Only M (Host.perform o) :=
  only_perform fun a x hx => by
    rw [h a] at hx
    cases hx

theorem only_attempt {p : Host γ α} (h : Only M p) : Only M p.attempt :=
  writes_attempt h fun _ _ hu => hu

theorem only_handle {p : Host γ α} {f : Raised Exn → Host γ α} (h : Only M p)
    (hf : ∀ e, Only M (f e)) : Only M (p.handle f) :=
  writes_handle h (fun _ _ hu => hu) fun e _ hu =>
    (hf e).mono fun _ _ hv => List.forall_mem_append.mpr ⟨hu, hv⟩

theorem only_andFinally {p : Host γ α} {cleanup : Host γ Unit} (h : Only M p)
    (hcleanup : Only M cleanup) : Only M (p.andFinally cleanup) :=
  writes_andFinally h hcleanup (fun _ _ _ hu hv => List.forall_mem_append.mpr ⟨hu, hv⟩)
    fun _ _ _ _ hu hv => List.forall_mem_append.mpr ⟨hu, hv⟩

theorem only_exceptException {p : Host γ α} {f : Exn → Host γ α} (h : Only M p)
    (hf : ∀ exc, Only M (f exc)) : Only M (Host.exceptException p f) := by
  refine only_handle h fun e => ?_
  cases e with
  | exception exc => exact hf exc
  | _ => exact only_raise _

theorem only_observe (e : RunEvent) : Only (γ := γ) M (Host.observe e) :=
  only_aside fun _ => rfl

theorem only_checkOwnershipGuard (guard : Option γ) : Only M (Host.checkOwnershipGuard guard) := by
  cases guard with
  | none => exact only_ret _
  | some guard =>
    exact only_bind (only_aside fun _ => rfl) only_ofExcept

theorem only_guardRunConfig {graphName : String} {threadId : Option Json.Value}
    {token : Option String} {config : Option (Platform.RunConfig γ)} :
    Only M (Host.guardRunConfig graphName threadId token config) := by
  refine only_bind ?_ fun _ => only_ret _
  cases threadId with
  | none => exact only_ret _
  | some threadId =>
    cases token with
    | none => exact only_ret _
    | some token =>
      rw [Host.ownershipGuardFor]
      split
      · exact only_ret _
      · exact only_bind (only_aside fun _ => rfl) only_ofExcept

theorem only_dumps (value : Json.Value) : Only (γ := γ) M (Host.dumps value) :=
  only_bind (only_aside fun _ => rfl) only_ofExcept

theorem only_invoke (call : GraphCall γ) : Only (· = .graph) (Host.invoke call) :=
  only_bind (only_perform fun _ _ => List.mem_singleton.mp) only_ofExcept

theorem only_newRunContext (ctx : RunContext) : Only (γ := γ) M (Host.newRunContext ctx) := by
  rw [Host.newRunContext]
  split
  · exact only_bind (only_aside fun _ => rfl) fun _ => only_ret _
  · exact only_ret _

theorem only_nothing {p : Host γ α} (h : Only (fun _ => False) p) :
    LockWrites p fun _ u => u = [] :=
  h.mono fun _ _ hu => List.eq_nil_iff_forall_not_mem.mpr hu

theorem lockWrites_silent_bind {p : Host γ α} {f : α → Host γ β}
    {T : Host.Result β → List LockMark → Prop} (h : Only (fun _ => False) p)
    (hf : ∀ a, LockWrites (f a) T) (herror : ∀ e, T (.error e) []) : LockWrites (p >>= f) T := by
  refine writes_bind (only_nothing h) (fun a u hu => ?_) fun e u hu => ?_
  · subst hu
    exact hf a
  · subst hu
    exact herror e

theorem lockWrites_observe {e : RunEvent} {f : Unit → Host γ α}
    {T : Host.Result α → List LockMark → Prop} (h : LockWrites (f ()) T) :
    LockWrites (Host.observe e >>= f) T :=
  fun _ _ => h

theorem lockWrites_bind_silent {P : List LockMark → Prop} {p : Host γ α} {f : α → Host γ β}
    (h : LockWrites p fun _ u => P u) (hf : ∀ a, Only (fun _ => False) (f a)) :
    LockWrites (p >>= f) fun _ u => P u := by
  refine writes_bind h (fun a u hu => (only_nothing (hf a)).mono fun r v hv => ?_) fun e u hu => hu
  subst hv
  rwa [List.append_nil]

variable {graphName : String} {threadId : Json.Value} {timeout : Rat}

inductive Acquires (graphName : String) (threadId : Json.Value) :
    Host.Result (Option String) → List LockMark → Prop
  | given (token : String) :
      Acquires graphName threadId (.ok (some token)) [.acquired graphName threadId token]
  | refused : Acquires graphName threadId (.ok none) [.denied graphName threadId]
  | raised (e : Raised Exn) : Acquires graphName threadId (.error e) [.denied graphName threadId]

theorem acquire_writes :
    LockWrites (γ := γ) (Host.acquire graphName threadId timeout)
      (Acquires graphName threadId) := by
  rintro (e | _ | token) -
  · exact .raised e
  · exact .refused
  · exact .given token

theorem andFinally_releases {p : Host γ α} {token : String} (h : Only (· = .graph) p) :
    LockWrites (p.andFinally (Host.release graphName threadId token)) fun _ u =>
      ∃ work, (∀ x ∈ work, x = .graph) ∧ u = work ++ [.released graphName threadId token] := by
  have hrelease : LockWrites (γ := γ) (Host.release graphName threadId token) fun _ v =>
      v = [.released graphName threadId token] := by
    rintro (_ | _) - <;> rfl
  refine writes_andFinally h hrelease ?_ ?_
  · rintro r u v hu rfl
    exact ⟨u, hu, rfl⟩
  · rintro r e u v hu rfl
    exact ⟨u, hu, rfl⟩

theorem acquire_bind_kept {sync : Bool} {f : Option String → Host γ α}
    (hgiven : ∀ token, LockWrites (f (some token)) fun _ u =>
      Kept sync graphName (some threadId) (.acquired graphName threadId token :: u))
    (hrefused : Only (fun _ => False) (f none)) :
    LockWrites (Host.acquire graphName threadId timeout >>= f) fun _ u =>
      Kept sync graphName (some threadId) u := by
  refine writes_bind acquire_writes ?_ ?_
  · rintro token u hu
    cases hu with
    | given token => exact hgiven token
    | refused =>
      refine (only_nothing hrefused).mono fun r v hv => ?_
      subst hv
      exact .denied
  · rintro e u hu
    cases hu
    exact .denied

theorem asyncThreadLock_kept {lock : Option Json.Value} {body : Option String → Host γ α}
    (hbody : ∀ token, Only (· = .graph) (body token))
    (hrefused : lock.isSome → Only (fun _ => False) (body none)) :
    LockWrites (Host.asyncThreadLock graphName lock timeout body) fun _ u =>
      Kept false graphName lock u := by
  cases lock with
  | none => exact (hbody none).mono fun _ _ => .unlocked
  | some threadId =>
    refine acquire_bind_kept (fun token => ?_) ?_
    · refine (andFinally_releases (hbody (some token))).mono ?_
      rintro r u ⟨work, hwork, rfl⟩
      exact .held (fun h => by cases h) hwork
    · exact only_andFinally (hrefused rfl) (only_ret ())

section Sync

open Native

variable {reg : Registration} {thread : Option String}

theorem syncLock_cases (reg : Registration) (thread : Option String) :
    (syncLock reg thread = none ∧
        (acquireSync reg thread : Host γ _) = .ret none ∧ refusedSync reg thread none = false) ∨
      ∃ t, syncLock reg thread = some (.str t) ∧ thread = some t ∧
        (acquireSync reg thread : Host γ _) = Host.acquire reg.name (.str t) 0 ∧
          ∀ token, refusedSync reg thread token = !token.any (· != "") := by
  rw [syncLock]
  cases hcp : reg.hasCheckpointer with
  | false =>
    refine .inl ⟨rfl, ?_, ?_⟩
    · cases thread with
      | none => rfl
      | some t =>
        rw [acquireSync, hcp]
        rfl
    · rw [refusedSync, hcp]
      rfl
  | true =>
    cases thread with
    | none => exact .inl ⟨rfl, rfl, by rw [refusedSync, hcp]; rfl⟩
    | some t =>
      by_cases ht : t = ""
      · subst ht
        refine .inl ⟨rfl, ?_, by rw [refusedSync, hcp]; rfl⟩
        rw [acquireSync, hcp]
        rfl
      · refine .inr ⟨t, by simp [ht], rfl, ?_, fun token => ?_⟩
        · rw [acquireSync, hcp, Bool.true_and, if_pos (bne_iff_ne.mpr ht)]
        · rw [refusedSync, hcp, Option.any_some, bne_iff_ne.mpr ht, Bool.true_and, Bool.true_and]

theorem syncLock_kept {refuse : Host γ β} {block : Option String → Host γ α} {e : RunEvent}
    {finish : α → Host γ β} (hrefuse : Only (fun _ => False) refuse)
    (hblock : ∀ token, Only (· = .graph) (block token))
    (hfinish : ∀ a, Only (fun _ => False) (finish a)) :
    LockWrites (do
      let lockToken ← acquireSync reg thread
      if refusedSync reg thread lockToken then refuse
      else
        Host.observe e
        let outcome ← (block lockToken).andFinally (releaseSync reg thread lockToken)
        finish outcome) fun _ u => Kept true reg.name (syncLock reg thread) u := by
  rcases syncLock_cases (γ := γ) reg thread with ⟨hlock, hacquire, hrefused⟩ |
    ⟨t, hlock, rfl, hacquire, hrefused⟩
  · rw [hlock, hacquire]
    change LockWrites (if refusedSync reg thread none = true then _ else _) _
    rw [if_neg (by rw [hrefused]; exact Bool.false_ne_true)]
    refine (only_bind (only_observe e) fun _ => only_bind ?_ fun a => (hfinish a).mono
      fun _ _ hu x hx => (hu x hx).elim).mono fun _ _ => .unlocked
    have hrelease : (releaseSync reg thread none : Host γ Unit) = .ret () := by
      cases thread <;> rfl
    rw [hrelease]
    exact only_andFinally (hblock none) (only_ret ())
  · rw [hlock, hacquire]
    refine acquire_bind_kept (fun token => ?_) ?_
    · rw [hrefused]
      by_cases htoken : token = ""
      · subst htoken
        rw [if_pos (by rfl)]
        refine (only_nothing hrefuse).mono fun r v hv => ?_
        subst hv
        exact .blank rfl
      · rw [if_neg (by simp [htoken])]
        refine lockWrites_observe (lockWrites_bind_silent
          ((andFinally_releases (hblock (some token))).mono ?_) hfinish)
        rintro r u ⟨work, hwork, rfl⟩
        exact .held (fun _ => htoken) hwork
    · rw [hrefused, if_pos (by rfl)]
      exact hrefuse

end Sync

section Native

open Native

variable {env : Env} {reg : Registration} {req : HttpRequest} {run : Ready} {ctx : RunContext}
  {lock : Option Json.Value} {token : Option String} {fuel maxBytes : Nat} {runId : String}
  {buffer : Buffer}

theorem only_reject {reason : RunRejectedReason} {response : ErrorResponse} :
    Only (γ := γ) M (reject ctx reason response) :=
  only_bind (only_observe _) fun _ => only_ret _

theorem only_requestIdFromHeaders : Only (γ := γ) M (requestIdFromHeaders req) := by
  rw [requestIdFromHeaders]
  split
  · split
    · exact only_ret _
    · exact only_aside fun _ => rfl
  · exact only_aside fun _ => rfl

theorem only_authorizationStatus {method : Method} {authorize : Bool} {thread : Option String} :
    Only (γ := γ) M (method.authorizationStatus authorize reg thread) := by
  have hask (status : Host.Result Verdict → Host.Result (Option Nat)) :
      Only (γ := γ) M (askAuthorizer status authorize reg thread) := by
    rw [askAuthorizer]
    split
    · exact only_bind (only_aside fun _ => rfl) fun _ => only_ofExcept _
    · exact only_ret _
  cases method <;> exact hask _

theorem preflight_names {method : Method} {withStreamMode : Bool} :
    LockWrites (γ := γ) (preflight env reg req method withStreamMode ctx) fun r u =>
      u = [] ∧ ∀ run, r = .ok (.inr run) → run.threadId = requestThread env reg req := by
  have hreject {ctx : RunContext} {reason : RunRejectedReason} {response : ErrorResponse} :
      LockWrites (γ := γ) ((.inl : HttpResponse → HttpResponse ⊕ Ready) <$>
          reject ctx reason response) fun r u =>
        u = [] ∧ ∀ run, r = .ok (.inr run) → run.threadId = requestThread env reg req :=
    fun _ _ => ⟨rfl, fun _ h => by cases h⟩
  rw [preflight]
  split
  · exact hreject
  · next request hrequest =>
    dsimp only
    split
    · exact hreject
    · next thread hthread =>
      refine lockWrites_silent_bind only_authorizationStatus (fun status => ?_) fun e =>
        ⟨rfl, fun _ h => by cases h⟩
      rw [proceed.eq_def]
      split
      · exact hreject
      · split
        · exact hreject
        · refine ⟨rfl, ?_⟩
          rintro _ ⟨⟩
          rw [requestThread, hrequest]
          dsimp only
          rw [hthread]

theorem only_tryDump {applies : Bool} {dump : Host γ Json.Value} (h : Only M dump) :
    Only M (tryDump applies dump) := by
  rw [tryDump]
  split
  · exact only_exceptException (only_map _ h) fun _ => only_ret _
  · exact only_ret _

theorem only_serializeGraphOutput (result : GraphOutput) :
    Only (γ := γ) M (serializeGraphOutput result) := by
  rw [serializeGraphOutput]
  split
  · exact only_ret _
  · refine only_bind (only_tryDump (only_bind (only_aside fun _ => rfl)
      only_ofExcept)) fun dumped => ?_
    split
    · exact only_ret _
    · refine only_bind (only_tryDump (only_bind (only_aside fun _ => rfl)
        only_ofExcept)) fun dumped => ?_
      split
      · exact only_ret _
      · exact only_bind (only_bind (only_aside fun _ => rfl) only_ofExcept)
          fun _ => only_ret _

theorem only_invokeOrFail : Only (γ := γ) (· = .graph) (invokeOrFail reg run lock token) := by
  refine only_exceptException (only_map _ ?_) fun exc =>
    only_bind (only_observe _) fun _ => only_ret _
  exact only_bind only_guardRunConfig fun _ => only_bind (only_invoke _) fun _ =>
    only_bind (only_checkOwnershipGuard _) fun _ => only_bind (only_serializeGraphOutput _) fun _ =>
      only_dumps _

theorem only_finishInvoke (outcome : HttpResponse ⊕ String) :
    Only (γ := γ) M (finishInvoke ctx outcome) := by
  cases outcome with
  | inl response => exact only_ret _
  | inr body => exact only_bind (only_observe _) fun _ => only_ret _

theorem only_invokeLocked : Only (γ := γ) (· = .graph) (invokeLocked reg run lock token) := by
  rw [invokeLocked]
  split
  · exact only_map _ only_reject
  · exact only_bind (only_observe _) fun _ => only_invokeOrFail

theorem only_collect :
    Only (γ := γ) (· = .graph) (collect maxBytes runId fuel buffer) := by
  induction fuel generalizing buffer with
  | zero =>
    intro never
    cases never
  | succ fuel ih =>
    refine only_bind (only_perform fun _ _ => List.mem_singleton.mp) fun answer => ?_
    split
    · exact only_ret _
    · exact only_ret _
    · refine only_bind (only_aside fun _ => rfl) fun dumped => ?_
      split
      · exact only_ret _
      · split
        · exact ih
        · exact only_ret _

theorem only_streamEvents :
    Only (γ := γ) (· = .graph) (streamEvents fuel env reg run lock token) := by
  refine only_bind (only_attempt only_guardRunConfig) fun guarded => ?_
  split
  · exact only_ret _
  · refine only_bind (only_perform fun _ _ => List.mem_singleton.mp) fun opened => ?_
    split
    · exact only_ret _
    · refine only_bind only_collect fun collected => ?_
      split
      · exact only_ret _
      · exact only_ret _
      · refine only_bind (only_attempt (only_checkOwnershipGuard _)) fun checked => ?_
        split <;> exact only_ret _

theorem only_finishStream (outcome : HttpResponse ⊕ (Buffer × Option Exn)) :
    Only (γ := γ) M (finishStream ctx outcome) := by
  rcases outcome with response | ⟨buffer, _ | exc⟩
  · exact only_ret _
  · exact only_bind (only_observe _) fun _ => only_ret _
  · exact only_bind (only_observe _) fun _ => only_ret _

theorem only_streamLocked :
    Only (γ := γ) (· = .graph) (streamLocked fuel env reg run lock token) := by
  rw [streamLocked]
  split
  · exact only_map _ only_reject
  · refine only_bind (only_observe _) fun _ => only_bind only_streamEvents fun streamed => ?_
    dsimp only
    split
    · exact only_bind (only_bind (only_perform fun _ _ => List.mem_singleton.mp) only_ofExcept)
        fun _ => only_map _ (only_ofExcept _)
    · exact only_map _ (only_ofExcept _)

def Settled (sync : Bool) (graphName : String) (lock : Option Json.Value) (u : List LockMark) :
    Prop :=
  u = [] ∨ Kept sync graphName lock u

theorem preflight_bind_settled {sync : Bool} {method : Method} {withStreamMode : Bool}
    {lockOf : Option String → Option Json.Value} {f : HttpResponse ⊕ Ready → Host γ HttpResponse}
    (hinl : ∀ response, Only (fun _ => False) (f (.inl response)))
    (hinr : ∀ run, LockWrites (f (.inr run)) fun _ u =>
      Kept sync reg.name (lockOf run.threadId) u) :
    LockWrites (preflight env reg req method withStreamMode ctx >>= f) fun _ u =>
      Settled sync reg.name (lockOf (requestThread env reg req)) u := by
  refine writes_bind preflight_names ?_ fun e u hu => .inl hu.1
  rintro (response | run) u ⟨rfl, hrun⟩
  · exact (only_nothing (hinl response)).mono fun _ _ => .inl
  · rw [← hrun run rfl]
    exact (hinr run).mono fun _ _ => .inr

theorem handleInvoke_settled : LockWrites (γ := γ) (handleInvoke env reg req) fun _ u =>
    Settled true reg.name (syncLock reg (requestThread env reg req)) u := by
  refine lockWrites_silent_bind only_requestIdFromHeaders (fun runId => ?_) fun _ => .inl rfl
  exact preflight_bind_settled (fun _ => only_ret _) fun run =>
    syncLock_kept only_reject (fun _ => only_invokeOrFail) only_finishInvoke

theorem handleInvokeAsync_settled : LockWrites (γ := γ) (handleInvokeAsync env reg req) fun _ u =>
    Settled false reg.name (Native.lockThreadIdOf reg (requestThread env reg req)) u := by
  refine lockWrites_silent_bind only_requestIdFromHeaders (fun runId => ?_) fun _ => .inl rfl
  refine preflight_bind_settled (fun _ => only_ret _) fun run =>
    lockWrites_bind_silent (asyncThreadLock_kept (fun _ => only_invokeLocked) fun hlock => ?_)
      only_finishInvoke
  rw [invokeLocked, if_pos (by rw [hlock]; rfl)]
  exact only_map _ only_reject

theorem handleStream_settled : LockWrites (γ := γ) (handleStream fuel env reg req) fun _ u =>
    Settled true reg.name (syncLock reg (requestThread env reg req)) u := by
  refine lockWrites_silent_bind only_requestIdFromHeaders (fun runId => ?_) fun _ => .inl rfl
  dsimp only
  split
  · exact (only_nothing only_reject).mono fun _ _ => .inl
  · split
    · exact (only_nothing only_reject).mono fun _ _ => .inl
    · exact preflight_bind_settled (fun _ => only_ret _) fun run =>
        syncLock_kept only_reject
          (fun _ => only_bind only_streamEvents fun _ => only_ofExcept _)
          fun _ => only_finishStream _

theorem handleStreamAsync_settled :
    LockWrites (γ := γ) (handleStreamAsync fuel env reg req) fun _ u =>
      Settled false reg.name (Native.lockThreadIdOf reg (requestThread env reg req)) u := by
  refine lockWrites_silent_bind only_requestIdFromHeaders (fun runId => ?_) fun _ => .inl rfl
  dsimp only
  split
  · exact (only_nothing only_reject).mono fun _ _ => .inl
  · split
    · exact (only_nothing only_reject).mono fun _ _ => .inl
    · refine preflight_bind_settled (fun _ => only_ret _) fun run =>
        lockWrites_bind_silent (asyncThreadLock_kept (fun _ => only_streamLocked) fun hlock => ?_)
          only_finishStream
      rw [streamLocked, if_pos (by rw [hlock]; rfl)]
      exact only_map _ only_reject

end Native

section Triggers

open Triggers

variable {reg : ServiceBusRegistration} {msg : ServiceBusMessage} {lockBackend : String}
  {ctx : RunContext} {input : Json.Value} {thread : Option String}
  {lock : Option Json.Value} {token : Option String}

theorem messageThreadId_names : LockWrites (γ := γ) (messageThreadId reg msg) fun r u =>
    ∃ names, u = names.map .named ∧ ∀ thread, r = .ok thread →
      thread = messageThread reg msg names := by
  unfold messageThreadId
  extract_lets session
  have hsession (names : List (Option String)) : LockWrites (session names.head?.join) fun r u =>
      u = [] ∧ ∀ thread, r = .ok thread → thread = messageThread reg msg names := by
    have hraise (e : Raised Exn) : LockWrites (γ := γ) (α := Option String) (.raise e) fun r u =>
        u = [] ∧ ∀ thread, r = .ok thread → thread = messageThread reg msg names :=
      ⟨rfl, fun _ h => by cases h⟩
    simp only [session]
    split
    · next hsession =>
      split
      · exact hraise _
      · next sessionId hsessionId =>
        split
        · exact hraise _
        · split
          · exact hraise _
          · refine ⟨rfl, ?_⟩
            rintro _ ⟨⟩
            rw [messageThread, if_pos hsession]
            exact hsessionId.symm
    · next hnone =>
      refine ⟨rfl, ?_⟩
      rintro _ ⟨⟩
      rw [messageThread, if_neg hnone]
  split
  · rintro (e | named) -
    · exact ⟨[], rfl, fun _ h => by cases h⟩
    · refine (hsession [named]).mono ?_
      rintro r u ⟨rfl, hthread⟩
      exact ⟨[named], rfl, hthread⟩
  · refine (hsession []).mono ?_
    rintro r u ⟨rfl, hthread⟩
    exact ⟨[], rfl, hthread⟩

theorem only_observeRun :
    Only (γ := γ) (· = .graph) (observeRun reg ctx input thread lock token) := by
  refine only_bind (only_observe _) fun _ => only_bind (only_attempt ?_) fun outcome => ?_
  · exact only_bind only_guardRunConfig fun _ => only_bind (only_invoke _) fun _ =>
      only_bind (only_checkOwnershipGuard _) fun _ => only_ret _
  · split
    · exact only_bind (only_observe _) fun _ => only_raise _
    · exact only_bind (only_observe _) fun _ => only_ret _

theorem only_handleResult (result : GraphOutput) :
    Only (γ := γ) M (handleResult reg result) := by
  rw [handleResult]
  split
  · exact only_bind (only_bind (only_aside fun _ => rfl) only_ofExcept)
      fun _ => only_ret _
  · exact only_ret _

theorem filter_useLock :
    (thread.filter fun _ => useLock reg thread).map .str = messageLock reg thread := by
  rw [messageLock]
  cases thread with
  | none => exact (ite_self none).symm
  | some thread =>
    rw [Option.filter]
    split <;> rfl

def MessageSettles (sync : Bool) (reg : ServiceBusRegistration) (msg : ServiceBusMessage)
    (u : List LockMark) : Prop :=
  ∃ names work, u = names.map .named ++ work ∧
    (work = [] ∨ Kept sync reg.name (messageLock reg (messageThread reg msg names)) work)

theorem messageSettles_nil {sync : Bool} : MessageSettles sync reg msg [] :=
  ⟨[], [], rfl, .inl rfl⟩

theorem message_settled {sync : Bool} {f : Option String → RunContext → Host γ GraphOutput}
    (hf : ∀ thread ctx, LockWrites (f thread ctx) fun _ u =>
      Kept sync reg.name (messageLock reg thread) u) :
    LockWrites (do
      let thread ← messageThreadId reg msg
      let ctx ← messageContext reg msg lockBackend thread
      f thread ctx) fun _ u => MessageSettles sync reg msg u := by
  refine writes_bind messageThreadId_names ?_ ?_
  · rintro thread u ⟨names, rfl, hthread⟩
    refine lockWrites_silent_bind (only_newRunContext _) (fun ctx => ?_) fun _ =>
      ⟨names, [], rfl, .inl rfl⟩
    refine (hf thread ctx).mono fun _ u hu => ⟨names, u, rfl, .inr ?_⟩
    rw [← hthread thread rfl]
    exact hu
  · rintro e u ⟨names, rfl, -⟩
    exact ⟨names, [], (List.append_nil _).symm, .inl rfl⟩

theorem processServiceBusMessage_settled :
    LockWrites (γ := γ) (processServiceBusMessage reg msg lockBackend) fun _ u =>
      MessageSettles true reg msg u := by
  refine lockWrites_silent_bind (only_bind (only_aside fun _ => rfl)
    only_ofExcept) (fun input => ?_) fun _ => messageSettles_nil
  refine message_settled fun thread ctx => ?_
  rw [← filter_useLock]
  split
  · next hnone =>
    rw [hnone]
    exact (only_bind only_observeRun only_handleResult).mono fun _ _ => .unlocked
  · next lockThread hsome =>
    rw [hsome]
    refine acquire_bind_kept (fun token => ?_) (only_raise _)
    by_cases htoken : token = ""
    · subst htoken
      exact .blank rfl
    · have hfilter : (some token).filter (fun x => x != "") = some token :=
        Option.filter_some_pos (bne_iff_ne.mpr htoken)
      rw [hfilter]
      refine lockWrites_bind_silent ((andFinally_releases only_observeRun).mono ?_)
        only_handleResult
      rintro r u ⟨work, hwork, rfl⟩
      exact .held (fun _ => htoken) hwork

theorem processServiceBusMessageAsync_settled :
    LockWrites (γ := γ) (processServiceBusMessageAsync reg msg lockBackend) fun _ u =>
      MessageSettles false reg msg u := by
  refine lockWrites_silent_bind (only_bind (only_aside fun _ => rfl)
    only_ofExcept) (fun input => ?_) fun _ => messageSettles_nil
  refine message_settled fun thread ctx => ?_
  change LockWrites (Host.asyncThreadLock reg.name (messageLock reg thread) reg.lockTimeout
    (fun lockToken => if (messageLock reg thread).isSome && lockToken.isNone then
      .raise (contention reg thread)
      else observeRun reg ctx input thread (messageLock reg thread) lockToken) >>=
        handleResult reg) _
  generalize messageLock reg thread = lock
  refine lockWrites_bind_silent (asyncThreadLock_kept (fun token => ?_) fun hlock => ?_)
    only_handleResult
  · split
    · exact only_raise _
    · exact only_observeRun
  · rw [if_pos (by rw [hlock]; rfl)]
    exact only_raise _

end Triggers

section Durable

open Durable

theorem only_executeLocked {reg : Durable.Registration} {payload : DurableRunPayload}
    {ctx : RunContext} {lock : Option Json.Value} {token : Option String} :
    Only (γ := γ) (· = .graph) (executeLocked reg payload ctx lock token) := by
  rw [executeLocked]
  split
  · exact only_bind (only_observe _) fun _ => only_ret _
  · refine only_bind (only_ofExcept _) fun config => only_bind (only_observe _) fun _ =>
      only_bind (only_attempt ?_) fun outcome => ?_
    · exact only_bind only_guardRunConfig fun _ => only_bind (only_invoke _) fun _ =>
        only_bind (only_checkOwnershipGuard _) fun _ => only_exceptException
          (only_bind (only_dumps _) fun _ => only_ofExcept _) fun _ => only_raise _
    · split
      · refine only_bind (only_observe _) fun _ => ?_
        split
        · exact only_ofExcept _
        · exact only_raise _
      · exact only_bind (only_observe _) fun _ => only_ret _

theorem executeLanggraphRunImpl_settled {registry : Registry} {lockBackend : String}
    {payload : DurableRunPayload} :
    LockWrites (γ := γ) (executeLanggraphRunImpl registry lockBackend payload) fun _ u =>
      u = [] ∨ ∃ reg, registry payload.graphName = some reg ∧
        Kept false reg.name (Durable.lockThreadIdOf reg payload) u := by
  rw [executeLanggraphRunImpl]
  split
  · exact (only_nothing (only_ofExcept _)).mono fun _ _ => .inl
  · next reg hreg =>
    refine lockWrites_silent_bind (only_newRunContext _) (fun ctx => ?_) fun _ => .inl rfl
    refine (asyncThreadLock_kept (fun _ => only_executeLocked) fun hlock => ?_).mono fun _ _ hu =>
      .inr ⟨reg, hreg, hu⟩
    rw [executeLocked, if_pos (by rw [hlock]; rfl)]
    exact only_bind (only_observe _) fun _ => only_ret _

end Durable

theorem settled_program (h : Handler) (fuel : Nat) :
    LockWrites (h.program γ fuel) fun _ u => Settles h u := by
  have hnative {graphName : String} {lock : Option Json.Value} {u : List LockMark}
      (hlock : Locks [] h graphName lock) (hu : Settled (sync h) graphName lock u) : Settles h u :=
    ⟨[], u, rfl, hu.imp id fun hkept => ⟨graphName, lock, hlock, hkept⟩⟩
  cases h with
  | invoke env reg req => exact handleInvoke_settled.mono fun _ _ => hnative ⟨rfl, rfl⟩
  | stream env reg req => exact handleStream_settled.mono fun _ _ => hnative ⟨rfl, rfl⟩
  | invokeAsync env reg req => exact handleInvokeAsync_settled.mono fun _ _ => hnative ⟨rfl, rfl⟩
  | streamAsync env reg req => exact handleStreamAsync_settled.mono fun _ _ => hnative ⟨rfl, rfl⟩
  | serviceBus reg msg lockBackend =>
    refine processServiceBusMessage_settled.mono ?_
    rintro r u ⟨names, work, rfl, hwork⟩
    exact ⟨names, work, rfl, hwork.imp id fun hkept => ⟨reg.name, _, ⟨rfl, rfl⟩, hkept⟩⟩
  | serviceBusAsync reg msg lockBackend =>
    refine processServiceBusMessageAsync_settled.mono ?_
    rintro r u ⟨names, work, rfl, hwork⟩
    exact ⟨names, work, rfl, hwork.imp id fun hkept => ⟨reg.name, _, ⟨rfl, rfl⟩, hkept⟩⟩
  | durable registry lockBackend payload =>
    refine executeLanggraphRunImpl_settled.mono fun _ u hu => ⟨[], u, rfl, hu.imp id ?_⟩
    rintro ⟨reg, hreg, hkept⟩
    exact ⟨reg.name, _, ⟨reg, hreg, rfl, rfl⟩, hkept⟩

/-- However a run is answered and whatever raises, the thread lock that it takes is given back once
and under its own token, after the last the run has to do with the graph; a run whose lock is
refused does not get to the graph, and only one without a thread to lock runs unlocked. -/
theorem runs_locked {h : Handler} {fuel : Nat} {w : Transcript (Host.interface γ)}
    {r : Host.Result h.Out} (hrun : (h.program γ fuel).Plays Host.Answers w (.ofExcept r)) :
    Settles h (w.flatMap lockMark) :=
  hrun.writes (settled_program h fuel)

def someActivity : Handler :=
  .durable (fun _ => some ⟨"agent", true⟩) "InProcessThreadLock"
    ⟨"r", "agent", .dict [], .str "t", ∅, .null, .null⟩

def cancelling : (o : Host.Op Unit) → Option o.Ans
  | .observe _ => some ()
  | .acquire .. => some (.ok (some "k"))
  | .ownershipGuard .. => some (.ok none)
  | .invoke _ => some (.error .cancelled)
  | .release .. => some (.ok ())
  | _ => none

theorem cancelling_answers (o : Host.Op Unit) (a : o.Ans) (h : cancelling o = some a) :
    Host.Answers o a := by
  cases o with
  | dumps value => cases h
  | _ => trivial

theorem runs_locked_cancelled :
    ∃ (w : Transcript (Host.interface Unit)) (r : Host.Result someActivity.Out),
      (someActivity.program Unit 0).Plays Host.Answers w (.ofExcept r) ∧
        w.flatMap lockMark = [.acquired "agent" (.str "t") "k", .graph,
          .released "agent" (.str "t") "k"] ∧
        Settles someActivity (w.flatMap lockMark) := by
  obtain ⟨w, r, hrun, hw⟩ : ∃ w r, (someActivity.program Unit 0).answered cancelling = some (w, r) ∧
      w.flatMap lockMark = [.acquired "agent" (.str "t") "k", .graph,
        .released "agent" (.str "t") "k"] := ⟨_, _, rfl, rfl⟩
  have hplays := plays_answered cancelling_answers hrun
  exact ⟨w, r, hplays, hw, runs_locked hplays⟩

end LangGraphFunctions.GraphLocks

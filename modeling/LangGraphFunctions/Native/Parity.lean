import LangGraphFunctions.Lib.Mirrors
import LangGraphFunctions.Native.Handlers

/-! The synchronous and the asynchronous handler of an endpoint do the same. -/

namespace LangGraphFunctions.Native

open Lib Platform Validation

abbrev Policy := String → Option String → Host.Result Verdict

variable {γ : Type} {env : Env} {reg : Registration} {req : HttpRequest} {run : Ready}
  {policy : Policy} {method method' : Method} {ctx : RunContext} {withStreamMode : Bool}
  {request : RunRequest} {threadId : Option String}

/-- The authorizer answers as the policy says, a lock hands out tokens that are not empty, and an
iterator can be closed. -/
def Lawful (policy : Policy) : (o : Host.Op γ) → o.Ans → Prop
  | .authorize graphName threadId, answer => answer = policy graphName threadId
  | .acquire .., answer => answer ≠ .ok (some "")
  | .close, answer => answer = .ok ()
  | _, _ => True

def isClose : Host.Op γ → Bool
  | .close => true
  | _ => false

structure Twofold (reg : Registration) : Prop where
  invoke : reg.acceptsVersion .invoke = reg.acceptsVersion .ainvoke
  stream : reg.acceptsVersion .stream = reg.acceptsVersion .astream
  streamable : reg.isStreamable = reg.isAsyncStreamable

abbrev Same (policy : Policy) (p q : Host γ α) : Prop := p.Mirrors (Lawful policy) isClose q

def askedThread (env : Env) (reg : Registration) (req : HttpRequest) : Option (Option String) :=
  match parseNativeRequest env.model env.limits reg.allowedConfigurableKeys req with
  | .error _ => none
  | .ok request =>
    match validatedRunThread reg (request.config.getD ∅) with
    | .error _ => none
    | .ok threadId => if env.authorize then some threadId else none

/-- Both ways of reading the authorizer's answer to the request make the same status of it. -/
def ReadAlike (policy : Policy) (env : Env) (reg : Registration) (req : HttpRequest) : Prop :=
  ∀ threadId, askedThread env reg req = some threadId →
    failClosed (authorizationStatus (policy reg.name threadId)) =
      failClosed (authorizationStatusAsync (policy reg.name threadId))

theorem extractThreadId_ne {config : JsonObject} {threadId : Option String}
    (h : extractThreadId config = .ok threadId) : threadId ≠ some "" := by
  rintro rfl
  rw [extractThreadId] at h
  split at h
  · cases h
  · cases h
  · split at h
    · cases h
    · cases h
    · split at h
      · cases h
      · next hvalid =>
        cases h
        cases hvalid
    · cases h
  · cases h

theorem validatedRunThread_ne {config : JsonObject} {threadId : Option String}
    (h : validatedRunThread reg config = .ok threadId) : threadId ≠ some "" := by
  obtain ⟨found, hfound, h⟩ := bind_eq_ok.mp h
  split at h
  · cases h
  · cases h
    exact extractThreadId_ne hfound

theorem map_inl_bind {β : Type} {refusal : Host γ HttpResponse}
    {finish : HttpResponse ⊕ β → Host γ HttpResponse}
    (hfinish : ∀ response, finish (.inl response) = .ret response) :
    ((.inl <$> refusal : Host γ (HttpResponse ⊕ β)) >>= finish) = refusal := by
  rw [map_eq_pure_bind, bind_assoc]
  simp only [pure_bind, hfinish]
  exact bind_pure refusal

theorem preflight_cases (env : Env) (reg : Registration) (req : HttpRequest) (withStreamMode : Bool)
    (ctx : RunContext) :
    (askedThread env reg req = none ∧ ∃ reason response, ∀ method,
      (preflight env reg req method withStreamMode ctx : Host γ _) =
        .inl <$> reject ctx reason response) ∨
    ∃ request threadId ctx', threadId ≠ some "" ∧
      askedThread env reg req = (if env.authorize then some threadId else none) ∧ ∀ method,
        (preflight env reg req method withStreamMode ctx : Host γ _) =
          (method.authorizationStatus env.authorize reg threadId >>=
            proceed reg method request threadId ctx') := by
  cases hparse : parseNativeRequest env.model env.limits reg.allowedConfigurableKeys req with
  | error parsed =>
    refine .inl ⟨by rw [askedThread, hparse], .invalidRequest, parsed, fun method => ?_⟩
    rw [preflight, hparse]
  | ok request =>
    cases hthread : validatedRunThread reg (request.config.getD ∅) with
    | error cfgErr =>
      refine .inl ⟨by simp only [askedThread, hparse, hthread], .invalidConfig, message 400 cfgErr,
        fun method => ?_⟩
      simp only [preflight, hparse, hthread]
    | ok threadId =>
      refine .inr ⟨request, threadId,
        { ctx with
          threadId := idValue threadId
          streamMode := if withStreamMode then some request.streamMode else none },
        validatedRunThread_ne hthread, ?_, fun method => ?_⟩
      · simp only [askedThread, hparse, hthread]
      · simp only [preflight, hparse, hthread]

variable {f g : HttpResponse ⊕ Ready → Host γ HttpResponse}

theorem same_proceed (hversion : reg.acceptsVersion method = reg.acceptsVersion method')
    (hf : ∀ response, f (.inl response) = .ret response)
    (hg : ∀ response, g (.inl response) = .ret response)
    (hinr : ∀ run, run.threadId ≠ some "" → Same policy (f (.inr run)) (g (.inr run)))
    (hne : threadId ≠ some "") (status : Option Nat) :
    Same policy (proceed reg method request threadId ctx status >>= f)
      (proceed reg method' request threadId ctx status >>= g) := by
  have hresolve : resolveVersionKwarg reg method = resolveVersionKwarg reg method' := by
    funext version
    cases version with
    | none => rfl
    | some version => rw [resolveVersionKwarg, resolveVersionKwarg, hversion]
  cases status with
  | some status =>
    rw [proceed, proceed, map_inl_bind hf, map_inl_bind hg]
    exact .refl _
  | none =>
    rw [proceed, proceed, hresolve]
    cases resolveVersionKwarg reg method' request.version with
    | error response =>
      dsimp only
      rw [map_inl_bind hf, map_inl_bind hg]
      exact .refl _
    | ok version => exact hinr _ hne

theorem same_preflight (hversion : reg.acceptsVersion method = reg.acceptsVersion method')
    (hsync : method.authorizationStatus (γ := γ) = nativeAuthorizationStatus)
    (hasync : method'.authorizationStatus (γ := γ) = nativeAuthorizationStatusAsync)
    (hf : ∀ response, f (.inl response) = .ret response)
    (hg : ∀ response, g (.inl response) = .ret response)
    (hinr : ∀ run, run.threadId ≠ some "" → Same policy (f (.inr run)) (g (.inr run)))
    (halike : ReadAlike policy env reg req) :
    Same policy (preflight env reg req method withStreamMode ctx >>= f)
      (preflight env reg req method' withStreamMode ctx >>= g) := by
  rcases preflight_cases (γ := γ) env reg req withStreamMode ctx with
    ⟨-, reason, response, hpreflight⟩ | ⟨request, threadId, ctx', hne, hasked, hpreflight⟩
  · rw [hpreflight, hpreflight, map_inl_bind hf, map_inl_bind hg]
    exact .refl _
  have hproceed : ∀ status, Same policy (proceed reg method request threadId ctx' status >>= f)
      (proceed reg method' request threadId ctx' status >>= g) := same_proceed hversion hf hg hinr hne
  rw [hpreflight, hpreflight, bind_assoc, bind_assoc, hsync, hasync, nativeAuthorizationStatus,
    nativeAuthorizationStatusAsync, askAuthorizer, askAuthorizer]
  cases hauthorize : env.authorize with
  | false => exact hproceed none
  | true =>
    refine .call fun answer hanswer => ?_
    rw [show answer = policy reg.name threadId from hanswer]
    have hstatus := halike threadId (by rw [hasked, hauthorize]; rfl)
    change Same policy (Prog.bind (.ofExcept _) _) (Prog.bind (.ofExcept _) _)
    rw [hstatus]
    cases failClosed (authorizationStatusAsync (policy reg.name threadId)) with
    | error exc => exact .raise
    | ok status => exact hproceed status

def Begins (p : Host γ HttpResponse) : Prop :=
  ∃ o k, p = .call o k ∧ isClose o = false ∧
    ∀ ctx, o ≠ .observe (.rejected ctx .authorizationDenied)

theorem admit_refused (hf : ∀ response, f (.inl response) = .ret response) (status : Nat) :
    (proceed reg method request threadId ctx (some status) >>= f : Host γ _) =
      reject ctx .authorizationDenied (message status "Access denied") := map_inl_bind hf

theorem begins_proceed (hf : ∀ response, f (.inl response) = .ret response)
    (hbegins : ∀ run, Begins (f (.inr run))) :
    Begins (proceed reg method request threadId ctx none >>= f) := by
  rw [proceed]
  cases resolveVersionKwarg reg method request.version with
  | error response =>
    dsimp only
    rw [map_inl_bind hf]
    exact ⟨_, _, rfl, rfl, fun ctx h => by cases h⟩
  | ok version => exact hbegins _

theorem not_agree_proceed {exc : Raised Exn} (hf : ∀ response, f (.inl response) = .ret response)
    (hbegins : ∀ run, Begins (f (.inr run))) (status : Option Nat) :
    ¬(Prog.raise exc : Host γ _).Agree (Lawful policy) isClose
      (proceed reg method request threadId ctx status >>= f) := by
  cases status with
  | some status =>
    rw [admit_refused hf]
    exact Prog.not_agree_raise rfl
  | none =>
    have hstart : Begins (proceed reg method request threadId ctx none >>= f) :=
      begins_proceed hf hbegins
    obtain ⟨o, k, hcall, hseen, -⟩ := hstart
    rw [hcall]
    exact Prog.not_agree_raise hseen

theorem not_agree_denied {status : Nat} (hf : ∀ response, f (.inl response) = .ret response)
    (hbegins : ∀ run, Begins (f (.inr run))) :
    ¬(reject ctx .authorizationDenied (message status "Access denied") : Host γ _).Agree
      (Lawful policy) isClose (proceed reg method request threadId ctx none >>= f) := by
  intro h
  have hstart : Begins (proceed reg method request threadId ctx none >>= f) :=
    begins_proceed hf hbegins
  obtain ⟨o, k, hcall, hseen, hother⟩ := hstart
  rw [hcall] at h
  exact hother ctx (h.head_eq rfl hseen ⟨_, _, .call (a := ()) trivial .ret⟩).symm

theorem status_eq_of_agree {status status' : Host.Result (Option Nat)}
    (hf : ∀ response, f (.inl response) = .ret response)
    (hg : ∀ response, g (.inl response) = .ret response)
    (hbeginf : ∀ run, Begins (f (.inr run))) (hbeging : ∀ run, Begins (g (.inr run)))
    (h : (Prog.ofExcept status >>= fun status =>
        proceed reg method request threadId ctx status >>= f : Host γ _).Agree (Lawful policy) isClose
      (Prog.ofExcept status' >>= fun status =>
        proceed reg method' request threadId ctx status >>= g)) : status = status' := by
  cases status with
  | error exc =>
    cases status' with
    | error exc' => exact congrArg Except.error h.raise_eq
    | ok status' => exact (not_agree_proceed hg hbeging status' h).elim
  | ok status =>
    cases status' with
    | error exc' => exact (not_agree_proceed hf hbeginf status h.symm).elim
    | ok status' =>
      change (proceed reg method request threadId ctx status >>= f : Host γ _).Agree _ _
        (proceed reg method' request threadId ctx status' >>= g) at h
      cases status with
      | none =>
        cases status' with
        | none => rfl
        | some n =>
          rw [admit_refused hg] at h
          exact (not_agree_denied hf hbeginf h.symm).elim
      | some n =>
        rw [admit_refused hf] at h
        cases status' with
        | none => exact (not_agree_denied hg hbeging h).elim
        | some m =>
          rw [admit_refused hg] at h
          have hresponse := (h.of_call rfl (a := ()) trivial).ret_eq
          exact congrArg (fun n => Except.ok (some n)) (congrArg HttpResponse.statusCode hresponse)

theorem readAlike_of_agree (hsync : method.authorizationStatus (γ := γ) = nativeAuthorizationStatus)
    (hasync : method'.authorizationStatus (γ := γ) = nativeAuthorizationStatusAsync)
    (hf : ∀ response, f (.inl response) = .ret response)
    (hg : ∀ response, g (.inl response) = .ret response)
    (hbeginf : ∀ run, Begins (f (.inr run))) (hbeging : ∀ run, Begins (g (.inr run)))
    (h : (preflight env reg req method withStreamMode ctx >>= f).Agree (Lawful policy) isClose
      (preflight env reg req method' withStreamMode ctx >>= g)) : ReadAlike policy env reg req := by
  intro threadId hthread
  rcases preflight_cases (γ := γ) env reg req withStreamMode ctx with
    ⟨hnone, -⟩ | ⟨request, threadId', ctx', -, hasked, hpreflight⟩
  · cases hnone.symm.trans hthread
  · rw [hthread] at hasked
    split at hasked
    · next hauthorize =>
      cases hasked
      rw [hpreflight, hpreflight, bind_assoc, bind_assoc, hsync, hasync, nativeAuthorizationStatus,
        nativeAuthorizationStatusAsync, askAuthorizer, askAuthorizer, hauthorize] at h
      exact status_eq_of_agree hf hg hbeginf hbeging (h.of_call rfl (a := policy reg.name _) rfl)
    · cases hasked

theorem agree_of_requestId {f g : String → Host γ HttpResponse}
    (h : (requestIdFromHeaders req >>= f).Agree (Lawful policy) isClose
      (requestIdFromHeaders req >>= g)) :
    ∃ runId, (f runId).Agree (Lawful policy) isClose (g runId) := by
  rw [requestIdFromHeaders] at h
  split at h
  · split at h
    · exact ⟨_, h⟩
    · exact ⟨"", h.of_call rfl (a := "") trivial⟩
  · exact ⟨"", h.of_call rfl (a := "") trivial⟩

theorem acquireSync_locked {threadId : String} (hcp : reg.hasCheckpointer = true)
    (hne : threadId ≠ "") : (acquireSync reg (some threadId) : Host γ _) =
      Host.acquire reg.name (.str threadId) 0 := by
  rw [acquireSync, if_pos (by simp [hcp, hne])]

theorem refusedSync_locked {threadId : String} (hcp : reg.hasCheckpointer = true)
    (hne : threadId ≠ "") (lockToken : Option String) :
    refusedSync reg (some threadId) lockToken = !lockToken.any (· != "") := by
  rw [refusedSync, hcp]
  simp [hne]

theorem acquireSync_unlocked {threadId : Option String} (h : lockThreadIdOf reg threadId = none) :
    (acquireSync reg threadId : Host γ _) = .ret none := by
  cases threadId with
  | none => rfl
  | some threadId =>
    rw [lockThreadIdOf] at h
    split at h
    · cases h
    · next hcp =>
      rw [acquireSync, if_neg (by simp [hcp])]
      rfl

theorem refusedSync_unlocked {threadId : Option String} (h : lockThreadIdOf reg threadId = none)
    (lockToken : Option String) : refusedSync reg threadId lockToken = false := by
  rw [refusedSync]
  cases threadId with
  | none => simp
  | some threadId =>
    rw [lockThreadIdOf] at h
    split at h
    · cases h
    · next hcp => simp [hcp]

theorem lockThreadIdOf_cases (reg : Registration) (threadId : Option String) :
    lockThreadIdOf reg threadId = none ∨
      ∃ t, threadId = some t ∧ reg.hasCheckpointer = true ∧
        lockThreadIdOf reg threadId = some (.str t) := by
  rw [lockThreadIdOf]
  split
  · next hcp =>
    cases threadId with
    | none => exact .inl rfl
    | some t => exact .inr ⟨t, rfl, hcp, rfl⟩
  · exact .inl rfl

theorem guardRunConfig_unlocked (graphName : String) (threadId : Option Json.Value)
    (config : Option (RunConfig γ)) : Host.guardRunConfig graphName threadId none config =
      Host.guardRunConfig graphName none none config := by
  cases threadId <;> rfl

theorem map_inr_andFinally {α β : Type} (p : Host γ α) (cleanup : Host γ Unit)
    (finish : β ⊕ α → Host γ HttpResponse) :
    (Prog.andFinally (.inr <$> p) cleanup >>= finish) =
      p.andFinally cleanup >>= fun outcome => finish (.inr outcome) := by
  rw [map_eq_pure_bind]
  change Prog.andFinally (p.bind fun a => .ret (.inr a)) cleanup >>= finish = _
  rw [Prog.map_andFinally]
  exact bind_assoc ..

theorem same_locked {β : Type} (reg : Registration) (body body' : Option Json.Value → Option String →
      Host γ (HttpResponse ⊕ β)) (refusal : Host γ HttpResponse)
    (finish : HttpResponse ⊕ β → Host γ HttpResponse) (ctx : RunContext)
    {threadId : Option String} (hne : threadId ≠ some "")
    (hfinish : ∀ response, finish (.inl response) = .ret response)
    (hunlocked : ∀ t, body t none = body none none)
    (hbody : ∀ t token, Same policy (body t token) (body' t token)) :
    Same policy (do
      let lockToken ← acquireSync reg threadId
      if refusedSync reg threadId lockToken then refusal
      else
        Host.observe (.started ctx)
        let outcome ← (body (threadId.map .str) lockToken).andFinally
          (releaseSync reg threadId lockToken)
        finish outcome)
      (do
        let outcome ← Host.asyncThreadLock reg.name (lockThreadIdOf reg threadId) 0 fun lockToken =>
          if (lockThreadIdOf reg threadId).isSome && lockToken.isNone then .inl <$> refusal
          else do
            Host.observe (.started ctx)
            body' (lockThreadIdOf reg threadId) lockToken
        finish outcome) := by
  cases lockThreadIdOf_cases reg threadId with
  | inl hnone =>
    rw [acquireSync_unlocked hnone, Prog.ret_bind, refusedSync_unlocked hnone, hnone]
    refine .call fun _ _ => ?_
    change Same policy (Prog.bind (Prog.andFinally _ (releaseSync reg threadId none)) _) _
    have hrelease : (releaseSync reg threadId none : Host γ Unit) = .ret () := by
      cases threadId <;> rfl
    rw [hrelease, Prog.andFinally_ret, hunlocked]
    exact (hbody none none).bind fun _ => .refl _
  | inr h =>
    obtain ⟨t, rfl, hcp, hlock⟩ := h
    have ht : t ≠ "" := fun h => hne (congrArg some h)
    rw [acquireSync_locked hcp ht, hlock]
    refine .call fun answer hanswer => ?_
    cases answer with
    | error e => exact .raise
    | ok lockToken =>
      change Same policy (if refusedSync reg (some t) lockToken then _ else _) _
      rw [refusedSync_locked hcp ht]
      cases lockToken with
      | none =>
        change Same policy refusal (Prog.bind (Prog.andFinally (.inl <$> refusal) (.ret ())) finish)
        rw [Prog.andFinally_ret]
        change Same policy refusal ((.inl <$> refusal) >>= finish)
        rw [map_inl_bind hfinish]
        exact .refl _
      | some token =>
        have htoken : token ≠ "" := fun h => hanswer (by rw [h])
        rw [if_neg (by simp [htoken])]
        exact .call fun _ _ => (hbody _ _).andFinally.bind fun _ => .refl _

theorem begins_locked {refusal : Host γ HttpResponse} {rest : Option String → Host γ HttpResponse}
    {threadId : Option String} :
    Begins (do
      let lockToken ← acquireSync reg threadId
      if refusedSync reg threadId lockToken then refusal
      else
        Host.observe (.started ctx)
        rest lockToken) := by
  have hunlocked (hrefused : refusedSync reg threadId none = false) : Begins (do
      if refusedSync reg threadId none then refusal
      else
        Host.observe (.started ctx)
        rest none) := by
    rw [if_neg (by rw [hrefused]; exact Bool.false_ne_true)]
    exact ⟨_, _, rfl, rfl, fun ctx h => by cases h⟩
  cases threadId with
  | none => exact hunlocked (by simp [refusedSync])
  | some threadId =>
    rw [acquireSync]
    split
    · exact ⟨_, _, rfl, rfl, fun ctx h => by cases h⟩
    · next hcp => exact hunlocked (by simpa [refusedSync] using hcp)

theorem begins_asyncThreadLock {β : Type} {lockThreadId : Option Json.Value}
    {refusal : Host γ HttpResponse} {body : Option String → Host γ (HttpResponse ⊕ β)}
    {finish : HttpResponse ⊕ β → Host γ HttpResponse} :
    Begins (do
      let outcome ← Host.asyncThreadLock reg.name lockThreadId 0 fun lockToken =>
        if lockThreadId.isSome && lockToken.isNone then .inl <$> refusal
        else do
          Host.observe (.started ctx)
          body lockToken
      finish outcome) := by
  cases lockThreadId with
  | none => exact ⟨_, _, rfl, rfl, fun ctx h => by cases h⟩
  | some threadId => exact ⟨_, _, rfl, rfl, fun ctx h => by cases h⟩

theorem invokeOrFail_unlocked (threadId : Option Json.Value) :
    (invokeOrFail reg run threadId none : Host γ _) = invokeOrFail reg run none none := by
  rw [invokeOrFail, invokeOrFail, invokeGraph, invokeGraph, guardRunConfig_unlocked]

theorem same_handleInvoke (h : Twofold reg) (halike : ReadAlike policy env reg req) :
    Same policy (handleInvoke env reg req : Host γ _) (handleInvokeAsync env reg req) := by
  refine Prog.Mirrors.bind (.refl _) fun runId =>
    same_preflight h.invoke rfl rfl (fun _ => rfl) (fun _ => rfl) (fun run hne => ?_) halike
  exact same_locked reg (invokeOrFail reg run) (invokeOrFail reg run)
    (reject run.ctx .lockContention (lockContention run.threadId)) (finishInvoke run.ctx) run.ctx
    hne (fun _ => rfl) invokeOrFail_unlocked fun _ _ => .refl _

theorem readAlike_handleInvoke (h : (handleInvoke env reg req : Host γ _).Agree (Lawful policy)
    isClose (handleInvokeAsync env reg req)) : ReadAlike policy env reg req := by
  obtain ⟨runId, h⟩ := agree_of_requestId h
  exact readAlike_of_agree rfl rfl (fun _ => rfl) (fun _ => rfl) (fun run => begins_locked)
    (fun run => begins_asyncThreadLock) h

theorem streamEvents_unlocked (fuel : Nat) (threadId : Option Json.Value) :
    (streamEvents fuel env reg run threadId none : Host γ _) =
      streamEvents fuel env reg run none none := by
  rw [streamEvents, streamEvents, guardRunConfig_unlocked]

def streamed (fuel : Nat) (env : Env) (reg : Registration) (run : Ready)
    (threadId : Option Json.Value) (lockToken : Option String) :
    Host γ (Buffer × Option Exn) := do
  let streamed ← streamEvents fuel env reg run threadId lockToken
  .ofExcept (exceptStream env run.ctx streamed)

def streamedClosed (fuel : Nat) (env : Env) (reg : Registration) (run : Ready)
    (lockThreadId : Option Json.Value) (lockToken : Option String) :
    Host γ (HttpResponse ⊕ (Buffer × Option Exn)) := do
  let streamed ← streamEvents fuel env reg run lockThreadId lockToken
  if streamed.opened then (Host.perform .close).bind .ofExcept
  .inr <$> .ofExcept (exceptStream env run.ctx streamed)

theorem same_streamed (fuel : Nat) (threadId : Option Json.Value) (lockToken : Option String) :
    Same policy ((.inr <$> streamed fuel env reg run threadId lockToken :
        Host γ (HttpResponse ⊕ (Buffer × Option Exn))))
      (streamedClosed fuel env reg run threadId lockToken) := by
  rw [streamed, map_bind]
  refine Prog.Mirrors.bind (.refl _) fun streamed => ?_
  cases hopened : streamed.opened with
  | false => exact .refl _
  | true =>
    refine .hidden rfl ⟨.ok (), rfl⟩ fun answer hanswer => ?_
    rw [show answer = .ok () from hanswer]
    exact .refl _

theorem same_handleStream (fuel : Nat) (h : Twofold reg)
    (halike : reg.streamEnabled → reg.isStreamable → ReadAlike policy env reg req) :
    Same policy (handleStream fuel env reg req : Host γ _) (handleStreamAsync fuel env reg req) := by
  refine Prog.Mirrors.bind (.refl _) fun runId => ?_
  dsimp only
  rw [← h.streamable]
  split
  · exact .refl _
  · next henabled =>
    split
    · exact .refl _
    · next hstreamable =>
      refine same_preflight h.stream rfl rfl (fun _ => rfl) (fun _ => rfl) (fun run hne => ?_)
        (halike (by simpa using henabled) (by simpa using hstreamable))
      have hunlocked (t : Option Json.Value) :
          (.inr <$> streamed fuel env reg run t none : Host γ (HttpResponse ⊕ _)) =
            .inr <$> streamed fuel env reg run none none := by
        rw [streamed, streamed, streamEvents_unlocked]
      have hsame : Same policy _ _ := same_locked reg
        (fun t token => .inr <$> streamed fuel env reg run t token) (streamedClosed fuel env reg run)
        (reject run.ctx .lockContention (lockContention run.threadId)) (finishStream run.ctx)
        run.ctx hne (fun _ => rfl) hunlocked (same_streamed fuel)
      simp only [map_inr_andFinally] at hsame
      exact hsame

theorem readAlike_handleStream {fuel : Nat} (h : Twofold reg) (henabled : reg.streamEnabled)
    (hstreamable : reg.isStreamable) (hagree : (handleStream fuel env reg req : Host γ _).Agree
      (Lawful policy) isClose (handleStreamAsync fuel env reg req)) :
    ReadAlike policy env reg req := by
  obtain ⟨runId, hagree⟩ := agree_of_requestId hagree
  dsimp only at hagree
  rw [← h.streamable, henabled, hstreamable] at hagree
  exact readAlike_of_agree rfl rfl (fun _ => rfl) (fun _ => rfl) (fun run => begins_locked)
    (fun run => begins_asyncThreadLock) hagree

/-- The handlers of each endpoint are seen to do the same (the same operations on the lock, the graph
and the observer in the same order with the same answers, and the same response or exception) just
where both read the authorizer's answer alike, if it comes to that. -/
theorem handlers_agree_iff (h : Twofold reg) (policy : Policy) (env : Env) (req : HttpRequest) :
    ((handleInvoke env reg req : Host γ _).Agree (Lawful policy) isClose
        (handleInvokeAsync env reg req) ↔ ReadAlike policy env reg req) ∧
      ∀ fuel, (handleStream fuel env reg req : Host γ _).Agree (Lawful policy) isClose
        (handleStreamAsync fuel env reg req) ↔
          (reg.streamEnabled → reg.isStreamable → ReadAlike policy env reg req) :=
  ⟨⟨readAlike_handleInvoke, fun halike => (same_handleInvoke h halike).agree⟩, fun fuel =>
    ⟨fun hagree henabled hstreamable => readAlike_handleStream h henabled hstreamable hagree,
      fun halike => (same_handleStream fuel h halike).agree⟩⟩

def savedAgent : Registration := ⟨"agent", true, true, true, true, true, [], fun _ => false⟩

def threadConfig : JsonObject := Dict.ofList [(configurableKey, .dict [(threadIdKey, .str "t")])]

def threadEnv : Env := ⟨fun _ => .ok ⟨∅, some threadConfig, none, "values"⟩, ⟨100, 8, 100, 100⟩,
  "in_process", true⟩

def threadRequest : HttpRequest := ⟨some "r", 12, some (.dict [])⟩

def answers (permission : Permission) : (o : Host.Op Unit) → Option o.Ans
  | .observe _ => some ()
  | .authorize .. => some (.ok (.returned permission))
  | .acquire .. => some (.ok (some "k"))
  | .release .. => some (.ok ())
  | .ownershipGuard .. => some (.ok none)
  | .invoke _ => some (.ok ⟨.dict [], false, false⟩)
  | .dumps _ => some (.ok "\x7b\"output\": \x7b\x7d\x7d")
  | _ => none

def returning (permission : Permission) : Policy := fun _ _ => .ok (.returned permission)

theorem lawful_answers {permission : Permission} (o : Host.Op Unit) (a : o.Ans)
    (h : answers permission o = some a) : Lawful (returning permission) o a := by
  cases o with
  | authorize graphName threadId => exact (Option.some.inj h).symm
  | acquire graphName threadId timeout =>
    cases h
    exact fun heq => absurd (Option.some.inj (Except.ok.inj heq)) (by decide)
  | close => cases h
  | _ => trivial

theorem handlers_agree_iff_lockedThread : ∃ w response,
    (handleInvokeAsync threadEnv savedAgent threadRequest : Host Unit _).Yields
        (Lawful (returning (.bool true))) w (.ok response) ∧
      response.statusCode = 200 ∧ (Prog.visible isClose w).length = 8 := by
  obtain ⟨w, response, hrun, hstatus, hlength⟩ : ∃ w response,
      (handleInvoke threadEnv savedAgent threadRequest).answered (answers (.bool true)) =
        some (w, .ok response) ∧ response.statusCode = 200 ∧ (Prog.visible isClose w).length = 8 :=
    ⟨_, _, rfl, rfl, rfl⟩
  have halike : ReadAlike (returning (.bool true)) threadEnv savedAgent threadRequest :=
    fun _ _ => rfl
  obtain ⟨w', hw', hvisible⟩ := (((handlers_agree_iff ⟨rfl, rfl, rfl⟩ (returning (.bool true))
    threadEnv threadRequest).1.mpr halike) _ _).mp ⟨w, Prog.yields_answered lawful_answers hrun, rfl⟩
  exact ⟨w', response, hw', hstatus, hvisible ▸ hlength⟩

/-- An authorizer that answers `1`: the one handler refuses with 500, the other runs the graph. -/
theorem not_agree_truthy :
    (¬ ∀ (policy : Policy) (env : Env) (reg : Registration) (req : HttpRequest), Twofold reg →
      (handleInvoke env reg req : Host Unit _).Agree (Lawful policy) isClose
        (handleInvokeAsync env reg req)) ∧
    ∃ w w' response response',
      (handleInvoke threadEnv savedAgent threadRequest : Host Unit _).Yields
        (Lawful (returning (.object (.ok true)))) w (.ok response) ∧ response.statusCode = 500 ∧
      (handleInvokeAsync threadEnv savedAgent threadRequest : Host Unit _).Yields
        (Lawful (returning (.object (.ok true)))) w' (.ok response') ∧ response'.statusCode = 200 := by
  refine ⟨fun h => ?_, ?_⟩
  · have halike := readAlike_handleInvoke (h (returning (.object (.ok true))) threadEnv savedAgent
      threadRequest ⟨rfl, rfl, rfl⟩) (some "t") rfl
    cases halike
  · obtain ⟨w, response, hrun, hstatus⟩ : ∃ w response,
        (handleInvoke threadEnv savedAgent threadRequest).answered (answers (.object (.ok true))) =
          some (w, .ok response) ∧ response.statusCode = 500 := ⟨_, _, rfl, rfl⟩
    obtain ⟨w', response', hrun', hstatus'⟩ : ∃ w response,
        (handleInvokeAsync threadEnv savedAgent threadRequest).answered
          (answers (.object (.ok true))) = some (w, .ok response) ∧ response.statusCode = 200 :=
      ⟨_, _, rfl, rfl⟩
    exact ⟨w, w', response, response', Prog.yields_answered lawful_answers hrun, hstatus,
      Prog.yields_answered lawful_answers hrun', hstatus'⟩

end LangGraphFunctions.Native

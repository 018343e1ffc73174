import LangGraphFunctions.Durable.Activity
import LangGraphFunctions.Native.Handlers
import LangGraphFunctions.Triggers.ServiceBus

/-! The observer events of a run, from the handlers that answer when the run is over. -/

namespace LangGraphFunctions.Lifecycle

open Lib Prog

variable {γ α : Type}

/-- What matters of an operation for the lifecycle of its run: an observer event, an exception that
ends the block of the run, or one of its cleanup. -/
inductive Mark
  | event (e : RunEvent)
  | failure (exc : Raised Exn)
  | cleanupFailure (exc : Raised Exn)

def mark : (o : Host.Op γ) × o.Ans → List Mark
  | ⟨.observe e, _⟩ => [.event e]
  | ⟨.ownershipGuard .., .error exc⟩ => [.failure exc]
  | ⟨.check _, .error exc⟩ => [.failure exc]
  | ⟨.invoke _, .error exc⟩ => [.failure exc]
  | ⟨.stream _, .error exc⟩ => [.failure exc]
  | ⟨.next, .error exc⟩ => [.failure exc]
  | ⟨.dumps _, .error exc⟩ => [.failure exc]
  | ⟨.str _, .error exc⟩ => [.failure exc]
  | ⟨.modelDump _, .error exc⟩ => if exc.isException then [] else [.failure exc]
  | ⟨.asdict _, .error exc⟩ => if exc.isException then [] else [.failure exc]
  | ⟨.release .., .error exc⟩ => [.cleanupFailure exc]
  | ⟨.close, .error exc⟩ => [.cleanupFailure exc]
  | _ => []

def Mark.event? : Mark → Option RunEvent
  | .event e => some e
  | _ => none

def Mark.failure? : Mark → Option (Raised Exn)
  | .failure exc => some exc
  | _ => none

def Mark.cleanupFailure? : Mark → Option (Raised Exn)
  | .cleanupFailure exc => some exc
  | _ => none

/-- The event traces of a run. -/
inductive Grammar : List RunEvent → Prop
  | nothing : Grammar []
  | rejected (ctx : RunContext) (reason : RunRejectedReason) : Grammar [.rejected ctx reason]
  | completed (ctx ctx' : RunContext) : Grammar [.started ctx, .completed ctx']
  | failed (ctx ctx' : RunContext) (exc : Raised Exn) : Grammar [.started ctx, .failed ctx' exc]

def events (u : List Mark) : List RunEvent := u.filterMap Mark.event?
def failures (u : List Mark) : List (Raised Exn) := u.filterMap Mark.failure?
def cleanupFailures (u : List Mark) : List (Raised Exn) := u.filterMap Mark.cleanupFailure?

def InvokeClean (u : List Mark) : Prop :=
  (∀ exc ∈ failures u, exc.isException) ∧ (cleanupFailures u ≠ [] → failures u ≠ [])

def StreamClean (u : List Mark) : Prop :=
  (∀ exc ∈ failures u, exc.isException) ∧ cleanupFailures u = []

abbrev Leaves (p : Host γ α) (S : Host.Result α → List Mark → Prop) : Prop :=
  p.Writes Host.Answers mark S

def cleanups (excs : List (Raised Exn)) : List Mark := excs.map .cleanupFailure

@[simp] theorem events_cleanups (excs : List (Raised Exn)) : events (cleanups excs) = [] := by
  simp [events, cleanups, List.filterMap_map, Function.comp_def, Mark.event?]

@[simp] theorem failures_cleanups (excs : List (Raised Exn)) : failures (cleanups excs) = [] := by
  simp [failures, cleanups, List.filterMap_map, Function.comp_def, Mark.failure?]

@[simp] theorem cleanupFailures_cleanups (excs : List (Raised Exn)) :
    cleanupFailures (cleanups excs) = excs := by
  simp [cleanupFailures, cleanups, List.filterMap_map, Function.comp_def, Mark.cleanupFailure?]

@[simp] theorem events_append (u v : List Mark) : events (u ++ v) = events u ++ events v :=
  List.filterMap_append

@[simp] theorem failures_append (u v : List Mark) : failures (u ++ v) = failures u ++ failures v :=
  List.filterMap_append

@[simp] theorem cleanupFailures_append (u v : List Mark) :
    cleanupFailures (u ++ v) = cleanupFailures u ++ cleanupFailures v := List.filterMap_append

def Silent (_ : Host.Result α) (u : List Mark) : Prop := u = []

def BlockEnds : Host.Result α → List Mark → Prop
  | .ok _, u => u = []
  | .error exc, u => u = [.failure exc]

def CleanupEnds : Host.Result Unit → List Mark → Prop
  | .ok _, u => u = []
  | .error exc, u => u = [.cleanupFailure exc]

variable {β : Type}

theorem silent_bind {p : Host γ α} {f : α → Host γ β} {T : Host.Result β → List Mark → Prop}
    (h : Leaves p Silent) (hf : ∀ a, Leaves (f a) T) (herror : ∀ e, T (.error e) []) :
    Leaves (p >>= f) T := by
  refine writes_bind h (fun a u hu => ?_) fun e u hu => ?_
  · cases hu
    exact hf a
  · cases hu
    exact herror e

theorem block_bind {p : Host γ α} {f : α → Host γ β} (h : Leaves p BlockEnds)
    (hf : ∀ a, Leaves (f a) BlockEnds) : Leaves (p >>= f) BlockEnds := by
  refine writes_bind h (fun a u hu => ?_) fun e u hu => hu
  cases hu
  exact hf a

theorem observe_bind {e : RunEvent} {f : Unit → Host γ α} {S : Host.Result α → List Mark → Prop}
    (h : (f ()).Writes Host.Answers mark fun r u => S r (.event e :: u)) :
    Leaves (Host.observe e >>= f) S :=
  fun _ _ => h

theorem acquire_silent {graphName : String} {threadId : Json.Value} {timeout : Rat} :
    Leaves (γ := γ) (Host.acquire graphName threadId timeout) Silent := by
  rintro (_ | _) - <;> rfl

theorem release_ends {graphName : String} {threadId : Json.Value} {token : String} :
    Leaves (γ := γ) (Host.release graphName threadId token) CleanupEnds := by
  rintro (_ | _) - <;> rfl

theorem invoke_ends {call : GraphCall γ} : Leaves (Host.invoke call) BlockEnds := by
  rintro (_ | _) - <;> rfl

theorem dumps_ends {value : Json.Value} : Leaves (γ := γ) (Host.dumps value) BlockEnds := by
  rintro (_ | _) - <;> rfl

theorem checkOwnershipGuard_ends {guard : Option γ} :
    Leaves (Host.checkOwnershipGuard guard) BlockEnds := by
  cases guard with
  | none => rfl
  | some guard => rintro (_ | _) - <;> rfl

theorem guardRunConfig_ends {graphName : String} {threadId : Option Json.Value}
    {token : Option String} {config : Option (Platform.RunConfig γ)} :
    Leaves (Host.guardRunConfig graphName threadId token config) BlockEnds := by
  refine block_bind ?_ fun _ => rfl
  cases threadId with
  | none => rfl
  | some threadId =>
    cases token with
    | none => rfl
    | some token =>
      rw [Host.ownershipGuardFor]
      split
      · rfl
      · rintro (_ | _) - <;> rfl

inductive Refused : List Mark → Prop
  | nothing : Refused []
  | rejected (ctx : RunContext) (reason : RunRejectedReason) :
      Refused [.event (.rejected ctx reason)]

section Preflight

open Native

variable {env : Env} {reg : Registration} {req : HttpRequest} {method : Method}
  {withStreamMode : Bool} {ctx : RunContext}

def PreflightEnds : Host.Result (HttpResponse ⊕ Ready) → List Mark → Prop
  | .ok (.inr _), u => u = []
  | _, u => Refused u

theorem reject_refused {reason : RunRejectedReason} {response : ErrorResponse} :
    Leaves (γ := γ) (reject ctx reason response) fun _ u => Refused u :=
  fun _ _ => .rejected ctx reason

theorem reject_inl {reason : RunRejectedReason} {response : ErrorResponse} :
    Leaves (γ := γ) ((.inl : HttpResponse → HttpResponse ⊕ β) <$> reject ctx reason response)
      fun r u => (∃ response, r = .ok (.inl response)) ∧ Refused u :=
  fun _ _ => ⟨⟨_, rfl⟩, .rejected ctx reason⟩

theorem reject_preflight {reason : RunRejectedReason} {response : ErrorResponse} :
    Leaves (γ := γ) (.inl <$> reject ctx reason response) PreflightEnds :=
  fun _ _ => .rejected ctx reason

theorem requestIdFromHeaders_silent : Leaves (γ := γ) (requestIdFromHeaders req) Silent := by
  rw [requestIdFromHeaders]
  split
  · split
    · rfl
    · exact fun _ _ => rfl
  · exact fun _ _ => rfl

theorem authorizationStatus_silent {authorize : Bool} {threadId : Option String} :
    Leaves (γ := γ) (method.authorizationStatus authorize reg threadId) Silent := by
  have hask (status : Host.Result Verdict → Host.Result (Option Nat)) :
      Leaves (γ := γ) (askAuthorizer status authorize reg threadId) Silent := by
    rw [askAuthorizer]
    split
    · exact fun _ _ => writes_ofExcept rfl
    · rfl
  cases method <;> exact hask _

theorem preflight_ends :
    Leaves (γ := γ) (preflight env reg req method withStreamMode ctx) PreflightEnds := by
  rw [preflight]
  split
  · exact reject_preflight
  · simp only
    split
    · exact reject_preflight
    · refine silent_bind authorizationStatus_silent (fun status => ?_) fun _ => .nothing
      rw [proceed.eq_def]
      split
      · exact reject_preflight
      · split
        · exact reject_preflight
        · exact rfl

theorem acquireSync_silent {threadId : Option String} :
    Leaves (γ := γ) (acquireSync reg threadId) Silent := by
  cases threadId with
  | none => rfl
  | some threadId =>
    change Leaves (if _ then _ else _) _
    split
    · exact acquire_silent
    · rfl

theorem releaseSync_ends {threadId lockToken : Option String} :
    Leaves (γ := γ) (releaseSync reg threadId lockToken) CleanupEnds := by
  cases lockToken with
  | none => cases threadId <;> rfl
  | some lockToken =>
    cases threadId with
    | none => rfl
    | some threadId => exact release_ends

variable {run : Ready} {lockThreadId : Option Json.Value} {lockToken : Option String}

theorem tryDump_ends {applies : Bool} {dump : Host γ Json.Value}
    (h : Leaves dump fun r u => match r with
      | .ok _ => u = []
      | .error exc => u = if exc.isException then [] else [.failure exc]) :
    Leaves (tryDump applies dump) BlockEnds := by
  rw [tryDump]
  split
  · refine writes_handle (writes_bind h (T := fun r u => match r with
      | .ok _ => u = []
      | .error exc => u = if exc.isException then [] else [.failure exc])
      (fun _ u hu => hu.symm ▸ rfl) fun e u hu => hu) (fun _ u hu => hu) ?_
    intro e u hu
    cases e with
    | exception exc =>
      cases hu
      rfl
    | _ =>
      cases hu
      rfl
  · rfl

theorem serializeGraphOutput_ends {result : GraphOutput} :
    Leaves (γ := γ) (serializeGraphOutput result) BlockEnds := by
  rw [serializeGraphOutput]
  split
  · rfl
  · refine block_bind (tryDump_ends ?_) fun dumped => ?_
    · rintro (e | _) -
      · cases e <;> rfl
      · rfl
    · cases dumped with
      | some v => rfl
      | none =>
        refine block_bind (tryDump_ends ?_) fun dumped => ?_
        · rintro (e | _) -
          · cases e <;> rfl
          · rfl
        · cases dumped with
          | some v => rfl
          | none => rintro (_ | _) - <;> rfl

theorem invokeGraph_ends :
    Leaves (γ := γ) (invokeGraph reg run lockThreadId lockToken) BlockEnds :=
  block_bind guardRunConfig_ends fun _ => block_bind invoke_ends fun _ =>
    block_bind checkOwnershipGuard_ends fun _ => block_bind serializeGraphOutput_ends fun _ =>
      dumps_ends

inductive InvokeEnds : Host.Result (HttpResponse ⊕ String) → List Mark → Prop
  | body (body : String) : InvokeEnds (.ok (.inr body)) []
  | failed (response : HttpResponse) (ctx : RunContext) (exc : Exn) : InvokeEnds (.ok (.inl response))
      [.failure (.exception exc), .event (.failed ctx (.exception exc))]
  | escaped (exc : Raised Exn) : exc.isException = false → InvokeEnds (.error exc) [.failure exc]

theorem invokeOrFail_ends :
    Leaves (γ := γ) (invokeOrFail reg run lockThreadId lockToken) InvokeEnds := by
  refine writes_handle (writes_bind invokeGraph_ends (T := fun r u => match r with
    | .ok out => u = [] ∧ ∃ body, out = .inr body
    | .error exc => u = [.failure exc]) ?_ fun e u hu => hu) ?_ ?_
  · rintro body u rfl
    exact ⟨rfl, body, rfl⟩
  · rintro _ u ⟨rfl, body, rfl⟩
    exact .body body
  · rintro e u hu
    cases hu
    cases e with
    | exception exc => exact fun _ _ => .failed _ run.ctx exc
    | _ => exact .escaped _ rfl

inductive InvokeRun : List Mark → Prop
  | completed (ctx ctx' : RunContext) : InvokeRun [.event (.started ctx), .event (.completed ctx')]
  | lost (ctx : RunContext) (exc : Raised Exn) :
      InvokeRun [.event (.started ctx), .cleanupFailure exc]
  | failed (ctx ctx' : RunContext) (exc : Exn) (excs : List (Raised Exn)) :
      InvokeRun ([.event (.started ctx), .failure (.exception exc),
        .event (.failed ctx' (.exception exc))] ++ cleanups excs)
  | escaped (ctx : RunContext) (exc : Raised Exn) (excs : List (Raised Exn)) :
      exc.isException = false →
      InvokeRun ([.event (.started ctx), .failure exc] ++ cleanups excs)

def InvokeHandlerEnds (_ : Host.Result HttpResponse) (u : List Mark) : Prop :=
  Refused u ∨ InvokeRun u

def InvokeLockedEnds : Host.Result (HttpResponse ⊕ String) → List Mark → Prop
  | .ok (.inr _), u => ∃ ctx, u = [.event (.started ctx)]
  | _, u => Refused u ∨ InvokeRun u

theorem startedInvoke_ends {cleanup : Host γ Unit} (hcleanup : Leaves cleanup CleanupEnds) :
    Leaves (do
      Host.observe (.started ctx)
      (invokeOrFail reg run lockThreadId lockToken).andFinally cleanup) InvokeLockedEnds := by
  refine observe_bind (writes_andFinally invokeOrFail_ends hcleanup ?_ ?_)
  · rintro r u v hr hv
    cases hv
    rw [List.append_nil]
    cases hr with
    | body body => exact ⟨ctx, rfl⟩
    | failed response ctx' exc => exact .inr (.failed ctx ctx' exc [])
    | escaped exc h => exact .inr (.escaped ctx exc [] h)
  · rintro r e u v hr hv
    cases hv
    cases hr with
    | body body => exact .inr (.lost ctx e)
    | failed response ctx' exc => exact .inr (.failed ctx ctx' exc [e])
    | escaped exc h => exact .inr (.escaped ctx exc [e] h)

theorem finishInvoke_ends {outcome : HttpResponse ⊕ String} {u : List Mark}
    (hu : InvokeLockedEnds (.ok outcome) u) :
    (finishInvoke ctx outcome : Host γ HttpResponse).Writes Host.Answers mark
      fun r v => InvokeHandlerEnds r (u ++ v) := by
  cases outcome with
  | inl response =>
    change InvokeHandlerEnds (.ok response) (u ++ [])
    rwa [List.append_nil]
  | inr body =>
    obtain ⟨started, rfl⟩ := hu
    exact fun _ _ => .inr (.completed started ctx)

theorem handleInvoke_ends :
    Leaves (γ := γ) (handleInvoke env reg req) InvokeHandlerEnds := by
  refine silent_bind requestIdFromHeaders_silent (fun runId => ?_) fun _ => .inl .nothing
  refine writes_bind preflight_ends (fun out u hu => ?_) fun e u hu => .inl hu
  cases out with
  | inl response => exact .inl (by rw [List.append_nil]; exact hu)
  | inr run =>
    cases hu
    refine silent_bind acquireSync_silent (fun lockToken => ?_) fun _ => .inl .nothing
    split
    · exact reject_refused.mono fun _ _ => .inl
    · change Leaves ((do
        Host.observe (.started run.ctx)
        (invokeOrFail reg run (run.threadId.map .str) lockToken).andFinally
          (releaseSync reg run.threadId lockToken)) >>= finishInvoke run.ctx) _
      exact writes_bind (startedInvoke_ends releaseSync_ends) (fun _ _ => finishInvoke_ends)
        fun _ _ hu => hu

theorem asyncThreadLock_ends {graphName : String} {threadId : Option Json.Value} {timeout : Rat}
    {body : Option String → Host γ α} {T : Host.Result α → List Mark → Prop}
    (hnone : Leaves (body none) T)
    (hsome : ∀ token (cleanup : Host γ Unit), Leaves cleanup CleanupEnds →
      Leaves ((body (some token)).andFinally cleanup) T)
    (herror : ∀ e, T (.error e) []) :
    Leaves (Host.asyncThreadLock graphName threadId timeout body) T := by
  cases threadId with
  | none => exact hnone
  | some threadId =>
    refine silent_bind acquire_silent (fun token => ?_) herror
    cases token with
    | none =>
      refine writes_andFinally hnone (U := fun r v => r = .ok () ∧ v = []) ⟨rfl, rfl⟩ ?_ ?_
      · rintro r u v hu ⟨-, rfl⟩
        rwa [List.append_nil]
      · rintro r e u v hu ⟨⟨⟩, -⟩
    | some token => exact hsome token _ release_ends

theorem invokeLocked_none_ends :
    Leaves (γ := γ) (invokeLocked reg run lockThreadId none) InvokeLockedEnds := by
  rw [invokeLocked]
  split
  · refine reject_inl.mono ?_
    rintro _ u ⟨⟨response, rfl⟩, hu⟩
    exact .inl hu
  · refine observe_bind (invokeOrFail_ends.mono fun r u hu => ?_)
    cases hu with
    | body body => exact ⟨_, rfl⟩
    | failed response ctx' exc => exact .inr (.failed _ ctx' exc [])
    | escaped exc h => exact .inr (.escaped _ exc [] h)

theorem handleInvokeAsync_ends :
    Leaves (γ := γ) (handleInvokeAsync env reg req) InvokeHandlerEnds := by
  refine silent_bind requestIdFromHeaders_silent (fun runId => ?_) fun _ => .inl .nothing
  refine writes_bind preflight_ends (fun out u hu => ?_) fun e u hu => .inl hu
  cases out with
  | inl response => exact .inl (by rw [List.append_nil]; exact hu)
  | inr run =>
    cases hu
    refine writes_bind (asyncThreadLock_ends invokeLocked_none_ends (fun token cleanup h => ?_)
      fun _ => .inl .nothing) (fun _ _ => finishInvoke_ends) fun _ _ hu => hu
    rw [invokeLocked, if_neg (by simp)]
    exact startedInvoke_ends h

variable {fuel maxBytes : Nat} {runId : String} {buffer : Buffer}

def OutcomeEnds {β : Type} (outcome : Host.Result β) (u : List Mark) : Prop :=
  match outcome with
  | .ok _ => u = []
  | .error exc => u = [.failure exc]

theorem collect_ends : Leaves (γ := γ) (collect maxBytes runId fuel buffer) fun r u =>
    ∃ out, r = .ok out ∧ OutcomeEnds out.2 u := by
  induction fuel generalizing buffer with
  | zero => exact fun never => nomatch never
  | succ fuel ih =>
    rintro (e | _ | event) -
    · exact ⟨_, rfl, rfl⟩
    · exact ⟨_, rfl, rfl⟩
    · rintro (e | serialized) -
      · exact ⟨_, rfl, rfl⟩
      · simp only [Prog.bind]
        generalize appendChunk maxBytes runId buffer (dataFrame serialized) = appended
        obtain ⟨fits, buffer'⟩ := appended
        cases fits with
        | false => exact ⟨_, rfl, rfl⟩
        | true => exact ih

theorem attempt_ends {p : Host γ β} (h : Leaves p BlockEnds) :
    Leaves p.attempt fun r u => ∃ outcome, r = .ok outcome ∧ OutcomeEnds outcome u := by
  refine writes_attempt h fun r u hr => ⟨r, rfl, ?_⟩
  cases r <;> exact hr

theorem streamEvents_ends :
    Leaves (γ := γ) (streamEvents fuel env reg run lockThreadId lockToken) fun r u =>
      ∃ streamed, r = .ok streamed ∧ OutcomeEnds streamed.outcome u := by
  refine writes_bind (attempt_ends guardRunConfig_ends) ?_ fun e u h => ?_
  · rintro outcome u ⟨_, ⟨⟩, hu⟩
    cases outcome with
    | error e => exact ⟨_, rfl, by rw [List.append_nil]; exact hu⟩
    | ok guarded =>
      cases hu
      rintro (e | _) -
      · exact ⟨_, rfl, rfl⟩
      · change Leaves (collect env.limits.maxStreamResponseBytes run.ctx.runId fuel ⟨[], 0⟩ >>= _) _
        refine writes_bind collect_ends ?_ fun e u h => ?_
        · rintro ⟨buffer, e | (_ | _)⟩ u ⟨_, ⟨⟩, hu⟩
          · exact ⟨_, rfl, by rw [List.append_nil]; exact hu⟩
          · exact ⟨_, rfl, by rw [List.append_nil]; exact hu⟩
          · cases hu
            refine writes_bind (attempt_ends checkOwnershipGuard_ends) ?_ fun e u h => ?_
            · rintro (e | _) u ⟨_, ⟨⟩, hu⟩ <;> exact ⟨_, rfl, by rw [List.append_nil]; exact hu⟩
            · obtain ⟨_, h, -⟩ := h
              exact nomatch h
        · obtain ⟨_, h, -⟩ := h
          exact nomatch h
  · obtain ⟨_, h, -⟩ := h
    exact nomatch h

inductive StreamEnds : Host.Result (Buffer × Option Exn) → List Mark → Prop
  | finished (out : Buffer × Option Exn) : StreamEnds (.ok out) []
  | failed (buffer : Buffer) (exc : Exn) :
      StreamEnds (.ok (buffer, some exc)) [.failure (.exception exc)]
  | escaped (exc : Raised Exn) : exc.isException = false → StreamEnds (.error exc) [.failure exc]

theorem exceptStream_ends {streamed : Streamed} {u : List Mark}
    (h : OutcomeEnds streamed.outcome u) : StreamEnds (exceptStream env ctx streamed) u := by
  obtain ⟨buffer, opened, outcome⟩ := streamed
  cases outcome with
  | ok streamError =>
    cases h
    exact .finished _
  | error e =>
    cases h
    cases e with
    | exception exc => exact .failed _ exc
    | _ => exact .escaped _ rfl

inductive StreamRun : List Mark → Prop
  | completed (ctx ctx' : RunContext) : StreamRun [.event (.started ctx), .event (.completed ctx')]
  | failed (ctx ctx' : RunContext) (raised : Option Exn) (exc : Exn) :
      StreamRun (.event (.started ctx) :: (raised.toList.map fun e => .failure (.exception e)) ++
        [.event (.failed ctx' (.exception exc))])
  | lost (ctx : RunContext) (raised : Option (Raised Exn)) (exc : Raised Exn)
      (excs : List (Raised Exn)) :
      StreamRun (.event (.started ctx) :: raised.toList.map .failure ++ cleanups (exc :: excs))
  | escaped (ctx : RunContext) (exc : Raised Exn) (excs : List (Raised Exn)) :
      exc.isException = false →
      StreamRun ([.event (.started ctx), .failure exc] ++ cleanups excs)

def StreamHandlerEnds (_ : Host.Result HttpResponse) (u : List Mark) : Prop :=
  Refused u ∨ StreamRun u

inductive StreamLockedEnds : Host.Result (Buffer × Option Exn) → List Mark → Prop
  | finished (ctx : RunContext) (out : Buffer × Option Exn) :
      StreamLockedEnds (.ok out) [.event (.started ctx)]
  | failed (ctx : RunContext) (buffer : Buffer) (exc : Exn) :
      StreamLockedEnds (.ok (buffer, some exc)) [.event (.started ctx), .failure (.exception exc)]
  | raised (exc : Raised Exn) (u : List Mark) : StreamRun u → StreamLockedEnds (.error exc) u

theorem StreamEnds.locked {r : Host.Result (Buffer × Option Exn)} {u : List Mark}
    (h : StreamEnds r u) : StreamLockedEnds r (.event (.started ctx) :: u) := by
  cases h with
  | finished out => exact .finished ctx out
  | failed buffer exc => exact .failed ctx buffer exc
  | escaped exc h => exact .raised exc _ (.escaped ctx exc [] h)

theorem StreamEnds.lost {r : Host.Result (Buffer × Option Exn)} {u : List Mark}
    (h : StreamEnds r u) (exc : Raised Exn) (excs : List (Raised Exn)) :
    StreamRun (.event (.started ctx) :: (u ++ cleanups (exc :: excs))) := by
  cases h with
  | finished out => exact .lost ctx none exc excs
  | failed buffer e => exact .lost ctx (some (.exception e)) exc excs
  | escaped e h => exact .lost ctx (some e) exc excs

theorem finishStream_ends {out : Buffer × Option Exn} {u : List Mark}
    (hu : StreamLockedEnds (.ok out) u) :
    (finishStream ctx (.inr out) : Host γ HttpResponse).Writes Host.Answers mark
      fun r v => StreamHandlerEnds r (u ++ v) := by
  cases hu with
  | finished started out =>
    obtain ⟨buffer, streamError⟩ := out
    cases streamError with
    | none => exact fun _ _ => .inr (.completed started ctx)
    | some exc => exact fun _ _ => .inr (.failed started ctx none exc)
  | failed started buffer exc => exact fun _ _ => .inr (.failed started ctx (some exc) exc)

theorem handleStream_ends :
    Leaves (γ := γ) (handleStream fuel env reg req) StreamHandlerEnds := by
  refine silent_bind requestIdFromHeaders_silent (fun runId => ?_) fun _ => .inl .nothing
  split
  · exact reject_refused.mono fun _ _ => .inl
  · split
    · exact reject_refused.mono fun _ _ => .inl
    · refine writes_bind preflight_ends (fun out u hu => ?_) fun e u hu => .inl hu
      cases out with
      | inl response => exact .inl (by rw [List.append_nil]; exact hu)
      | inr run =>
        cases hu
        refine silent_bind acquireSync_silent (fun lockToken => ?_) fun _ => .inl .nothing
        split
        · exact reject_refused.mono fun _ _ => .inl
        · have hblock : Leaves (γ := γ) (do
              let streamed ← streamEvents fuel env reg run (run.threadId.map .str) lockToken
              .ofExcept (exceptStream env run.ctx streamed)) StreamEnds := by
            refine writes_bind streamEvents_ends ?_ ?_
            · rintro streamed u ⟨_, ⟨⟩, hu⟩
              refine writes_ofExcept ?_
              rw [List.append_nil]
              exact exceptStream_ends hu
            · rintro e u ⟨_, h, -⟩
              exact nomatch h
          refine observe_bind (writes_bind (writes_andFinally hblock releaseSync_ends
            (V := fun r u => StreamLockedEnds r (.event (.started run.ctx) :: u)) ?_ ?_)
            (fun _ _ => finishStream_ends) ?_)
          · rintro r u v hu ⟨⟩
            rw [List.append_nil]
            exact hu.locked
          · rintro r e u v hu ⟨⟩
            exact .raised e _ (hu.lost e [])
          · rintro e u (_ | _ | ⟨e, u, h⟩)
            exact .inr h

inductive ClosedEnds : Host.Result (HttpResponse ⊕ (Buffer × Option Exn)) → List Mark → Prop
  | closed (r : Host.Result (Buffer × Option Exn)) (u : List Mark) : StreamEnds r u →
      ClosedEnds (r.map .inr) u
  | raised (exc : Raised Exn) (r : Host.Result (Buffer × Option Exn)) (u : List Mark) :
      StreamEnds r u → ClosedEnds (.error exc) (u ++ [.cleanupFailure exc])

def StreamAsyncEnds : Host.Result (HttpResponse ⊕ (Buffer × Option Exn)) → List Mark → Prop
  | .ok (.inl _), u => Refused u
  | .ok (.inr out), u => StreamLockedEnds (.ok out) u
  | .error _, u => Refused u ∨ StreamRun u

theorem StreamLockedEnds.async {r : Host.Result (Buffer × Option Exn)} {u : List Mark}
    (h : StreamLockedEnds r u) : StreamAsyncEnds (r.map .inr) u := by
  cases h with
  | finished ctx out => exact .finished ctx out
  | failed ctx buffer exc => exact .failed ctx buffer exc
  | raised exc u h => exact .inr h

theorem ClosedEnds.locked {r : Host.Result (HttpResponse ⊕ (Buffer × Option Exn))} {u : List Mark}
    (h : ClosedEnds r u) : StreamAsyncEnds r (.event (.started ctx) :: u) := by
  cases h with
  | closed r u h => exact h.locked.async
  | raised exc r u h => exact .inr (h.lost exc [])

theorem ClosedEnds.lost {r : Host.Result (HttpResponse ⊕ (Buffer × Option Exn))} {u : List Mark}
    (h : ClosedEnds r u) (exc : Raised Exn) :
    StreamAsyncEnds (.error exc) (.event (.started ctx) :: (u ++ [.cleanupFailure exc])) := by
  refine .inr ?_
  cases h with
  | closed r u h => exact h.lost exc []
  | raised exc' r u h =>
    rw [List.append_assoc]
    exact h.lost exc' [exc]

theorem inr_ofExcept (r : Host.Result β) :
    ((.inr <$> .ofExcept r : Host γ (α ⊕ β))) = .ofExcept (r.map .inr) := by
  cases r <;> rfl

theorem closedStream_ends : Leaves (γ := γ) (do
    let streamed ← streamEvents fuel env reg run lockThreadId lockToken
    if streamed.opened then (Host.perform .close).bind .ofExcept
    .inr <$> .ofExcept (exceptStream env run.ctx streamed)) ClosedEnds := by
  refine writes_bind streamEvents_ends ?_ ?_
  · rintro streamed u ⟨_, ⟨⟩, hu⟩
    have hend : StreamEnds (exceptStream env run.ctx streamed) u := exceptStream_ends hu
    dsimp only
    split
    · rintro (e | _) -
      · exact .raised e _ u hend
      · change Writes _ _ ((.inr : _ → HttpResponse ⊕ (Buffer × Option Exn)) <$>
          .ofExcept (exceptStream env run.ctx streamed)) _
        rw [inr_ofExcept]
        refine writes_ofExcept ?_
        change ClosedEnds _ (u ++ [])
        rw [List.append_nil]
        exact .closed _ u hend
    · rw [inr_ofExcept]
      exact writes_ofExcept (by rw [List.append_nil]; exact .closed _ u hend)
  · rintro e u ⟨_, h, -⟩
    exact nomatch h

theorem streamLocked_none_ends :
    Leaves (γ := γ) (streamLocked fuel env reg run lockThreadId none) StreamAsyncEnds := by
  rw [streamLocked]
  split
  · refine reject_inl.mono ?_
    rintro _ u ⟨⟨response, rfl⟩, hu⟩
    exact hu
  · exact observe_bind (closedStream_ends.mono fun r u hu => hu.locked)

theorem handleStreamAsync_ends :
    Leaves (γ := γ) (handleStreamAsync fuel env reg req) StreamHandlerEnds := by
  refine silent_bind requestIdFromHeaders_silent (fun runId => ?_) fun _ => .inl .nothing
  split
  · exact reject_refused.mono fun _ _ => .inl
  · split
    · exact reject_refused.mono fun _ _ => .inl
    · refine writes_bind preflight_ends (fun out u hu => ?_) fun e u hu => .inl hu
      cases out with
      | inl response => exact .inl (by rw [List.append_nil]; exact hu)
      | inr run =>
        cases hu
        refine writes_bind (S := StreamAsyncEnds) (asyncThreadLock_ends streamLocked_none_ends
          (fun token cleanup hcleanup => ?_) fun _ => .inl .nothing) ?_ ?_
        · rw [streamLocked, if_neg (by simp)]
          refine observe_bind (writes_andFinally closedStream_ends hcleanup ?_ ?_)
          · rintro r u v hu ⟨⟩
            rw [List.append_nil]
            exact hu.locked
          · rintro r e u v hu ⟨⟩
            exact hu.lost e
        · rintro (response | out) u hu
          · change StreamHandlerEnds (.ok response) (u ++ [])
            rw [List.append_nil]
            exact .inl hu
          · exact finishStream_ends hu
        · exact fun e u hu => hu

end Preflight

def Closes (_ : Host.Result α) (u : List Mark) : Prop := Grammar (events u)

theorem closes_silent {p : Host γ α} {f : α → Host γ β} (h : Leaves p Closes)
    (hf : ∀ a, Leaves (f a) Silent) : Leaves (p >>= f) Closes := by
  refine writes_bind h (fun a u hu => (hf a).mono ?_) fun e u hu => hu
  rintro r v rfl
  rwa [List.append_nil]

theorem closes_andFinally {p : Host γ α} {cleanup : Host γ Unit} (h : Leaves p Closes)
    (hcleanup : Leaves cleanup CleanupEnds) : Leaves (p.andFinally cleanup) Closes := by
  refine writes_andFinally h hcleanup ?_ ?_
  · rintro r u v hu ⟨⟩
    rwa [List.append_nil]
  · rintro r e u v hu ⟨⟩
    change Grammar (events (u ++ [.cleanupFailure e]))
    rwa [events_append, show events [.cleanupFailure e] = [] from rfl, List.append_nil]

section ServiceBus

open Triggers

variable {reg : ServiceBusRegistration} {msg : ServiceBusMessage} {lockBackend : String}
  {threadId : Option String} {ctx : RunContext} {graphInput : Json.Value}
  {guardThreadId : Option Json.Value} {lockToken : Option String}

theorem inputMapper_silent :
    Leaves (γ := γ) ((Host.perform .inputMapper).bind .ofExcept) Silent := by
  rintro (_ | _) - <;> rfl

theorem messageThreadId_silent : Leaves (γ := γ) (messageThreadId reg msg) Silent := by
  unfold messageThreadId
  extract_lets session
  have hsession : ∀ threadId, Leaves (session threadId) Silent := by
    intro threadId
    simp only [session]
    split
    · split
      · rfl
      · split
        · rfl
        · split <;> rfl
    · rfl
  split
  · rintro (e | threadId) -
    · rfl
    · exact hsession threadId
  · exact hsession none

theorem newRunContext_silent : Leaves (γ := γ) (Host.newRunContext ctx) Silent := by
  rw [Host.newRunContext]
  split
  · exact fun _ _ => rfl
  · rfl

theorem invokeMessage_ends :
    Leaves (γ := γ) (invokeMessage reg graphInput threadId guardThreadId lockToken) BlockEnds :=
  block_bind guardRunConfig_ends fun _ => block_bind invoke_ends fun _ =>
    block_bind checkOwnershipGuard_ends fun _ => rfl

theorem observeRun_closes :
    Leaves (γ := γ) (observeRun reg ctx graphInput threadId guardThreadId lockToken) Closes := by
  refine observe_bind (writes_bind (attempt_ends invokeMessage_ends) ?_ ?_)
  · rintro (e | result) u ⟨_, ⟨⟩, ⟨⟩⟩
    · exact fun _ _ => .failed ctx ctx e
    · exact fun _ _ => .completed ctx ctx
  · rintro e u ⟨_, h, -⟩
    exact nomatch h

theorem handleResult_silent {result : GraphOutput} :
    Leaves (γ := γ) (handleResult reg result) Silent := by
  rw [handleResult]
  dsimp only
  split
  · rintro (_ | _) - <;> rfl
  · rfl

theorem processServiceBusMessage_closes :
    Leaves (γ := γ) (processServiceBusMessage reg msg lockBackend) Closes := by
  refine silent_bind inputMapper_silent (fun graphInput => ?_) fun _ => .nothing
  refine silent_bind messageThreadId_silent (fun threadId => ?_) fun _ => .nothing
  refine silent_bind newRunContext_silent (fun ctx => ?_) fun _ => .nothing
  split
  · exact closes_silent observeRun_closes fun _ => handleResult_silent
  · refine silent_bind acquire_silent (fun lockToken => ?_) fun _ => .nothing
    split
    · exact .nothing
    · exact closes_silent (closes_andFinally observeRun_closes release_ends)
        fun _ => handleResult_silent

theorem processServiceBusMessageAsync_closes :
    Leaves (γ := γ) (processServiceBusMessageAsync reg msg lockBackend) Closes := by
  refine silent_bind inputMapper_silent (fun graphInput => ?_) fun _ => .nothing
  refine silent_bind messageThreadId_silent (fun threadId => ?_) fun _ => .nothing
  refine silent_bind newRunContext_silent (fun ctx => ?_) fun _ => .nothing
  have hlocked : ∀ lockThreadId lockToken, Leaves (γ := γ)
      (if lockThreadId.isSome && lockToken.isNone then .raise (contention reg threadId)
        else observeRun reg ctx graphInput threadId lockThreadId lockToken) Closes := by
    intro lockThreadId lockToken
    split
    · exact .nothing
    · exact observeRun_closes
  exact closes_silent (asyncThreadLock_ends (hlocked _ _)
    (fun token cleanup h => closes_andFinally (hlocked _ _) h) fun _ => .nothing)
    fun _ => handleResult_silent

end ServiceBus

section Durable

open Durable

variable {registry : Durable.Registry} {reg : Durable.Registration} {payload : DurableRunPayload}
  {ctx : RunContext} {lockBackend : String} {lockThreadId : Option Json.Value}
  {lockToken : Option String} {config : Option (Platform.RunConfig γ)}

def Quiet (_ : Host.Result α) (u : List Mark) : Prop := events u = []

theorem BlockEnds.quiet {r : Host.Result α} {u : List Mark} (h : BlockEnds r u) : Quiet r u := by
  cases r <;> cases h <;> rfl

theorem quiet_bind {p : Host γ α} {f : α → Host γ β} (h : Leaves p BlockEnds)
    (hf : ∀ a, Leaves (f a) Quiet) : Leaves (p >>= f) Quiet := by
  refine writes_bind h (fun a u hu => ?_) fun e u hu => hu.quiet
  cases hu
  exact hf a

theorem runGraph_quiet :
    Leaves (γ := γ) (runGraph reg payload lockThreadId lockToken config) Quiet := by
  refine quiet_bind guardRunConfig_ends fun _ => quiet_bind invoke_ends fun result =>
    quiet_bind checkOwnershipGuard_ends fun _ => ?_
  refine writes_handle (quiet_bind dumps_ends fun text => writes_ofExcept rfl) (fun _ _ hu => hu) ?_
  rintro (_ | _ | _ | _) u hu
  all_goals
    change events (u ++ []) = []
    rwa [List.append_nil]

theorem events_started {e e' : RunEvent} {u : List Mark} (hu : events u = []) :
    events (.event e :: (u ++ ([.event e'] ++ []))) = [e, e'] := by
  change e :: events (u ++ _) = _
  rw [events_append, hu]
  rfl

theorem executeLocked_closes :
    Leaves (γ := γ) (executeLocked reg payload ctx lockThreadId lockToken) Closes := by
  rw [executeLocked]
  split
  · exact fun _ _ => .rejected ctx _
  · refine silent_bind (writes_ofExcept rfl) (fun config => ?_) fun _ => .nothing
    refine observe_bind (writes_bind (writes_attempt runGraph_quiet (T := fun r u => match r with
      | .ok _ => events u = []
      | .error _ => False) fun r u hu => hu) ?_ ?_)
    · rintro (exc | result) u hu
      · have hend : Grammar (events
            (.event (.started ctx) :: (u ++ ([.event (.failed ctx exc)] ++ [])))) := by
          rw [events_started hu]
          exact .failed ctx ctx exc
        cases exc with
        | exception exc => exact fun _ _ => writes_ofExcept hend
        | _ => exact fun _ _ => hend
      · intro _ _
        change Grammar (events (.event (.started ctx) :: (u ++ ([.event (.completed ctx)] ++ []))))
        rw [events_started hu]
        exact .completed ctx ctx
    · exact fun e u hu => nomatch hu

theorem executeLanggraphRunImpl_closes :
    Leaves (γ := γ) (executeLanggraphRunImpl registry lockBackend payload) Closes := by
  rw [executeLanggraphRunImpl]
  split
  · exact writes_ofExcept .nothing
  · refine silent_bind newRunContext_silent (fun ctx => ?_) fun _ => .nothing
    exact asyncThreadLock_ends executeLocked_closes
      (fun token cleanup h => closes_andFinally executeLocked_closes h) fun _ => .nothing

end Durable

theorem Refused.grammar {u : List Mark} (h : Refused u) : Grammar (events u) := by
  cases h with
  | nothing => exact .nothing
  | rejected ctx reason => exact .rejected ctx reason

theorem Refused.failures_eq {u : List Mark} (h : Refused u) :
    failures u = [] ∧ cleanupFailures u = [] := by
  cases h <;> exact ⟨rfl, rfl⟩

theorem not_grammar_started (ctx : RunContext) : ¬Grammar [.started ctx] := nofun

theorem InvokeRun.grammar_iff {u : List Mark} (h : InvokeRun u) :
    Grammar (events u) ↔ InvokeClean u := by
  cases h with
  | completed ctx ctx' =>
    exact iff_of_true (.completed ctx ctx') ⟨fun _ h => (nomatch h), fun h => absurd rfl h⟩
  | lost ctx exc =>
    exact iff_of_false (not_grammar_started ctx) fun h => h.2 (List.cons_ne_nil _ _) rfl
  | failed ctx ctx' exc excs =>
    rw [InvokeClean, events_append, failures_append, events_cleanups, failures_cleanups]
    refine iff_of_true (.failed ctx ctx' _) ⟨fun e he => ?_, fun _ => List.cons_ne_nil _ _⟩
    cases List.mem_singleton.mp he
    rfl
  | escaped ctx exc excs hexc =>
    rw [InvokeClean, events_append, failures_append, events_cleanups, failures_cleanups]
    refine iff_of_false (not_grammar_started ctx) fun h => ?_
    have := h.1 exc (List.mem_singleton_self exc)
    rw [hexc] at this
    exact Bool.false_ne_true this

theorem invokeHandler_iff {r : Host.Result Native.HttpResponse} {u : List Mark}
    (h : InvokeHandlerEnds r u) : Grammar (events u) ↔ InvokeClean u := by
  rcases h with h | h
  · obtain ⟨hfailures, hcleanup⟩ := h.failures_eq
    exact iff_of_true h.grammar (by simp [InvokeClean, hfailures, hcleanup])
  · exact h.grammar_iff

theorem StreamRun.grammar_iff {u : List Mark} (h : StreamRun u) :
    Grammar (events u) ↔ StreamClean u := by
  cases h with
  | completed ctx ctx' => exact iff_of_true (.completed ctx ctx') ⟨fun _ h => (nomatch h), rfl⟩
  | failed ctx ctx' raised exc =>
    cases raised with
    | none => exact iff_of_true (.failed ctx ctx' _) ⟨fun _ h => (nomatch h), rfl⟩
    | some e =>
      refine iff_of_true (.failed ctx ctx' _) ⟨fun e' he => ?_, rfl⟩
      cases List.mem_singleton.mp he
      rfl
  | lost ctx raised exc excs =>
    have hevents : events (raised.toList.map Mark.failure) = [] := by cases raised <;> rfl
    refine iff_of_false ?_ fun h => ?_
    · rw [List.cons_append, ← List.singleton_append, events_append, events_append, hevents,
        events_cleanups]
      exact not_grammar_started ctx
    · have hcleanup := h.2
      rw [cleanupFailures_append, cleanupFailures_cleanups] at hcleanup
      simp at hcleanup
  | escaped ctx exc excs hexc =>
    rw [StreamClean, events_append, failures_append, events_cleanups, failures_cleanups]
    refine iff_of_false (not_grammar_started ctx) fun h => ?_
    have := h.1 exc (List.mem_singleton_self exc)
    rw [hexc] at this
    exact Bool.false_ne_true this

theorem streamHandler_iff {r : Host.Result Native.HttpResponse} {u : List Mark}
    (h : StreamHandlerEnds r u) : Grammar (events u) ↔ StreamClean u := by
  rcases h with h | h
  · obtain ⟨hfailures, hcleanup⟩ := h.failures_eq
    exact iff_of_true h.grammar (by simp [StreamClean, hfailures, hcleanup])
  · exact h.grammar_iff

inductive Handler
  | invoke (env : Native.Env) (reg : Native.Registration) (req : Native.HttpRequest)
  | stream (env : Native.Env) (reg : Native.Registration) (req : Native.HttpRequest)
  | invokeAsync (env : Native.Env) (reg : Native.Registration) (req : Native.HttpRequest)
  | streamAsync (env : Native.Env) (reg : Native.Registration) (req : Native.HttpRequest)
  | serviceBus (reg : Triggers.ServiceBusRegistration) (msg : Triggers.ServiceBusMessage)
      (lockBackend : String)
  | serviceBusAsync (reg : Triggers.ServiceBusRegistration) (msg : Triggers.ServiceBusMessage)
      (lockBackend : String)
  | durable (registry : Durable.Registry) (lockBackend : String)
      (payload : Durable.DurableRunPayload)

namespace Handler

abbrev Out : Handler → Type
  | invoke .. => Native.HttpResponse
  | stream .. => Native.HttpResponse
  | invokeAsync .. => Native.HttpResponse
  | streamAsync .. => Native.HttpResponse
  | serviceBus .. => GraphOutput
  | serviceBusAsync .. => GraphOutput
  | durable .. => Durable.DurableRunResult

def program (γ : Type) (fuel : Nat) : (h : Handler) → Host γ h.Out
  | invoke env reg req => Native.handleInvoke env reg req
  | stream env reg req => Native.handleStream fuel env reg req
  | invokeAsync env reg req => Native.handleInvokeAsync env reg req
  | streamAsync env reg req => Native.handleStreamAsync fuel env reg req
  | serviceBus reg msg lockBackend => Triggers.processServiceBusMessage reg msg lockBackend
  | serviceBusAsync reg msg lockBackend =>
    Triggers.processServiceBusMessageAsync reg msg lockBackend
  | durable registry lockBackend payload =>
    Durable.executeLanggraphRunImpl registry lockBackend payload

/-- When the handler closes the lifecycle of its run. -/
def Clean : Handler → List Mark → Prop
  | invoke .., u => InvokeClean u
  | invokeAsync .., u => InvokeClean u
  | stream .., u => StreamClean u
  | streamAsync .., u => StreamClean u
  | serviceBus .., _ => True
  | serviceBusAsync .., _ => True
  | durable .., _ => True

theorem ends (fuel : Nat) (h : Handler) :
    Leaves (h.program γ fuel) fun _ u => Grammar (events u) ↔ h.Clean u := by
  have hcloses : ∀ {r : Host.Result h.Out} {u : List Mark}, Closes r u →
      (Grammar (events u) ↔ True) := fun h => iff_of_true h trivial
  cases h with
  | invoke env reg req => exact handleInvoke_ends.mono fun _ _ => invokeHandler_iff
  | stream env reg req => exact handleStream_ends.mono fun _ _ => streamHandler_iff
  | invokeAsync env reg req => exact handleInvokeAsync_ends.mono fun _ _ => invokeHandler_iff
  | streamAsync env reg req => exact handleStreamAsync_ends.mono fun _ _ => streamHandler_iff
  | serviceBus reg msg lockBackend => exact processServiceBusMessage_closes.mono fun _ _ => hcloses
  | serviceBusAsync reg msg lockBackend =>
    exact processServiceBusMessageAsync_closes.mono fun _ _ => hcloses
  | durable registry lockBackend payload =>
    exact executeLanggraphRunImpl_closes.mono fun _ _ => hcloses

end Handler

def observed (w : Transcript (Host.interface γ)) : List RunEvent :=
  w.filterMap fun
    | ⟨.observe e, _⟩ => some e
    | _ => none

theorem events_flatMap_mark (w : Transcript (Host.interface γ)) :
    events (w.flatMap mark) = observed w := by
  induction w with
  | nil => rfl
  | cons x w ih =>
    rw [List.flatMap_cons, events_append, ih, ← List.singleton_append, observed, observed,
      List.filterMap_append]
    congr 1
    obtain ⟨o, a⟩ := x
    have hdump : ∀ exc : Raised Exn,
        events (if exc.isException then [] else [.failure exc]) = [] := by
      intro exc
      split <;> rfl
    cases o with
    | modelDump result => rcases a with exc | _ <;> first | rfl | exact hdump exc
    | asdict result => rcases a with exc | _ <;> first | rfl | exact hdump exc
    | stuck => exact nomatch a
    | _ => first | rfl | (cases a <;> rfl)

/-- A handler that has finished has observed a whole lifecycle or nothing, exactly if its run was
clean. -/
theorem lifecycle_iff {h : Handler} {fuel : Nat} {w : Transcript (Host.interface γ)}
    {r : Host.Result h.Out}
    (hrun : (h.program γ fuel).Plays Host.Answers w (.ofExcept r)) :
    Grammar (observed w) ↔ h.Clean (w.flatMap mark) := by
  rw [← events_flatMap_mark]
  exact hrun.writes (h.ends fuel)

def emptyInput : Native.Model
  | .dict [(.str "input", .dict [])] => .ok ⟨∅, none, none, "values"⟩
  | _ => .error .null

def env : Native.Env := ⟨emptyInput, ⟨1048576, 32, 10000, 1048576⟩, "InProcessThreadLock", false⟩

def agent : Native.Registration := ⟨"agent", false, false, true, true, true, [], fun _ => false⟩

def emptyRequest : Native.HttpRequest := ⟨some "r", 12, some (.dict [(.str "input", .dict [])])⟩

def agentContext : RunContext := Native.newContext agent .invoke env.lockBackend "r"

def invoked (outcome : Host.Result GraphOutput) : (o : Host.Op Unit) → Option o.Ans
  | .observe _ => some ()
  | .invoke _ => some outcome
  | .dumps (.dict [(.str "output", .dict [])]) => some (.ok "\x7b\"output\": \x7b\x7d\x7d")
  | _ => none

theorem invoked_answers (outcome : Host.Result GraphOutput) (o : Host.Op Unit) (a : o.Ans)
    (h : invoked outcome o = some a) : Host.Answers o a := by
  unfold invoked at h
  split at h
  · trivial
  · trivial
  · cases h
    exact rfl
  · exact nomatch h

theorem lifecycle_iff_emptyRequest :
    ∃ (w : Transcript (Host.interface Unit)) (r : Host.Result Native.HttpResponse),
      ((Handler.invoke env agent emptyRequest).program Unit 0).Plays Host.Answers w
        (.ofExcept r) ∧ Grammar (observed w) := by
  obtain ⟨w, r, hrun, hw⟩ : ∃ w r,
      ((Handler.invoke env agent emptyRequest).program Unit 0).answered
        (invoked (.ok ⟨.dict [], false, false⟩)) = some (w, r) ∧ w.flatMap mark =
          [.event (.started agentContext), .event (.completed agentContext)] := ⟨_, _, rfl, rfl⟩
  have hplays := plays_answered (invoked_answers _) hrun
  refine ⟨w, r, hplays, (lifecycle_iff hplays).mpr ?_⟩
  rw [hw]
  exact ⟨fun _ h => (nomatch h), fun h => absurd rfl h⟩

/-- A run that is cancelled while the graph runs has started, and that is all. -/
theorem not_grammar_cancelled :
    ¬∀ (h : Handler) (fuel : Nat) (w : Transcript (Host.interface Unit)) (r : Host.Result h.Out),
      (h.program Unit fuel).Plays Host.Answers w (.ofExcept r) → Grammar (observed w) := by
  intro h
  obtain ⟨w, r, hrun, hw⟩ : ∃ w r,
      ((Handler.invokeAsync env agent emptyRequest).program Unit 0).answered
        (invoked (.error .cancelled)) = some (w, r) ∧ observed w = [.started agentContext] :=
    ⟨_, _, rfl, rfl⟩
  have hgrammar := h _ 0 w r (plays_answered (invoked_answers _) hrun)
  rw [hw] at hgrammar
  exact not_grammar_started _ hgrammar

end LangGraphFunctions.Lifecycle

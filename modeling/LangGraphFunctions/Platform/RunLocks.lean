import LangGraphFunctions.Platform.LockAccounts

/-! Who holds the run lock of a thread, while any number of requests run on one in-memory store. -/

namespace LangGraphFunctions.Platform.RunLocks

open Lib

variable {ι : Type} {α β : Type} [DecidableEq ι] {threadId : String} {token : String}
  {s s' : Shared ι} {i j : ι}

abbrev Goes (i : ι) (call : Call) (p : Routes α) (Q : Except Exn α → Shared ι → Prop)
    (s : Shared ι) : Prop :=
  p.Safe (routes i) (Rely i) (fun o s _ _ => Guarantee i call o s) Q s

def Quiet (call : Call) (held : Option (String × String)) (o : Routes.Op) : Prop :=
  (∀ threadId assistantId, o ≠ .api (.tryAcquireRunLock threadId assistantId)) ∧
  (∀ threadId status values ownerToken,
    o ≠ .api (.releaseRunLock threadId status values ownerToken)) ∧
  (RunsGraph o → ∃ threadId token, call.threadId = some threadId ∧ held = some (threadId, token))

variable {call : Call} {held : Option (String × String)}

omit [DecidableEq ι] in
theorem Quiet.guarantee {o : Routes.Op} (h : Quiet call held o) (hs : s.held i = held) :
    Guarantee i call o s where
  acquire threadId assistantId ho := absurd ho (h.1 threadId assistantId)
  release threadId status values ownerToken ho :=
    absurd ho (h.2.1 threadId status values ownerToken)
  graph hgraph := by
    obtain ⟨threadId, token, hcall, hheld⟩ := h.2.2 hgraph
    exact ⟨threadId, token, hcall, hs.trans hheld⟩

theorem Quiet.step {o : Routes.Op} {answer : o.Ans} (h : Quiet call held o)
    (hstep : (routes i).step o s answer s') : s'.held i = s.held i := by
  cases o with
  | updateState =>
    cases hstep
    rfl
  | create metadata =>
    obtain ⟨id, now, -, rfl⟩ := hstep
    rfl
  | delete threadId =>
    obtain ⟨-, rfl⟩ := hstep
    rfl
  | api o =>
    rcases hstep with ⟨now, token, other, -, -, -, rfl⟩ | ⟨-, rfl⟩
    case inr => rfl
    cases o with
    | tryAcquireRunLock threadId assistantId => exact absurd rfl (h.1 threadId assistantId)
    | releaseRunLock threadId status values ownerToken =>
      exact absurd rfl (h.2.1 threadId status values ownerToken)
    | _ => rfl

abbrev GoesApi (i : ι) (call : Call) (p : Api α) (Q : Except Exn α → Shared ι → Prop)
    (s : Shared ι) : Prop :=
  p.Safe ⟨fun o s answer s' => (routes i).step (.api o) s answer s'⟩ (Rely i)
    (fun o s _ _ => Guarantee i call (.api o) s) Q s

theorem goes_ofApi {p : Api α} {Q : Except Exn α → Shared ι → Prop} (h : GoesApi i call p Q s) :
    Goes i call (Routes.ofApi p) Q s := by
  induction p generalizing s with
  | ret a => exact h
  | raise e => exact h
  | call o k ih =>
    intro s₁ hrely a s₂ hstep
    obtain ⟨hg, hk⟩ := h s₁ hrely a s₂ hstep
    exact ⟨hg, ih a hk⟩

abbrev QuietApi (call : Call) (held : Option (String × String)) (o : Api.Op) : Prop :=
  Quiet call held (.api o)

theorem goesApi_quiet {p : Api α} (h : Api.Always (QuietApi call held) p) (hs : s.held i = held) :
    GoesApi i call p (fun _ s' => s'.held i = held) s := by
  induction p generalizing s with
  | ret a => exact hs
  | raise e => exact hs
  | call o k ih =>
    intro s₁ hrely a s₂ hstep
    have hs₁ := hrely.1.trans hs
    exact ⟨h.1.guarantee hs₁, ih a (h.2 a) ((h.1.step hstep).trans hs₁)⟩

def Done (i : ι) (_ : Except Exn α) (s : Shared ι) : Prop := s.held i = none

theorem goesApi_quiet_bind {p : Api α} {f : α → Api β} {Q : Except Exn β → Shared ι → Prop}
    (h : Api.Always (QuietApi call held) p) (hs : s.held i = held)
    (hok : ∀ a s', s'.held i = held → GoesApi i call (f a) Q s')
    (herror : ∀ e s', s'.held i = held → Q (.error e) s') : GoesApi i call (p >>= f) Q s := by
  apply Prog.Safe.bind
  apply Prog.Safe.mono (goesApi_quiet h hs)
  intro r s' hs'
  exact ⟨fun a _ => hok a s' hs', fun e _ => herror e s' hs'⟩

def Plain : Api.Op → Prop
  | .tryAcquireRunLock .. => False
  | .releaseRunLock .. => False
  | .invoke => False
  | .stream => False
  | _ => True

theorem quiet_of {o : Api.Op} (h : Plain o) : QuietApi call held o := by
  refine ⟨fun threadId assistantId ho => ?_, fun threadId status values ownerToken ho => ?_,
    fun hgraph => ?_⟩
  · cases ho
    exact h.elim
  · cases ho
    exact h.elim
  · cases o <;> first | exact h.elim | exact hgraph.elim

omit [DecidableEq ι] in
theorem guarantee_release {status : ThreadStatus} {values : Option JsonObject}
    (hs : s.held i = some (threadId, token))
    (hback : status = .busy → call.Updates ∧ ∃ thread, s.read i = some thread ∧
      thread.status = .busy) :
    Guarantee i call (.api (.releaseRunLock threadId status values token)) s where
  acquire _ _ h := by cases h
  release _ _ _ _ h := by
    cases h
    exact ⟨hs, hback⟩
  graph h := h.elim

theorem released_step {status : ThreadStatus} {values : Option JsonObject} {ownerToken : String}
    {answer : Except Exn Thread}
    (h : (routes i).step (.api (.releaseRunLock threadId status values ownerToken)) s answer s') :
    s'.held i = none := by
  obtain ⟨now, token, other, -, -, -, rfl⟩ | ⟨hraises, -⟩ := h
  · exact Function.update_self ..
  · exact hraises.elim

omit [DecidableEq ι] in
theorem guarantee_acquire {assistantId : String} (hs : s.held i = none) :
    Guarantee i call (.api (.tryAcquireRunLock threadId assistantId)) s where
  acquire _ _ _ := hs
  release _ _ _ _ h := by cases h
  graph h := h.elim

theorem acquired_step {assistantId : String} {answer : Except Exn (Option Thread)}
    (h : (routes i).step (.api (.tryAcquireRunLock threadId assistantId)) s answer s') :
    (∃ locked token, answer = .ok (some locked) ∧ locked.lockToken = some token ∧ token ≠ "" ∧
      s'.held i = some (threadId, token)) ∨
    (∀ locked, answer ≠ .ok (some locked)) ∧ s'.held i = s.held i := by
  rcases h with ⟨now, token, other, -, hne, rfl, rfl⟩ | ⟨hraises, rfl⟩
  case inr =>
    refine .inr ⟨fun locked hlocked => ?_, rfl⟩
    cases hlocked
    exact hraises
  have hcases := refusesOrTakes_tryAcquireRunLock s.threads threadId (some assistantId) now
    token
  simp only [Shared.after, InMemoryThreadStore.serve]
  generalize InMemoryThreadStore.tryAcquireRunLock s.threads threadId (some assistantId) now
    token = outcome at hcases
  rcases hcases with ⟨hrefused, -⟩ | ⟨existing, locked, -, -, -, htoken, rfl⟩
  · exact .inr ⟨hrefused, congrFun (holding_refused hrefused) i⟩
  · exact .inl ⟨locked, token, rfl, htoken, hne, Function.update_self ..⟩

theorem quiet_release (graphName lockToken : String) :
    QuietApi call held (.release graphName threadId lockToken) :=
  quiet_of trivial

theorem goesApi_perform_bind {o : Api.Op} {f : o.Ans → Api β} {Q : Except Exn β → Shared ι → Prop}
    (h : ∀ s₁, Rely i s s₁ → ∀ a s₂, (routes i).step (.api o) s₁ a s₂ →
      Guarantee i call (.api o) s₁ ∧ GoesApi i call (f a) Q s₂) :
    GoesApi i call (Api.perform o >>= f) Q s := h

theorem goesApi_quiet_op {o : Api.Op} {f : o.Ans → Api β} {Q : Except Exn β → Shared ι → Prop}
    (h : QuietApi call held o) (hs : s.held i = held)
    (hok : ∀ a s', s'.held i = held → GoesApi i call (f a) Q s') :
    GoesApi i call (Api.perform o >>= f) Q s := by
  apply goesApi_perform_bind
  intro s₁ hrely a s₂ hstep
  have hs₁ := hrely.1.trans hs
  exact ⟨h.guarantee hs₁, hok a s₂ ((h.step hstep).trans hs₁)⟩

theorem goesApi_releaseThreadRunLock {graphName lockToken : String} {status : ThreadStatus}
    {values : Option JsonObject} (hstatus : status ≠ .busy) (htoken : token ≠ "")
    (hs : s.held i = some (threadId, token)) : GoesApi i call
      (releaseThreadRunLock threadId graphName lockToken status values token) (Done i) s := by
  refine goesApi_quiet_op (quiet_of trivial) hs
    fun failure s₁ hs₁ => ?_
  rw [if_neg htoken]
  refine goesApi_perform_bind fun s₂ hrely released s₃ hstep => ?_
  have hback : (if failure.isSome then ThreadStatus.error else status) ≠ .busy := by
    split
    · simp
    · exact hstatus
  refine ⟨guarantee_release (hrely.1.trans hs₁) fun h => absurd h hback, ?_⟩
  refine goesApi_quiet_op (quiet_release graphName lockToken) (released_step hstep)
    fun answer s₄ hs₄ => ?_
  cases answer <;> exact hs₄

theorem always_prepareRun {graphName lockToken storeLockToken : String} {thread : Thread}
    {run : RunCreate} : Api.Always (QuietApi call held)
      (prepareRun threadId graphName lockToken storeLockToken thread run) :=
  Api.always_prepareRun (quiet_of trivial) (quiet_of trivial) fun _ => quiet_of trivial

theorem quiet_graph {o : Api.Op} (hcall : call.threadId = some threadId)
    (ha : ∀ tid aid, o ≠ .tryAcquireRunLock tid aid)
    (hr : ∀ tid st v tok, o ≠ .releaseRunLock tid st v tok) :
    QuietApi call (some (threadId, token)) o := by
  refine ⟨fun tid aid h => ?_, fun tid st v tok h => ?_, fun _ => ⟨threadId, token, hcall, rfl⟩⟩
  · cases h
    exact ha tid aid rfl
  · cases h
    exact hr tid st v tok rfl

theorem goesApi_attempt_bind {p : Api α} {f : Except Exn α → Api β}
    {Q : Except Exn β → Shared ι → Prop} (h : Api.Always (QuietApi call held) p)
    (hs : s.held i = held) (hok : ∀ r s', s'.held i = held → GoesApi i call (f r) Q s') :
    GoesApi i call (p.attempt >>= f) Q s := by
  apply Prog.safe_bind.mpr
  apply Prog.safe_attempt.mpr
  apply Prog.Safe.mono (goesApi_quiet h hs)
  intro r s' hs'
  exact hok r s' hs'

theorem goesApi_released {graphName lockToken : String} {status : ThreadStatus}
    {values : Option JsonObject} {f : Option Exn → Api β} (hstatus : status ≠ .busy)
    (htoken : token ≠ "") (hs : s.held i = some (threadId, token))
    (hf : ∀ failure, Api.Always (QuietApi call none) (f failure)) : GoesApi i call
      (releaseThreadRunLock threadId graphName lockToken status values token >>= f) (Done i) s := by
  apply Prog.Safe.bind
  apply Prog.Safe.mono (goesApi_releaseThreadRunLock hstatus htoken hs)
  intro r s' hs'
  exact ⟨fun failure _ => goesApi_quiet (hf failure) hs', fun e _ => hs'⟩

theorem goesApi_waitLocked {graphName lockToken : String} {thread : Thread} {run : RunCreate}
    (hcall : call.threadId = some threadId) (htoken : token ≠ "")
    (hs : s.held i = some (threadId, token)) :
    GoesApi i call (waitLocked threadId graphName lockToken token thread run) (Done i) s := by
  refine goesApi_attempt_bind (Api.always_bind always_prepareRun fun _ =>
      Api.always_call (quiet_graph hcall (by simp) (by simp))) hs fun outcome s₁ hs₁ => ?_
  cases outcome with
  | error exc => exact goesApi_released (by simp) htoken hs₁ fun _ => trivial
  | ok output =>
    refine goesApi_released (by simp) htoken hs₁ fun failure => ?_
    cases failure <;> trivial

theorem goesApi_streamLocked {graphName lockToken : String} {thread : Thread} {run : RunCreate}
    (hcall : call.threadId = some threadId) (htoken : token ≠ "")
    (hs : s.held i = some (threadId, token)) :
    GoesApi i call (streamLocked threadId graphName lockToken token thread run) (Done i) s := by
  have hfailed {s : Shared ι} (hs : s.held i = some (threadId, token)) :
      GoesApi i call (streamLocked.failed threadId graphName lockToken token run) (Done i) s :=
    goesApi_released (by simp) htoken hs fun _ => trivial
  refine goesApi_attempt_bind always_prepareRun hs fun prepared s₁ hs₁ => ?_
  cases prepared with
  | error exc => exact hfailed hs₁
  | ok =>
    refine goesApi_quiet_op (quiet_graph hcall (by simp) (by simp)) hs₁ fun answer s₂ hs₂ => ?_
    obtain ⟨chunks, ended⟩ := answer
    cases ended with
    | ok finished =>
      refine goesApi_released ?_ htoken hs₂ fun failure => ?_
      · cases finished <;> simp
      · cases failure <;> trivial
    | error exc =>
      dsimp only
      split
      · exact hfailed hs₂
      · refine goesApi_released (by simp) htoken hs₂ fun failure => ?_
        cases failure <;> trivial

theorem goesApi_runLocked (endpoint : RunEndpoint) {graphName lockToken : String} {thread : Thread}
    {run : RunCreate} (hcall : call.threadId = some threadId) (htoken : token ≠ "")
    (hs : s.held i = some (threadId, token)) : GoesApi i call
      (runLocked endpoint threadId graphName lockToken token thread run) (Done i) s := by
  cases endpoint with
  | wait => exact goesApi_waitLocked hcall htoken hs
  | stream => exact goesApi_streamLocked hcall htoken hs

theorem goesApi_lockedRun (endpoint : RunEndpoint) {graphName lockToken : String} {thread : Thread}
    {run : RunCreate} (hcall : call.threadId = some threadId) (hs : s.held i = none) :
    GoesApi i call (lockedRun endpoint threadId graphName lockToken thread run) (Done i) s := by
  have hrelease {f : Unit → Api Api.Response} (hf : Api.Always (QuietApi call none) (f ())) :
      Api.Always (QuietApi call none)
        (Prog.bind (Api.release graphName threadId lockToken) f) :=
    Api.always_bind (Api.always_call (quiet_release graphName lockToken)) fun _ => hf
  refine goesApi_perform_bind fun s₁ hrely answer s₂ hstep => ?_
  have hs₁ := hrely.1.trans hs
  refine ⟨guarantee_acquire hs₁, ?_⟩
  rcases acquired_step hstep with ⟨locked, token, rfl, htoken, hne, hheld⟩ | ⟨hrefused, hheld⟩
  · dsimp only
    rw [htoken]
    dsimp only
    rw [if_neg hne]
    exact goesApi_runLocked endpoint hcall hne hheld
  · cases answer with
    | error exc =>
      refine goesApi_quiet (hrelease ?_) (hheld.trans hs₁)
      split
      · trivial
      split
      · exact Api.always_bind (Api.always_ofExcept _) fun _ => trivial
      · trivial
    | ok locked =>
      cases locked with
      | none => exact goesApi_quiet (hrelease trivial) (hheld.trans hs₁)
      | some locked => exact absurd rfl (hrefused locked)

theorem goesApi_runs (endpoint : RunEndpoint) (body : Except Api.Response RunCreate)
    (resolve : RunCreate → Except Api.Response String) (hcall : call.threadId = some threadId)
    (hs : s.held i = none) : GoesApi i call (runs endpoint threadId body resolve) (Done i) s := by
  cases body with
  | error response => exact hs
  | ok run =>
    refine goesApi_quiet_bind (Api.always_call (quiet_of trivial))
      hs (fun thread s₁ hs₁ => ?_) fun e s₁ hs₁ => hs₁
    cases thread with
    | none => exact hs₁
    | some thread =>
      dsimp only
      rw [foundRun]
      split
      · exact hs₁
      · refine goesApi_quiet_bind (Api.always_call (quiet_of trivial))
          hs₁ (fun lockToken s₂ hs₂ => ?_) fun e s₂ hs₂ => hs₂
        cases lockToken with
        | none => exact hs₂
        | some lockToken => exact goesApi_lockedRun endpoint hcall hs₂

def At (i : ι) (held : Option (String × String)) (read : Option Thread) (s : Shared ι) : Prop :=
  s.held i = held ∧ s.read i = read

variable {read : Option Thread}

omit [DecidableEq ι] in
theorem At.rely (h : At i held read s) (hrely : Rely i s s') : At i held read s' :=
  ⟨hrely.1.trans h.1, hrely.2.trans h.2⟩

theorem read_step {o : Routes.Op} {answer : o.Ans} (hget : ∀ tid, o ≠ .api (.get tid))
    (hstep : (routes i).step o s answer s') : s'.read i = s.read i := by
  cases o with
  | updateState =>
    cases hstep
    rfl
  | create metadata =>
    obtain ⟨id, now, -, rfl⟩ := hstep
    rfl
  | delete threadId =>
    obtain ⟨-, rfl⟩ := hstep
    rfl
  | api o =>
    rcases hstep with ⟨now, token, other, -, -, -, rfl⟩ | ⟨-, rfl⟩
    case inr => rfl
    cases o with
    | get tid => exact absurd rfl (hget tid)
    | _ => rfl

structure Calm (call : Call) (held : Option (String × String)) (o : Routes.Op) : Prop where
  quiet : Quiet call held o
  get : ∀ threadId, o ≠ .api (.get threadId)

theorem calm_of {o : Api.Op} (h : Plain o) (hget : ∀ threadId, o ≠ .get threadId) :
    Calm call held (.api o) := by
  refine ⟨quiet_of h, fun threadId ho => ?_⟩
  cases ho
  exact hget threadId rfl

abbrev Calms (call : Call) (held : Option (String × String)) (p : Routes α) : Prop :=
  Prog.Uses (I := Routes.interface) (fun _ _ => True) (Calm call held) p

theorem goes_calm {p : Routes α} (h : Calms call held p) (hs : At i held read s) :
    Goes i call p (fun _ s' => At i held read s') s := by
  induction p generalizing s with
  | ret a => exact hs
  | raise e => exact hs
  | call o k ih =>
    intro s₁ hrely a s₂ hstep
    have hcall := Prog.uses_call.mp h
    have hs₁ := hs.rely hrely
    refine ⟨hcall.1.quiet.guarantee hs₁.1, ih a (hcall.2 a trivial) ⟨?_, ?_⟩⟩
    · exact (hcall.1.quiet.step hstep).trans hs₁.1
    · exact (read_step hcall.1.get hstep).trans hs₁.2

theorem goes_calm_bind {p : Routes α} {f : α → Routes β} {Q : Except Exn β → Shared ι → Prop}
    (h : Calms call held p) (hs : At i held read s)
    (hok : ∀ a s', At i held read s' → Goes i call (f a) Q s')
    (herror : ∀ e s', At i held read s' → Q (.error e) s') : Goes i call (p >>= f) Q s := by
  apply Prog.Safe.bind
  apply Prog.Safe.mono (goes_calm h hs)
  intro r s' hs'
  exact ⟨fun a _ => hok a s' hs', fun e _ => herror e s' hs'⟩

theorem goes_attempt_bind {p : Routes α} {f : Except Exn α → Routes β}
    {Q : Except Exn β → Shared ι → Prop} (h : Calms call held p) (hs : At i held read s)
    (hok : ∀ r s', At i held read s' → Goes i call (f r) Q s') :
    Goes i call (p.attempt >>= f) Q s := by
  apply Prog.safe_bind.mpr
  apply Prog.safe_attempt.mpr
  apply Prog.Safe.mono (goes_calm h hs)
  intro r s' hs'
  exact hok r s' hs'

theorem calms_perform {o : Routes.Op} (h : Calm call held o) : Calms call held (Routes.perform o) :=
  Prog.uses_call.mpr ⟨h, fun _ _ => Prog.uses_ret _⟩

theorem calms_call {o : Routes.Op} {f : o.Ans → Except Exn α} (h : Calm call held o) :
    Calms call held ((Routes.perform o).bind fun a => .ofExcept (f a)) :=
  Prog.uses_bind (calms_perform h) fun a => Prog.uses_ofExcept (f a)

theorem calm_release (graphName lockToken : String) :
    Calm call held (.api (.release graphName threadId lockToken)) :=
  calm_of trivial (by simp)

theorem goes_perform_bind {o : Routes.Op} {f : o.Ans → Routes β}
    {Q : Except Exn β → Shared ι → Prop}
    (h : ∀ s₁, Rely i s s₁ → ∀ a s₂, (routes i).step o s₁ a s₂ →
      Guarantee i call o s₁ ∧ Goes i call (f a) Q s₂) :
    Goes i call (Routes.perform o >>= f) Q s := h

theorem goes_calm_op {o : Routes.Op} {f : o.Ans → Routes β} {Q : Except Exn β → Shared ι → Prop}
    (h : Calm call held o) (hs : At i held read s)
    (hok : ∀ a s', At i held read s' → Goes i call (f a) Q s') :
    Goes i call (Routes.perform o >>= f) Q s := by
  apply goes_perform_bind
  intro s₁ hrely a s₂ hstep
  have hs₁ := hs.rely hrely
  refine ⟨h.quiet.guarantee hs₁.1, hok a s₂ ⟨?_, ?_⟩⟩
  · exact (h.quiet.step hstep).trans hs₁.1
  · exact (read_step h.get hstep).trans hs₁.2

theorem goes_releaseThreadStateLock {graphName lockToken : String} {status : ThreadStatus}
    {f : Option Exn → Routes β} (htoken : token ≠ "")
    (hback : status = .busy → call.Updates ∧ ∃ thread, read = some thread ∧ thread.status = .busy)
    (hs : At i (some (threadId, token)) read s) (hf : ∀ failure, Calms call none (f failure)) :
    Goes i call (releaseThreadStateLock threadId graphName lockToken status token >>= f)
      (Done i) s := by
  apply Prog.Safe.bind
  rw [releaseThreadStateLock, if_neg htoken]
  refine goes_perform_bind fun s₁ hrely released s₂ hstep => ?_
  have hs₁ := hs.rely hrely
  refine ⟨guarantee_release hs₁.1 fun h => hs₁.2 ▸ hback h, ?_⟩
  refine goes_calm_op (calm_release graphName lockToken) ⟨released_step hstep, rfl⟩
    fun answer s₃ hs₃ => ?_
  have hrest (failure : Option Exn) : Goes i call (f failure) (Done i) s₃ := by
    apply Prog.Safe.mono (goes_calm (hf failure) hs₃)
    intro r s' hs'
    exact hs'.1
  cases answer with
  | ok _ => exact ⟨fun failure _ => hrest failure, fun e h => (by cases h)⟩
  | error exc => exact ⟨fun failure _ => hrest failure, fun e h => (by cases h)⟩

theorem goes_updateLocked {graphName lockToken : String} {thread : Thread} {config : JsonObject}
    {update : ThreadStateUpdate} (hcall : call.threadId = some threadId) (hupdates : call.Updates)
    (htoken : token ≠ "") (hs : At i (some (threadId, token)) (some thread) s) : Goes i call
      (updateLocked threadId graphName lockToken token thread.status config update) (Done i) s := by
  have hgraph : Calm call (some (threadId, token))
      (.updateState config update.values update.asNode) := by
    refine ⟨⟨?_, ?_, fun _ => ⟨threadId, token, hcall, rfl⟩⟩, ?_⟩ <;> simp
  refine goes_attempt_bind (Prog.uses_bind (calms_call (calm_of trivial (by simp))) fun _ =>
      calms_call hgraph) hs fun outcome s₁ hs₁ => ?_
  cases outcome with
  | error exc =>
    refine goes_releaseThreadStateLock htoken (by simp) hs₁ fun _ => ?_
    split
    · exact Prog.uses_bind (Prog.uses_ofExcept _) fun _ => Prog.uses_ret _
    · exact Prog.uses_ret _
  | ok result =>
    refine goes_releaseThreadStateLock htoken (fun h => ⟨hupdates, thread, rfl, h⟩) hs₁
      fun failure => ?_
    cases failure with
    | some _ => exact Prog.uses_ret _
    | none => exact Prog.uses_bind (Prog.uses_ofExcept _) fun _ => Prog.uses_ret _

theorem goes_lockedUpdate {graphName lockToken : String} {thread : Thread} {config : JsonObject}
    {update : ThreadStateUpdate} (hcall : call.threadId = some threadId) (hupdates : call.Updates)
    (hs : At i none (some thread) s) : Goes i call
      (lockedUpdate threadId graphName lockToken thread.status config update) (Done i) s := by
  have hdone {p : Routes Routes.Response} (hp : Calms call none p) {s : Shared ι}
      (hs : s.held i = none) : Goes i call p (Done i) s :=
    Prog.Safe.mono (goes_calm hp ⟨hs, rfl⟩) fun _ _ hs' => hs'.1
  have hrelease {f : Unit → Routes Routes.Response} (hf : Calms call none (f ())) :
      Calms call none (Prog.bind (Routes.release graphName threadId lockToken) f) :=
    Prog.uses_bind (calms_call (calm_release graphName lockToken)) fun _ => hf
  refine goes_perform_bind fun s₁ hrely answer s₂ hstep => ?_
  have hs₁ := hs.rely hrely
  refine ⟨guarantee_acquire hs₁.1, ?_⟩
  rcases acquired_step hstep with ⟨locked, token, rfl, htoken, hne, hheld⟩ | ⟨hrefused, hheld⟩
  · dsimp only
    rw [htoken]
    dsimp only
    rw [if_neg hne]
    exact goes_updateLocked hcall hupdates hne ⟨hheld, (read_step (by simp) hstep).trans hs₁.2⟩
  · cases answer with
    | error exc =>
      dsimp only
      split
      · exact hdone (hrelease (Prog.uses_ret _)) (hheld.trans hs₁.1)
      split
      · refine hdone (hrelease ?_) (hheld.trans hs₁.1)
        exact Prog.uses_bind (Prog.uses_ofExcept _) fun _ => Prog.uses_ret _
      · exact hheld.trans hs₁.1
    | ok locked =>
      cases locked with
      | none => exact hdone (hrelease (Prog.uses_ret _)) (hheld.trans hs₁.1)
      | some locked => exact absurd rfl (hrefused locked)

theorem got_step {answer : Except Exn (Option Thread)}
    (h : (routes i).step (.api (.get threadId)) s answer s') : s'.held i = s.held i ∧
      ∀ thread, answer = .ok thread → s'.read i = thread := by
  obtain ⟨now, token, other, -, -, rfl, rfl⟩ | ⟨hraises, -⟩ := h
  · refine ⟨rfl, fun thread hthread => ?_⟩
    cases hthread
    exact Function.update_self ..
  · exact hraises.elim

theorem quiet_get : QuietApi call held (.get threadId) :=
  quiet_of trivial

theorem goes_get_bind {f : Option Thread → Routes β} (hs : s.held i = none)
    (hok : ∀ thread s', At i none thread s' → Goes i call (f thread) (Done i) s') :
    Goes i call (Routes.get threadId >>= f) (Done i) s := by
  intro s₁ hrely answer s₂ hstep
  have hs₁ := hrely.1.trans hs
  obtain ⟨hheld, hread⟩ := got_step hstep
  refine ⟨quiet_get.guarantee hs₁, ?_⟩
  cases answer with
  | error exc => exact hheld.trans hs₁
  | ok thread => exact hok thread s₂ ⟨hheld.trans hs₁, hread thread rfl⟩

theorem goes_readUpdate {config : JsonObject} {update : ThreadStateUpdate}
    (hcall : call.threadId = some threadId) (hupdates : call.Updates) (hs : s.held i = none) :
    Goes i call (readUpdate threadId config update) (Done i) s := by
  refine goes_get_bind hs fun thread s₁ hs₁ => ?_
  cases thread with
  | none => exact hs₁.1
  | some thread =>
    dsimp only
    split
    · exact hs₁.1
    · refine goes_calm_bind (calms_call (calm_of trivial (by simp)))
        hs₁ (fun lockToken s₂ hs₂ => ?_) fun e s₂ hs₂ => hs₂.1
      cases lockToken with
      | none => exact hs₂.1
      | some lockToken => exact goes_lockedUpdate hcall hupdates hs₂

theorem goes_threadsStateUpdate (eq : Json.Value → Json.Value → Bool)
    (body : Except Routes.Response ThreadStateUpdate)
    (resolve : Thread → Except Routes.Response Unit) (hcall : call.threadId = some threadId)
    (hupdates : call.Updates) (hs : s.held i = none) :
    Goes i call (threadsStateUpdate eq threadId body resolve) (Done i) s := by
  cases body with
  | error response => exact hs
  | ok update =>
    refine goes_get_bind hs fun thread s₁ hs₁ => ?_
    cases thread with
    | none => exact hs₁.1
    | some thread =>
      dsimp only
      split
      · exact hs₁.1
      · split
        · exact hs₁.1
        · exact goes_readUpdate hcall hupdates hs₁.1

theorem always_threadsUpdate (body : Except Api.Response (Option JsonObject)) :
    Api.Always (QuietApi call held) (threadsUpdate threadId body) := by
  cases body with
  | error response => trivial
  | ok metadata =>
    refine Api.always_bind (Api.always_call quiet_get) fun thread => ?_
    cases thread with
    | none => trivial
    | some thread =>
      cases metadata with
      | none => trivial
      | some metadata =>
        refine Api.always_bind (Api.always_perform (quiet_of trivial)) fun answer => ?_
        cases answer with
        | ok updated => trivial
        | error exc =>
          dsimp only
          split <;> trivial

theorem goes_program (call : Call) (hs : s.held i = none) :
    Goes i call call.program (Done i) s := by
  have hmap {p : Api Api.Response} (hp : GoesApi i call p (Done i) s) :
      GoesApi i call (some <$> p : Api (Option Api.Response)) (Done i) s := by
    rw [map_eq_pure_bind]
    apply Prog.Safe.bind
    apply Prog.Safe.mono hp
    intro r s' hs'
    exact ⟨fun _ _ => hs', fun _ _ => hs'⟩
  cases call with
  | platform request =>
    have hrequest : GoesApi i (.platform request) request.program (Done i) s := by
      cases request with
      | patch threadId body => exact hmap (goesApi_quiet (always_threadsUpdate body) hs)
      | run endpoint threadId body resolve => exact hmap (goesApi_runs endpoint body resolve rfl hs)
      | renewal threadId ownerToken =>
        exact goesApi_quiet
          (Api.always_bind (Api.always_call (quiet_of trivial)) fun _ => trivial) hs
    apply Prog.Safe.bind
    apply Prog.Safe.mono (goes_ofApi hrequest)
    intro r s' hs'
    exact ⟨fun _ _ => hs', fun _ _ => hs'⟩
  | stateUpdate eq threadId body resolve =>
    exact goes_threadsStateUpdate eq body resolve rfl trivial hs
  | create body =>
    cases body with
    | error response => exact hs
    | ok metadata =>
      have hcreate : Calm (.create (.ok metadata)) none (.create metadata) := by
        refine ⟨⟨?_, ?_, fun h => h.elim⟩, ?_⟩ <;> simp
      exact Prog.Safe.mono (goes_calm (Prog.uses_bind (calms_call hcreate) fun _ => Prog.uses_ret _)
        ⟨hs, rfl⟩) fun _ _ hs' => hs'.1
  | delete threadId =>
    have hdelete : Calm (.delete threadId) none (.delete threadId) := by
      refine ⟨⟨?_, ?_, fun h => h.elim⟩, ?_⟩ <;> simp
    refine goes_calm_op hdelete ⟨hs, rfl⟩ fun answer s₁ hs₁ => ?_
    cases answer with
    | ok _ => exact hs₁.1
    | error exc =>
      dsimp only
      split <;> exact hs₁.1

theorem attended : Pool.Attended (fun (i : ι) (_ : Call) => routes i) Call.program
    (fun _ _ _ => True) Rely (fun i call o s _ _ => Guarantee i call o s)
    (fun i _ => Done i) Accounted (fun i s => s.held i = none) (fun _ _ _ => True) where
  refl _ _ := ⟨rfl, rfl⟩
  trans _ _ _ _ h h' := ⟨h'.1.trans h.1, h'.2.trans h.2⟩
  rely hne _ hstep _ := rely_step hne hstep
  inv hstep hg h := accounted_step hstep hg h
  stable h hs := h.1.trans hs
  idle h hs := h.1.trans hs
  busy _ _ := trivial
  start _ hidle _ := ⟨goes_program _ hidle, trivial⟩
  op _ _ _ _ := trivial
  leave h := h

/-- Before any request: no thread is busy, and no client answers for one. -/
structure Fresh (s : Shared ι) : Prop where
  idle : ∀ threadId token, lockOf s.threads threadId ≠ some (.busy, token)
  held : ∀ i, s.held i = none
  left : s.left = []

omit [DecidableEq ι] in
theorem Fresh.accounted (h : Fresh s) : Accounted s where
  busy threadId token hbusy := absurd hbusy (h.idle threadId token)
  owned threadId token hown := by
    rcases hown with ⟨i, hi⟩ | hl
    · rw [h.held] at hi
      cases hi
    · rw [h.left] at hl
      cases hl
  apart i _ _ _ _ hi := by
    rw [h.held] at hi
    cases hi
  left _ _ _ _ hl := by
    rw [h.left] at hl
    cases hl

abbrev RouteEvent (ι : Type) := Pool.Event Routes.interface Exn Routes.Response (Shared ι) ι Call

/-- A release that puts the status `busy` back. -/
def Restores : RouteEvent ι → Prop
  | .op _ _ (.api (.releaseRunLock _ .busy _ _)) _ _ _ => True
  | _ => False

variable {start : Shared ι} {t : List (RouteEvent ι)}
  {P P' : Pool Routes.interface Exn Routes.Response (Shared ι) ι Call}

theorem accounted_runs (hstart : Fresh start) (h : RouteRuns ι (Pool.idle start) t P)
    (hfinished : ∀ e ∈ t, e.Finished) :
    Pool.Attends (fun (i : ι) (_ : Call) => routes i) Rely
      (fun i call o s _ _ => Guarantee i call o s) (fun i _ => Done i) Accounted
      (fun i s => s.held i = none) (fun _ _ _ => True) P ∧
    ∀ e ∈ t, e.Satisfies (fun i _ => routes i) (fun i call o s _ _ => Guarantee i call o s)
      (fun i _ => Done i) Accounted := by
  apply Pool.attends_runs attended h hfinished
  exact ⟨hstart.accounted, fun i _ => hstart.held i, fun _ _ _ hclient => by cases hclient⟩

/-- Whatever requests run, in whatever order: a busy thread is held under the token in its row by a
request in progress, or it was left busy by a state update that put back the status `busy` it had
read; so left, it stays busy until it is deleted. -/
theorem busy_accounted (hstart : Fresh start) (h : RouteRuns ι (Pool.idle start) t P)
    (hfinished : ∀ e ∈ t, e.Finished) :
    (∀ threadId thread, P.store.threads.get? threadId = some thread → thread.status = .busy →
      ∃ token, thread.lockToken = some token ∧
        ((∃ i call p, P.clients i = some (call, p) ∧ P.store.held i = some (threadId, token)) ∨
          (threadId, token) ∈ P.store.left)) ∧
    (∀ threadId token, (threadId, token) ∈ P.store.left → threadId ∈ P.store.deleted ∨
      ∃ thread, P.store.threads.get? threadId = some thread ∧ thread.status = .busy ∧
        thread.lockToken = some token) ∧
    ∀ i call threadId values token s answer s',
      .op i call (.api (.releaseRunLock threadId .busy values token)) s answer s' ∈ t →
        call.Updates ∧ ∃ thread, s.read i = some thread ∧ thread.status = .busy := by
  obtain ⟨⟨hinv, hidle, -⟩, hevents⟩ := accounted_runs hstart h hfinished
  refine ⟨fun threadId thread hget hbusy => ?_, fun threadId token hleft => ?_, ?_⟩
  · obtain ⟨token, htoken, hown⟩ := hinv.busy threadId thread.lockToken (by
      rw [lockOf, hget, Option.map_some, hbusy])
    refine ⟨token, htoken, hown.imp_left ?_⟩
    rintro ⟨i, hi⟩
    cases hclient : P.clients i with
    | none =>
      rw [hidle i hclient] at hi
      cases hi
    | some running => exact ⟨i, running.1, running.2, hclient, hi⟩
  · refine (hinv.owned threadId token (.inr hleft)).2.imp_right fun hlock => ?_
    obtain ⟨thread, hget, hthread⟩ := Option.map_eq_some_iff.mp hlock
    rw [Prod.mk.injEq] at hthread
    exact ⟨thread, hget, hthread.1, hthread.2⟩
  · intro i call threadId values token s answer s' hmem
    exact ((hevents _ hmem).2.2.release threadId .busy values token rfl).2 rfl

theorem left_runs (h : RouteRuns ι P t P') (hclean : ∀ e ∈ t, ¬ Restores e) :
    P'.store.left = P.store.left := by
  induction h with
  | nil => rfl
  | cons hstep _ ih =>
    obtain ⟨hfirst, hrest⟩ := List.forall_mem_cons.mp hclean
    refine (ih hrest).trans ?_
    cases hstep with
    | start _ _ => rfl
    | leave _ => rfl
    | @op i call o k answer s' hclient hs =>
      cases o with
      | updateState =>
        cases hs
        rfl
      | create metadata =>
        obtain ⟨id, now, -, rfl⟩ := hs
        rfl
      | delete threadId =>
        obtain ⟨-, rfl⟩ := hs
        rfl
      | api o =>
        rcases hs with ⟨now, token, other, -, -, -, rfl⟩ | ⟨-, rfl⟩
        case inr => rfl
        cases o with
        | releaseRunLock threadId status values ownerToken =>
          cases status with
          | busy => exact absurd trivial hfirst
          | _ => rfl
        | _ => rfl

/-- When every request has come to its end and no status `busy` was put back, no thread is busy. -/
theorem none_busy_when_done (hstart : Fresh start) (h : RouteRuns ι (Pool.idle start) t P)
    (hfinished : ∀ e ∈ t, e.Finished) (hclean : ∀ e ∈ t, ¬ Restores e)
    (hdone : ∀ i, P.clients i = none) (threadId : String) (thread : Thread)
    (hget : P.store.threads.get? threadId = some thread) : thread.status ≠ .busy := by
  intro hbusy
  obtain ⟨token, -, hown⟩ := (busy_accounted hstart h hfinished).1 threadId thread hget hbusy
  rcases hown with ⟨i, call, p, hclient, -⟩ | hleft
  · rw [hdone i] at hclient
    cases hclient
  · rw [left_runs h hclean] at hleft
    change (threadId, token) ∈ start.left at hleft
    rw [hstart.left] at hleft
    cases hleft

/-- A graph runs only under the run lock of its thread, and, unless that thread was deleted, in no
two requests at a time. -/
theorem graph_runs_locked (hstart : Fresh start) (h : RouteRuns ι (Pool.idle start) t P)
    (hfinished : ∀ e ∈ t, e.Finished) {i : ι} {call : Call} {o : Routes.Op} {s s' : Shared ι}
    {answer : o.Ans} (hmem : .op i call o s answer s' ∈ t) (hgraph : RunsGraph o) :
    ∃ threadId token, call.threadId = some threadId ∧ s.held i = some (threadId, token) ∧
      (threadId ∉ s.deleted → (∃ thread, s.threads.get? threadId = some thread ∧
        thread.status = .busy ∧ thread.lockToken = some token) ∧
        ∀ j token', s.held j = some (threadId, token') → j = i) := by
  obtain ⟨hinv, -, hg⟩ := (accounted_runs hstart h hfinished).2 _ hmem
  obtain ⟨threadId, token, hcall, hheld⟩ := hg.graph hgraph
  refine ⟨threadId, token, hcall, hheld, fun hlive => ?_⟩
  have hlock := (hinv.owned threadId token (owned_held hheld)).2.resolve_left hlive
  constructor
  · obtain ⟨thread, hget, hthread⟩ := Option.map_eq_some_iff.mp hlock
    rw [Prod.mk.injEq] at hthread
    exact ⟨thread, hget, hthread.1, hthread.2⟩
  · intro j token' hj
    have hlock' := (hinv.owned threadId token' (owned_held hj)).2.resolve_left hlive
    rw [hlock, Option.some_inj, Prod.mk.injEq, Option.some_inj] at hlock'
    cases hlock'.2
    exact hinv.apart j i threadId threadId token hj hheld

def Starts (i : ι) : RouteEvent ι → Prop
  | .start j .. => j = i
  | _ => False

/-- In the run `t`, the request `call` of `i` goes through the events `u` and is over in `s`. -/
structure Serves (i : ι) (call : Call) (t u : List (RouteEvent ι)) (s : Shared ι) : Prop where
  stretch : ∃ t₁ s₀ p t₂, t = t₁ ++ .start i call s₀ :: (u ++ .leave i call p s :: t₂)
  once : ∀ e ∈ u, ¬ Starts i e

def agreeable : (o : Api.Op) → o.Ans
  | .acquire .. => .ok (some "lock")
  | o => idleAnswer o

def oneThread : Shared Bool where
  threads := Dict.ofList [("t", bareThread)]
  issued := []
  deleted := []
  read _ := none
  held _ := none
  left := []

theorem fresh_oneThread : Fresh oneThread where
  idle threadId token h := by
    by_cases ht : threadId = "t"
    · rw [ht] at h
      cases h
    · have hget : oneThread.threads.get? threadId = none :=
        Dict.get?_ofList_of_not_mem (by simpa using ht)
      rw [lockOf, hget] at h
      cases h
  held _ := rfl
  left := rfl

def waitCall : Call :=
  .platform (.run .wait "t" (.ok ⟨"r", "a", none⟩) fun _ => .ok "g")

def updateCall : Call :=
  .stateUpdate (fun _ _ => true) "t" (.ok ⟨.dict [], none, none, none⟩) fun _ => .ok ()

theorem routes_api (i : Bool) (o : Api.Op) (s : Shared Bool) (token : String)
    (hnew : token ∉ s.issued) (hne : token ≠ "") : (routes i).step (.api o) s
      (InMemoryThreadStore.serve 0 token agreeable o s.threads).1
      (s.after i token o (InMemoryThreadStore.serve 0 token agreeable o s.threads).1
        (InMemoryThreadStore.serve 0 token agreeable o s.threads).2) :=
  .inl ⟨0, token, agreeable, hnew, hne, rfl, rfl⟩

theorem routes_updateState (i : Bool) (config : JsonObject) (values : Json.Value)
    (asNode : Option String) (s : Shared Bool) :
    (routes i).step (.updateState config values asNode) s (.ok (.dict [])) s := rfl

theorem runs_waitCall : ∃ t P, RouteRuns Bool (Pool.idle oneThread) t P ∧ (∀ e ∈ t, e.Finished) ∧
    (∀ e ∈ t, ¬ Restores e) ∧ (∀ i, P.clients i = none) ∧
    (P.store.threads.get? "t").isSome := by
  refine ⟨_, _, .cons (.start (i := true) (l := waitCall) rfl trivial) <|
    .cons (.op (i := true) rfl (routes_api true _ _ "k1" (by decide) (by decide))) <|
    .cons (.op (i := true) rfl (routes_api true _ _ "k2" (by decide) (by decide))) <|
    .cons (.op (i := true) rfl (routes_api true _ _ "k3" (by decide) (by decide))) <|
    .cons (.op (i := true) rfl (routes_api true _ _ "k4" (by decide) (by decide))) <|
    .cons (.op (i := true) rfl (routes_api true _ _ "k5" (by decide) (by decide))) <|
    .cons (.op (i := true) rfl (routes_api true _ _ "k6" (by decide) (by decide))) <|
    .cons (.op (i := true) rfl (routes_api true _ _ "k7" (by decide) (by decide))) <|
    .cons (.op (i := true) rfl (routes_api true _ _ "k8" (by decide) (by decide))) <|
    .cons (.op (i := true) rfl (routes_api true _ _ "k9" (by decide) (by decide))) <|
    .cons (.leave (i := true) rfl) .nil, ?_, ?_, ?_, ?_⟩
  · simp only [List.forall_mem_cons]
    exact ⟨trivial, trivial, trivial, trivial, trivial, trivial, trivial, trivial, trivial, trivial,
      rfl, List.forall_mem_nil _⟩
  · simp only [List.forall_mem_cons]
    exact ⟨id, id, id, id, id, id, id, id, id, id, id, List.forall_mem_nil _⟩
  · intro i
    cases i <;> rfl
  · rfl

theorem none_busy_when_done_waitCall : ∃ t P, RouteRuns Bool (Pool.idle oneThread) t P ∧
    (∀ i, P.clients i = none) ∧ ∃ thread, P.store.threads.get? "t" = some thread ∧
      thread.status ≠ .busy := by
  obtain ⟨t, P, hruns, hfinished, hclean, hdone, hthere⟩ := runs_waitCall
  obtain ⟨thread, hget⟩ := Option.isSome_iff_exists.mp hthere
  exact ⟨t, P, hruns, hdone, thread, hget,
    none_busy_when_done fresh_oneThread hruns hfinished hclean hdone "t" thread hget⟩

theorem graph_runs_locked_waitCall : ∃ (t : List (RouteEvent Bool)) (P : _),
    RouteRuns Bool (Pool.idle oneThread) t P ∧ ∃ (s s' : Shared Bool)
      (answer : Except Exn JsonObject), .op true waitCall (.api .invoke) s answer s' ∈ t ∧
      ∃ threadId token, waitCall.threadId = some threadId ∧
        s.held true = some (threadId, token) := by
  obtain ⟨t, P, hruns, hfinished, s, s', answer, hmem⟩ : ∃ (t : List (RouteEvent Bool)) (P : _),
      RouteRuns Bool (Pool.idle oneThread) t P ∧ (∀ e ∈ t, e.Finished) ∧ ∃ (s s' : Shared Bool)
      (answer : Except Exn JsonObject), .op true waitCall (.api .invoke) s answer s' ∈ t := by
    refine ⟨_, _, .cons (.start (i := true) (l := waitCall) rfl trivial) <|
      .cons (.op (i := true) rfl (routes_api true _ _ "k1" (by decide) (by decide))) <|
      .cons (.op (i := true) rfl (routes_api true _ _ "k2" (by decide) (by decide))) <|
      .cons (.op (i := true) rfl (routes_api true _ _ "k3" (by decide) (by decide))) <|
      .cons (.op (i := true) rfl (routes_api true _ _ "k4" (by decide) (by decide))) <|
      .cons (.op (i := true) rfl (routes_api true _ _ "k5" (by decide) (by decide))) <|
      .cons (.op (i := true) rfl (routes_api true _ _ "k6" (by decide) (by decide))) .nil, ?_,
      _, _, _, .tail _ (.tail _ (.tail _ (.tail _ (.tail _ (.tail _ (.head _))))))⟩
    simp only [List.forall_mem_cons]
    exact ⟨trivial, trivial, trivial, trivial, trivial, trivial, trivial, List.forall_mem_nil _⟩
  obtain ⟨threadId, token, hcall, hheld, -⟩ :=
    graph_runs_locked fresh_oneThread hruns hfinished hmem trivial
  exact ⟨t, P, hruns, s, s', answer, hmem, threadId, token, hcall, hheld⟩

/-- A state update reads the thread busy, of a run that is over before it asks for the run lock. -/
theorem serves_readBusy : ∃ t P u s, RouteRuns Bool (Pool.idle oneThread) t P ∧
    (∀ e ∈ t, e.Finished) ∧ (∀ i, P.clients i = none) ∧
    (P.store.threads.get? "t").map (·.status) = some .busy ∧ Serves false updateCall t u s ∧
    (∃ s₁ s₂ locked, .op false updateCall (.api (.tryAcquireRunLock "t" "a")) s₁
      (.ok (some locked)) s₂ ∈ u ∧ locked.lockToken = some "m4") ∧
    lockOf s.threads "t" = some (.busy, some "m4") := by
  obtain ⟨t, P, hruns, hfinished, hdone, hbusy, s₀, p, s, ht, hu, htaken, hlock⟩ : ∃ t P,
      RouteRuns Bool (Pool.idle oneThread) t P ∧ (∀ e ∈ t, e.Finished) ∧
      (∀ i, P.clients i = none) ∧ (P.store.threads.get? "t").map (·.status) = some .busy ∧
      ∃ s₀ p s, t = t.take 4 ++ .start false updateCall s₀ ::
          ((t.drop 5).take 15 ++ .leave false updateCall p s :: []) ∧
        (∀ e ∈ (t.drop 5).take 15, ¬ Starts false e) ∧
        (∃ s₁ s₂ locked, .op false updateCall (.api (.tryAcquireRunLock "t" "a")) s₁
            (.ok (some locked)) s₂ ∈ (t.drop 5).take 15 ∧ locked.lockToken = some "m4") ∧
        lockOf s.threads "t" = some (.busy, some "m4") := by
    refine ⟨_, _, .cons (.start (i := true) (l := waitCall) rfl trivial) <|
      .cons (.op (i := true) rfl (routes_api true _ _ "k1" (by decide) (by decide))) <|
      .cons (.op (i := true) rfl (routes_api true _ _ "k2" (by decide) (by decide))) <|
      .cons (.op (i := true) rfl (routes_api true _ _ "k3" (by decide) (by decide))) <|
      .cons (.start (i := false) (l := updateCall) rfl trivial) <|
      .cons (.op (i := false) rfl (routes_api false _ _ "m1" (by decide) (by decide))) <|
      .cons (.op (i := false) rfl (routes_api false _ _ "m2" (by decide) (by decide))) <|
      .cons (.op (i := true) rfl (routes_api true _ _ "k4" (by decide) (by decide))) <|
      .cons (.op (i := true) rfl (routes_api true _ _ "k5" (by decide) (by decide))) <|
      .cons (.op (i := true) rfl (routes_api true _ _ "k6" (by decide) (by decide))) <|
      .cons (.op (i := true) rfl (routes_api true _ _ "k7" (by decide) (by decide))) <|
      .cons (.op (i := true) rfl (routes_api true _ _ "k8" (by decide) (by decide))) <|
      .cons (.op (i := true) rfl (routes_api true _ _ "k9" (by decide) (by decide))) <|
      .cons (.leave (i := true) rfl) <|
      .cons (.op (i := false) rfl (routes_api false _ _ "m3" (by decide) (by decide))) <|
      .cons (.op (i := false) rfl (routes_api false _ _ "m4" (by decide) (by decide))) <|
      .cons (.op (i := false) rfl (routes_api false _ _ "m5" (by decide) (by decide))) <|
      .cons (.op (i := false) rfl (routes_updateState false _ _ _ _)) <|
      .cons (.op (i := false) rfl (routes_api false _ _ "m6" (by decide) (by decide))) <|
      .cons (.op (i := false) rfl (routes_api false _ _ "m7" (by decide) (by decide))) <|
      .cons (.leave (i := false) rfl) .nil, ?_, ?_, rfl, _, _, _, rfl, ?_, ?_, rfl⟩
    · simp only [List.forall_mem_cons]
      exact ⟨trivial, trivial, trivial, trivial, trivial, trivial, trivial, trivial, trivial,
        trivial, trivial, trivial, trivial, rfl, trivial, trivial, trivial, trivial, trivial,
        trivial, rfl, List.forall_mem_nil _⟩
    · intro i
      cases i <;> rfl
    · simp only [List.drop_succ_cons, List.drop_zero, List.take_succ_cons, List.take_zero,
        List.forall_mem_cons]
      exact ⟨id, id, id, id, id, id, id, id, id, id, id, id, id, id, id, List.forall_mem_nil _⟩
    · exact ⟨_, _, _, .tail _ (.tail _ (.tail _ (.tail _ (.tail _ (.tail _ (.tail _ (.tail _
        (.tail _ (.tail _ (.head _)))))))))), rfl⟩
  exact ⟨t, P, _, s, hruns, hfinished, hdone, hbusy, ⟨⟨_, s₀, p, [], ht⟩, hu⟩, htaken, hlock⟩

theorem busy_accounted_updateCall : ∃ t P, RouteRuns Bool (Pool.idle oneThread) t P ∧
    (∀ i, P.clients i = none) ∧ ∃ thread token, P.store.threads.get? "t" = some thread ∧
      thread.status = .busy ∧ thread.lockToken = some token ∧ ("t", token) ∈ P.store.left := by
  obtain ⟨t, P, u, s, hruns, hfinished, hdone, hbusy, -⟩ := serves_readBusy
  obtain ⟨thread, hget, hstatus⟩ := Option.map_eq_some_iff.mp hbusy
  obtain ⟨token, htoken, hown⟩ :=
    (busy_accounted fresh_oneThread hruns hfinished).1 "t" thread hget hstatus
  refine ⟨t, P, hruns, hdone, thread, token, hget, hstatus, htoken, hown.resolve_left ?_⟩
  rintro ⟨i, call, p, hclient, -⟩
  rw [hdone i] at hclient
  cases hclient

end LangGraphFunctions.Platform.RunLocks

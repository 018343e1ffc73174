import LangGraphFunctions.Errors
import LangGraphFunctions.Lib.Tasks

/-! The events of a synchronous graph, pulled from its iterator by worker threads. -/

namespace LangGraphFunctions.Native.SyncIterator

open Lib Tasks

inductive Job
  | next
  | close

variable {Event State : Type}

abbrev Job.Ans (Event : Type) : Job → Type
  | .next => Option Event
  | .close => Unit

def jobs (Event : Type) : Tasks.Jobs Exn where
  Job := Job
  Ans := Job.Ans Event
  Outcome _ _ := True

abbrev Coro (Event : Type) := Tasks.Coro (jobs Event)
abbrev Loop (Event : Type) := Tasks.Loop (jobs Event)
abbrev Task (Event : Type) := Tasks.Task (jobs Event)
abbrev Result (α : Type) := Except (Raised Exn) α

abbrev Raises (Event : Type) := List (Option (jobs Event).Job)

/-- The job handed to a worker, and `_await_sync_worker` on its task. -/
def awaitSyncWorker (fuel : Nat) (job : Job) : Coro Event (Job.Ans Event job) := do
  let task ← Tasks.perform (J := jobs Event) (.spawn job)
  let cancellation ← untilDone (J := jobs Event) false job task fuel false
  match ← Tasks.perform (J := jobs Event) (.await job task) with
  | .error e => if e.isException && cancellation then .raise .cancelled else .raise e
  | .ok result => if cancellation then .raise .cancelled else return result

abbrev Use (State : Type) := Prog ⟨Unit, fun _ => Result Unit⟩ (Raised Exn) State

def Use.program (use : Use State) : Coro Event State :=
  use.interpret fun _ => Tasks.perform (J := jobs Event) .pause

/-- The loop of `_aiter_graph_events` over the iterator of a synchronous graph. -/
def pullEvents (fuel : Nat) (consume : State → Event → Use State) : Nat → State → Coro Event Unit
  | 0, _ => do
    let never ← Tasks.perform (J := jobs Event) .stuck
    nomatch never
  | steps + 1, state => do
    match ← awaitSyncWorker fuel .next with
    | none => return
    | some event =>
      let state ← (consume state event).program
      pullEvents fuel consume steps state

/-- `_aiter_graph_events` of a synchronous graph, whose iterator may be one that closes. -/
def aiterGraphEvents (fuel steps : Nat) (closes : Bool) (consume : State → Event → Use State)
    (state : State) : Coro Event Unit := do
  let outcome ← (pullEvents fuel consume steps state).attempt
  if closes then awaitSyncWorker fuel .close
  .ofExcept outcome

variable {n : Nat} {L : List (Task Event)} {D : Raises Event} {s s' : Loop Event} {fuel : Nat}

abbrev Guarded {α : Type} (n : Nat) (p : Coro Event α) (Q : Result α → Loop Event → Prop)
    (s : Loop Event) : Prop :=
  p.Safe (service (jobs Event)) Threads (Sequential n) Q s

def WorkerEnds (n : Nat) (L : List (Task Event)) (job : Job) (D : Raises Event)
    (r : Result (Job.Ans Event job)) (s : Loop Event) : Prop :=
  ∃ a, ∃ raised : Raises Event, Own n (L ++ [⟨job, .done a⟩]) s ∧ s.raisedAt = raised ++ D ∧
    (r = outcome a ∧ (raised ≠ [] → ∃ e, a = .error e) ∨ r = .error .cancelled ∧ raised ≠ [])

theorem Waiting.workerEnds {job : Job} {cancelled : Bool} {a : Except Exn (Job.Ans Event job)}
    {r : Result (Job.Ans Event job)}
    (h : Tasks.Waiting (J := jobs Event) n L job D cancelled (.done a) s)
    (hr : r = outcome a ∧ (cancelled = true → ∃ e, a = .error e) ∨
      r = .error .cancelled ∧ cancelled = true) : WorkerEnds n L job D r s := by
  obtain ⟨m, hm, hcancelled⟩ := h.raisedAt
  have hraised : List.replicate m (some job) ≠ [] ↔ cancelled = true := by
    rw [hcancelled, Nat.pos_iff_ne_zero, ne_eq, List.replicate_eq_nil_iff]
  refine ⟨a, List.replicate m (some job), h.own, hm, ?_⟩
  cases hr with
  | inl hr => exact .inl ⟨hr.1, fun hne => hr.2 (hraised.mp hne)⟩
  | inr hr => exact .inr ⟨hr.1, hraised.mpr hr.2⟩

theorem awaitSyncWorker_safe (hL : AllDone L) (h : Own n L s) (job : Job) :
    Guarded n (awaitSyncWorker fuel job) (WorkerEnds n L job s.raisedAt) s := by
  intro s₁ h₁ task s₂ hs₂
  obtain ⟨rfl, rfl⟩ := hs₂
  have hown := h.later hL h₁.later
  constructor
  · change AllDone (s₁.tasks.drop n)
    rw [hown.tasks]
    exact hL
  have hwaiting : Tasks.Waiting (J := jobs Event) n L job s.raisedAt false .queued
      { s₁ with tasks := s₁.tasks ++ [⟨job, .queued⟩] } :=
    ⟨hown.spawn job, fun r hr => (by simp at hr), 0, h₁.raisedAt, by simp⟩
  rw [hown.length]
  change Guarded n (untilDone (J := jobs Event) false job (n + L.length) fuel false >>= _) _ _
  apply Prog.safe_bind.mpr
  apply untilDone_safe hL ?_ ?_ fuel hwaiting
  · intro a cancelled s₂ hwaiting
    apply Prog.safe_bind.mpr
    apply await_safe hL hwaiting
    intro s₃ hwaiting
    cases a with
    | error e =>
      cases cancelled with
      | true => exact Waiting.workerEnds hwaiting (.inr ⟨rfl, rfl⟩)
      | false => exact Waiting.workerEnds hwaiting (.inl ⟨rfl, fun _ => ⟨e, rfl⟩⟩)
    | ok a =>
      cases cancelled with
      | true => exact Waiting.workerEnds hwaiting (.inr ⟨rfl, rfl⟩)
      | false => exact Waiting.workerEnds hwaiting (.inl ⟨rfl, fun h => by cases h⟩)
  · intro _ e cancelled s₂ hwaiting
    exact Waiting.workerEnds hwaiting (.inl ⟨rfl, fun _ => ⟨e, rfl⟩⟩)

def given (events : List Event) : List (Task Event) :=
  events.map fun event => ⟨.next, .done (.ok (some event))⟩

inductive Pulled : List (Task Event) → Result Unit → Prop
  | exhausted (events : List Event) : Pulled (given events ++ [⟨.next, .done (.ok none)⟩]) (.ok ())
  | failed (events : List Event) (e : Exn) :
      Pulled (given events ++ [⟨.next, .done (.error e)⟩]) (.error (.exception e))
  | cancelled (events : List Event) (a : Except Exn (Option Event)) :
      Pulled (given events ++ [⟨.next, .done a⟩]) (.error .cancelled)
  | left (events : List Event) (e : Raised Exn) : events ≠ [] → Pulled (given events) (.error e)

theorem Pulled.cons {pulls : List (Task Event)} {r : Result Unit} (h : Pulled pulls r)
    (event : Event) : Pulled (given [event] ++ pulls) r := by
  cases h with
  | exhausted events => exact .exhausted (event :: events)
  | failed events e => exact .failed (event :: events) e
  | cancelled events a => exact .cancelled (event :: events) a
  | left events e => exact .left (event :: events) e (List.cons_ne_nil event events)

theorem allDone_given (events : List Event) : AllDone (given events) := by
  intro x hx
  obtain ⟨event, -, rfl⟩ := List.mem_map.mp hx
  exact ⟨_, rfl⟩

theorem Pulled.allDone {pulls : List (Task Event)} {r : Result Unit} (h : Pulled pulls r) :
    AllDone pulls := by
  cases h with
  | exhausted events => exact (allDone_given events).append allDone_singleton
  | failed events e => exact (allDone_given events).append allDone_singleton
  | cancelled events a => exact (allDone_given events).append allDone_singleton
  | left events e => exact allDone_given events

def Kept (raised : Raises Event) (own : List (Task Event)) (r : Result Unit) : Prop :=
  (∃ job, some job ∈ raised) → r = .error .cancelled ∨
    ∃ e, r = .error (.exception e) ∧ ∃ job, ⟨job, .done (.error e)⟩ ∈ own

def PulledBy (n : Nat) (L : List (Task Event)) (D : Raises Event) (r : Result Unit)
    (s : Loop Event) : Prop :=
  ∃ pulls, ∃ raised : Raises Event, Own n (L ++ pulls) s ∧ Pulled pulls r ∧
    s.raisedAt = raised ++ D ∧ Kept raised pulls r

def InUse (n : Nat) (L : List (Task Event)) (D : Raises Event) (s : Loop Event) : Prop :=
  Own n L s ∧ ∃ raised : Raises Event, s.raisedAt = raised ++ D ∧ ∀ at? ∈ raised, at? = none

theorem InUse.later (h : InUse n L D s) (hL : AllDone L) (hle : Later s s')
    (hraised : s'.raisedAt = s.raisedAt) : InUse n L D s' := by
  obtain ⟨hown, raised, hD, hnone⟩ := h
  exact ⟨hown.later hL hle, raised, hraised.trans hD, hnone⟩

theorem program_safe (hL : AllDone L) (h : InUse n L D s) (use : Use State) :
    Guarded n use.program (fun _ => InUse n L D) s := by
  refine Prog.safe_interpret (InUse n L D) (fun _ s h => ?_) (fun _ _ h => h) use h
  intro s₁ h₁ a s₂ hs₂
  have h₁ := h.later hL h₁.later h₁.raisedAt
  refine ⟨trivial, ⟨a, rfl⟩, ?_⟩
  cases hs₂ with
  | result hsuspended _ => exact h₁.later hL hsuspended.later hsuspended.raisedAt
  | cancelled hsuspended _ =>
    obtain ⟨hown, raised, hD, hnone⟩ := h₁.later hL hsuspended.later hsuspended.raisedAt
    refine ⟨⟨hown.le, hown.tasks⟩, none :: raised, ?_, ?_⟩
    · rw [Loop.deliver, hD]
      rfl
    · exact List.forall_mem_cons.mpr ⟨rfl, hnone⟩

theorem pullEvents_safe (hL : AllDone L) (h : Own n L s) (consume : State → Event → Use State)
    (steps : Nat) (state : State) :
    Guarded n (pullEvents fuel consume steps state) (PulledBy n L s.raisedAt) s := by
  induction steps generalizing L s state with
  | zero =>
    intro _ _ never
    cases never
  | succ steps ih =>
    apply Prog.safe_bind.mpr
    apply (awaitSyncWorker_safe hL h .next).mono
    rintro r s₁ ⟨a, raised, hown, hraised, ⟨rfl, herror⟩ | ⟨rfl, -⟩⟩
    · cases a with
      | error e =>
        exact ⟨_, raised, hown, .failed [] e, hraised, fun _ =>
          .inr ⟨e, rfl, .next, List.mem_singleton.mpr rfl⟩⟩
      | ok event =>
        have hnil : raised = [] := by
          by_contra hne
          obtain ⟨e, he⟩ := herror hne
          cases he
        subst hnil
        cases event with
        | none => exact ⟨_, [], hown, .exhausted [], hraised, fun h => by simp at h⟩
        | some event =>
          have hgiven : AllDone (L ++ given [event]) := hL.append (allDone_given [event])
          have huse : InUse n (L ++ given [event]) s.raisedAt s₁ :=
            ⟨hown, [], hraised, List.forall_mem_nil _⟩
          apply Prog.safe_bind.mpr
          apply (program_safe hgiven huse (consume state event)).mono
          rintro r s₂ ⟨hown, raised, hraised, hnone⟩
          have hsome : ¬ ∃ job, some job ∈ raised := by
            rintro ⟨job, hjob⟩
            cases hnone _ hjob
          cases r with
          | error e =>
            exact ⟨_, raised, hown, .left [event] e (List.cons_ne_nil _ _), hraised,
              fun h => absurd h hsome⟩
          | ok state =>
            apply (ih hgiven hown state).mono
            rintro r s₃ ⟨pulls, raised', hown, hpulled, hraised', hkept⟩
            refine ⟨given [event] ++ pulls, raised' ++ raised, ?_, hpulled.cons event, ?_, ?_⟩
            · rwa [← List.append_assoc]
            · rw [hraised', hraised, List.append_assoc]
            · rintro ⟨job, hjob⟩
              have hjob := (List.mem_append.mp hjob).resolve_right fun hjob => hsome ⟨job, hjob⟩
              apply (hkept ⟨job, hjob⟩).imp_right
              rintro ⟨e, hr, job, hmem⟩
              exact ⟨e, hr, job, List.mem_append_right _ hmem⟩
    · exact ⟨_, raised, hown, .cancelled [] a, hraised, fun _ => .inl rfl⟩

inductive Closed (closes : Bool) (pending : Result Unit) : List (Task Event) → Result Unit → Prop
  | spared : closes = false → Closed closes pending [] pending
  | closed : closes = true → Closed closes pending [⟨.close, .done (.ok ())⟩] pending
  | failed (e : Exn) : closes = true →
      Closed closes pending [⟨.close, .done (.error e)⟩] (.error (.exception e))
  | cancelled (a : Except Exn Unit) : closes = true →
      Closed closes pending [⟨.close, .done a⟩] (.error .cancelled)

def Iterated (closes : Bool) (own : List (Task Event)) (r : Result Unit) : Prop :=
  ∃ pulls closing pending, own = pulls ++ closing ∧ Pulled pulls pending ∧
    Closed closes pending closing r

theorem aiterGraphEvents_safe (hL : AllDone L) (h : Own n L s) (closes : Bool)
    (consume : State → Event → Use State) (steps : Nat) (state : State) :
    Guarded n (aiterGraphEvents fuel steps closes consume state) (fun r s' =>
      ∃ own, ∃ raised : Raises Event, Own n (L ++ own) s' ∧ Iterated closes own r ∧
        s'.raisedAt = raised ++ s.raisedAt ∧ Kept raised own r) s := by
  apply Prog.safe_bind.mpr
  apply Prog.safe_attempt.mpr
  apply (pullEvents_safe hL h consume steps state).mono
  rintro pending s₁ ⟨pulls, raised, hown, hpulled, hraised, hkept⟩
  cases closes with
  | false =>
    apply Prog.safe_ofExcept
    refine ⟨pulls, raised, hown, ⟨pulls, [], pending, ?_, hpulled, .spared rfl⟩, hraised, hkept⟩
    rw [List.append_nil]
  | true =>
    apply Prog.safe_bind.mpr
    apply (awaitSyncWorker_safe (hL.append hpulled.allDone) hown .close).mono
    rintro r s₂ ⟨a, raised', hown, hraised', hr⟩
    rw [List.append_assoc] at hown
    rw [hraised, ← List.append_assoc] at hraised'
    have hends (r' : Result Unit) (hclosed : Closed true pending [⟨.close, .done a⟩] r')
        (hkept : Kept (raised' ++ raised) (pulls ++ [⟨.close, .done a⟩]) r') :
        ∃ own, ∃ raised : Raises Event, Own n (L ++ own) s₂ ∧ Iterated true own r' ∧
          s₂.raisedAt = raised ++ s.raisedAt ∧ Kept raised own r' :=
      ⟨_, _, hown, ⟨pulls, _, pending, rfl, hpulled, hclosed⟩, hraised', hkept⟩
    rcases hr with ⟨rfl, herror⟩ | ⟨rfl, -⟩
    · cases a with
      | error e =>
        apply hends (.error (.exception e)) (.failed e rfl)
        exact fun _ => .inr ⟨e, rfl, .close, List.mem_append_right _ (List.mem_singleton.mpr rfl)⟩
      | ok _ =>
        apply Prog.safe_ofExcept
        apply hends pending (.closed rfl)
        rintro ⟨job, hjob⟩
        have hnil : raised' = [] := by
          by_contra hne
          obtain ⟨e, he⟩ := herror hne
          cases he
        rw [hnil, List.nil_append] at hjob
        apply (hkept ⟨job, hjob⟩).imp_right
        rintro ⟨e, hr, job, hmem⟩
        exact ⟨e, hr, job, List.mem_append_left _ hmem⟩
    · exact hends (.error .cancelled) (.cancelled a rfl) fun _ => .inl rfl

/-- Whatever cancellations come and wherever the consumer leaves: no worker uses the iterator while
another does, the iterator is closed last and once, and a cancellation met while a worker has the
iterator is raised at the end, unless a worker fails. -/
theorem iterator_unraced (fuel steps : Nat) (closes : Bool) (consume : State → Event → Use State)
    (state : State) {r : Result Unit}
    {t : List (Lib.Event (Tasks.interface (jobs Event)) (Loop Event))}
    (h : Exec (service (jobs Event)) Threads (aiterGraphEvents fuel steps closes consume state) s t
      (.ofExcept r) s') :
    Iterated closes (s'.tasks.drop s.tasks.length) r ∧
      (∀ e ∈ t, e.Satisfies (Sequential s.tasks.length)) ∧
      ∃ raised : Raises Event, s'.raisedAt = raised ++ s.raisedAt ∧
        Kept raised (s'.tasks.drop s.tasks.length) r := by
  have hown : Own s.tasks.length [] s := ⟨Nat.le_refl _, List.drop_length⟩
  obtain ⟨hend, ht⟩ := h.safe (fun _ => .refl) (fun h h' => h.trans h')
    (aiterGraphEvents_safe (List.forall_mem_nil _) hown closes consume steps state)
  obtain ⟨own, raised, hown, hiterated, hraised, hkept⟩ := Prog.safe_ofExcept_iff.mp hend
  rw [hown.tasks]
  exact ⟨hiterated, ht, raised, hraised, hkept⟩

def takeEach (_ : Unit) (_ : Unit) : Use Unit := .ret ()

theorem iterator_unraced_cancelled :
    let s : Loop Unit := ⟨0, false, [], []⟩
    let s' : Loop Unit := ⟨1, false, [⟨.next, .done (.ok (some ()))⟩, ⟨.close, .done (.ok ())⟩],
      [some .next]⟩
    ∃ t, Exec (service (jobs Unit)) Threads
        (aiterGraphEvents 3 1 true takeEach ()) s t (.ofExcept (.error .cancelled)) s' ∧
      Iterated true s'.tasks (.error .cancelled) := by
  intro s s'
  have hrun : ∃ t, Exec (service (jobs Unit)) Threads
      (aiterGraphEvents 3 1 true takeEach ()) s t (.ofExcept (.error .cancelled)) s' := by
    refine Exec.exists_call ⟨rfl, rfl⟩ ?_
    refine Exec.exists_call (step_done_queued (j := Job.next) rfl) ?_
    refine Exec.exists_call (Resumes.cancelled (.single .cancel) rfl) ?_
    refine Exec.exists_call (step_done_queued (j := Job.next) rfl) ?_
    refine Exec.exists_call
      (@step_shield_queued _ (jobs Unit) .next _ _ (.ok (some ())) rfl trivial rfl) ?_
    refine Exec.exists_call (step_done (j := Job.next) rfl) ?_
    refine Exec.exists_call (@step_await _ (jobs Unit) .next _ _ (.ok (some ())) rfl) ?_
    refine Exec.exists_call ⟨rfl, rfl⟩ ?_
    refine Exec.exists_call (step_done_queued (j := Job.close) rfl) ?_
    refine Exec.exists_call
      (@step_shield_queued _ (jobs Unit) .close _ _ (.ok ()) rfl trivial rfl) ?_
    refine Exec.exists_call (step_done (j := Job.close) rfl) ?_
    exact Exec.exists_call (@step_await _ (jobs Unit) .close _ _ (.ok ()) rfl) ⟨[], .stop⟩
  obtain ⟨t, ht⟩ := hrun
  exact ⟨t, ht, (iterator_unraced 3 1 true takeEach () ht).1⟩

end LangGraphFunctions.Native.SyncIterator

import LangGraphFunctions.Errors
import LangGraphFunctions.Lib.Dict
import LangGraphFunctions.Lib.Tasks

/-! Probes of readiness over one runner, with the threads of its checks. -/

namespace LangGraphFunctions.Readiness

open Lib

inductive ComponentStatus
  | ok
  | failed
  deriving DecidableEq

abbrev Outcome := Except (Raised Exn) Bool

inductive Progress
  | pending
  | running
  | done (outcome : Outcome)

structure Future where
  name : String
  progress : Progress

def Future.outcome? (future : Future) : Option Outcome :=
  match future.progress with
  | .done outcome => some outcome
  | _ => none

def Future.isPending (future : Future) : Bool :=
  match future.progress with
  | .pending => true
  | _ => false

def Future.isRunning (future : Future) : Bool :=
  match future.progress with
  | .running => true
  | _ => false

/-- The runner with what the executor was given, in that order, the probe in `_current_futures` with
the checks that are still before it, and the futures that a probe waits for. -/
structure ReadinessRunner where
  submitted : List Future
  futures : Dict String Nat
  holder : Option (Nat × List String)
  waiting : Nat → Option (Dict String Nat)

namespace ReadinessRunner

def idle : ReadinessRunner := ⟨[], ∅, none, fun _ => none⟩

def outcome? (runner : ReadinessRunner) (i : Nat) : Option Outcome :=
  runner.submitted[i]?.bind Future.outcome?

/-- `self._futures[name] = self._executor.submit(_run_check, check)`. -/
def submit (runner : ReadinessRunner) (name : String) : ReadinessRunner :=
  { runner with
    submitted := runner.submitted ++ [⟨name, .pending⟩]
    futures := runner.futures.set name runner.submitted.length }

def stale (runner : ReadinessRunner) (name : String) : Bool :=
  match runner.futures.get? name with
  | some i => (runner.outcome? i).isSome
  | none => true

def proceed (runner : ReadinessRunner) (i : Nat) (name : String) (progress : Progress) :
    ReadinessRunner :=
  { runner with submitted := runner.submitted.set i ⟨name, progress⟩ }

end ReadinessRunner

open ReadinessRunner

/-- The steps of the probes and of the workers; the checks run on while a probe holds the lock.
`refuse` is a submission that raises `RuntimeError`: the executor has been shut down, or `queued` the
check before it failed to start a thread. -/
inductive Action
  | enter (probe : Nat)
  | examine
  | refuse (queued : Bool)
  | leave
  | start (i : Nat)
  | finish (i : Nat) (outcome : Outcome)
  | report (probe : Nat)

def maxWorkers (checks : List String) : Nat := min 4 checks.length

def canStart (checks : List String) (runner : ReadinessRunner) (i : Nat) : Bool :=
  decide (runner.submitted.countP Future.isRunning < maxWorkers checks) &&
    !(runner.submitted.take i).any Future.isPending

def step (checks : List String) (runner : ReadinessRunner) : Action → Option ReadinessRunner
  | .enter probe =>
    if runner.holder.isNone && (runner.waiting probe).isNone then
      some { runner with holder := some (probe, checks) }
    else none
  | .examine =>
    match runner.holder with
    | some (probe, name :: names) =>
      let runner := { runner with holder := some (probe, names) }
      some (if runner.stale name then runner.submit name else runner)
    | _ => none
  | .refuse queued =>
    match runner.holder with
    | some (_, name :: _) =>
      if runner.stale name then
        some { runner with
          submitted := if queued then runner.submitted ++ [⟨name, .pending⟩] else runner.submitted
          holder := none }
      else none
    | _ => none
  | .leave =>
    match runner.holder with
    | some (probe, []) => some { runner with
        holder := none
        waiting := Function.update runner.waiting probe (some runner.futures) }
    | _ => none
  | .start i =>
    match runner.submitted[i]? with
    | some ⟨name, .pending⟩ =>
      if canStart checks runner i then some (runner.proceed i name .running) else none
    | _ => none
  | .finish i outcome =>
    match runner.submitted[i]? with
    | some ⟨name, .running⟩ => some (runner.proceed i name (.done outcome))
    | _ => none
  | .report probe =>
    if (runner.waiting probe).isSome then
      some { runner with waiting := Function.update runner.waiting probe none }
    else none

inductive Runs (checks : List String) : List Action → ReadinessRunner → Prop
  | idle : Runs checks [] idle
  | step {t : List Action} {runner runner' : ReadinessRunner} {action : Action} :
      Runs checks t runner → step checks runner action = some runner' →
      Runs checks (t ++ [action]) runner'

def componentStatus (runner : ReadinessRunner) (done : Nat → Bool) (i : Nat) :
    Except (Raised Exn) ComponentStatus :=
  if done i then
    match runner.outcome? i with
    | some (.ok true) => .ok .ok
    | some (.error e) => if e.isException then .ok .failed else .error e
    | _ => .ok .failed
  else .ok .failed

def components (runner : ReadinessRunner) (done : Nat → Bool) :
    List (String × Nat) → Except (Raised Exn) (List (String × ComponentStatus))
  | [] => .ok []
  | (name, i) :: items => do
    let status ← componentStatus runner done i
    let statuses ← components runner done items
    return (name, status) :: statuses

structure Deadline where
  timeoutSeconds : Rat
  timeoutMax : Rat

def overflowError : Exn := .other "timeout value is too large"

/-- What `wait` may come to: the futures that it says are done are, and it raises where it would have
to wait longer than a lock can. -/
def Deadline.Waits (deadline : Deadline) (runner : ReadinessRunner) (futures : Dict String Nat) :
    Except Exn (Nat → Bool) → Prop
  | .ok done => ∀ i, done i → (runner.outcome? i).isSome
  | .error e => e = overflowError ∧ deadline.timeoutMax < deadline.timeoutSeconds ∧
      ∃ x ∈ futures.items, runner.outcome? x.2 = none

def probeResult (runner : ReadinessRunner) (futures : Dict String Nat) :
    Except Exn (Nat → Bool) → Except (Raised Exn) (List (String × ComponentStatus))
  | .ok done => components runner done futures.items
  | .error e => .error (.exception e)

def healthReady (statuses : List (String × ComponentStatus)) : Nat :=
  if statuses.all (·.2 == .ok) then 200 else 503

variable {checks : List String} {runner runner' : ReadinessRunner} {action : Action}
  {t : List Action} {i : Nat} {name : String} {outcome : Outcome}

theorem outcome?_eq {f : Future} (h : runner.submitted[i]? = some f) :
    runner.outcome? i = f.outcome? := by
  rw [outcome?, h, Option.bind_some]

structure Extends (runner : ReadinessRunner) (action : Action) (runner' : ReadinessRunner) :
    Prop where
  names : ∀ i f, runner.submitted[i]? = some f → ∃ f', runner'.submitted[i]? = some f' ∧
    f'.name = f.name ∧ ∀ outcome, f'.outcome? = some outcome →
      f.outcome? = some outcome ∨ action = .finish i outcome

theorem Extends.of_append {futures : List Future}
    (h : runner'.submitted = runner.submitted ++ futures) : Extends runner action runner' := by
  constructor
  intro i f hf
  refine ⟨f, ?_, rfl, fun _ => .inl⟩
  rw [h]
  exact (List.getElem?_append_left (List.getElem?_eq_some_iff.mp hf).1).trans hf

theorem Extends.of_same (h : runner'.submitted = runner.submitted) :
    Extends runner action runner' :=
  .of_append (h.trans (List.append_nil _).symm)

theorem extends_proceed {progress progress' : Progress}
    (h : runner.submitted[i]? = some ⟨name, progress'⟩)
    (hprogress : ∀ outcome, progress = .done outcome → action = .finish i outcome) :
    Extends runner action (runner.proceed i name progress) := by
  constructor
  intro j f hf
  by_cases hij : i = j
  · subst hij
    cases h.symm.trans hf
    refine ⟨⟨name, progress⟩, ?_, rfl, fun outcome houtcome => .inr (hprogress outcome ?_)⟩
    · exact List.getElem?_set_self (List.getElem?_eq_some_iff.mp h).1
    · cases progress with
      | done outcome' =>
        cases houtcome
        rfl
      | _ => cases houtcome
  · exact ⟨f, (List.getElem?_set_ne hij).trans hf, rfl, fun _ => .inl⟩

theorem step_extends (h : step checks runner action = some runner') :
    Extends runner action runner' := by
  cases action with
  | enter probe =>
    rw [step, Option.ite_none_right_eq_some] at h
    obtain ⟨-, ⟨⟩⟩ := h
    exact .of_same rfl
  | examine =>
    rw [step] at h
    split at h
    · cases h
      split
      · exact .of_append rfl
      · exact .of_same rfl
    · cases h
  | refuse queued =>
    rw [step] at h
    split at h
    · rw [Option.ite_none_right_eq_some] at h
      obtain ⟨-, ⟨⟩⟩ := h
      cases queued with
      | false => exact .of_same rfl
      | true => exact .of_append rfl
    · cases h
  | leave =>
    rw [step] at h
    split at h
    · cases h
      exact .of_same rfl
    · cases h
  | start i =>
    rw [step] at h
    split at h
    · next name hi =>
      rw [Option.ite_none_right_eq_some] at h
      obtain ⟨-, ⟨⟩⟩ := h
      exact extends_proceed hi fun _ h => by cases h
    · cases h
  | finish i outcome =>
    rw [step] at h
    split at h
    · next name hi =>
      cases h
      refine extends_proceed hi fun outcome' h => ?_
      cases h
      rfl
    · cases h
  | report probe =>
    rw [step, Option.ite_none_right_eq_some] at h
    obtain ⟨-, ⟨⟩⟩ := h
    exact .of_same rfl

def Fresh (runner : ReadinessRunner) (b : List Action) (name : String) (i : Nat) : Prop :=
  ∃ f, runner.submitted[i]? = some f ∧ f.name = name ∧
    ∀ outcome, f.outcome? = some outcome → .finish i outcome ∈ b

theorem Fresh.step {b : List Action} (h : Fresh runner b name i)
    (hstep : Extends runner action runner') : Fresh runner' (b ++ [action]) name i := by
  obtain ⟨f, hf, hname, hended⟩ := h
  obtain ⟨f', hf', hname', houtcome⟩ := hstep.names i f hf
  refine ⟨f', hf', hname'.trans hname, fun outcome h => List.mem_append.mpr ?_⟩
  rcases houtcome outcome h with h | rfl
  · exact .inl (hended outcome h)
  · exact .inr (List.mem_singleton_self _)

structure Sound (checks : List String) (t : List Action) (runner : ReadinessRunner) : Prop where
  registered : ∀ name i, runner.futures.get? name = some i →
    name ∈ checks ∧ ∃ f, runner.submitted[i]? = some f ∧ f.name = name
  current : .refuse true ∉ t → ∀ i f, runner.submitted[i]? = some f → f.outcome? = none →
    runner.futures.get? f.name = some i
  holding : ∀ probe names, runner.holder = some (probe, names) →
    ∃ a b, t = a ++ .enter probe :: b ∧ (∀ name ∈ names, name ∈ checks) ∧
      ∀ name ∈ checks, name ∈ names ∨
        ∃ i, runner.futures.get? name = some i ∧ Fresh runner b name i
  waiting : ∀ probe futures, runner.waiting probe = some futures →
    ∃ a b, t = a ++ .enter probe :: b ∧ (∀ name, name ∈ futures.keys ↔ name ∈ checks) ∧
      ∀ name i, futures.get? name = some i → Fresh runner b name i

theorem sound_idle : Sound checks [] idle where
  registered _ _ h := by cases h
  current _ _ _ h := by cases h
  holding _ _ h := by cases h
  waiting _ _ h := by cases h

theorem Sound.registered_step (hsound : Sound checks t runner)
    (hstep : Extends runner action runner') (h : runner.futures.get? name = some i) :
    name ∈ checks ∧ ∃ f, runner'.submitted[i]? = some f ∧ f.name = name := by
  obtain ⟨hname, f, hf, hfname⟩ := hsound.registered name i h
  obtain ⟨f', hf', hname', -⟩ := hstep.names i f hf
  exact ⟨hname, f', hf', hname'.trans hfname⟩

theorem Sound.waiting_step (hsound : Sound checks t runner)
    (hstep : Extends runner action runner') {probe : Nat} {futures : Dict String Nat}
    (h : runner.waiting probe = some futures) :
    ∃ a b, t ++ [action] = a ++ .enter probe :: b ∧ (∀ name, name ∈ futures.keys ↔ name ∈ checks) ∧
      ∀ name i, futures.get? name = some i → Fresh runner' b name i := by
  obtain ⟨a, b, rfl, hkeys, hfresh⟩ := hsound.waiting probe futures h
  refine ⟨a, b ++ [action], by rw [List.append_assoc, List.cons_append], hkeys, ?_⟩
  exact fun name i hi => (hfresh name i hi).step hstep

theorem Sound.holding_step (hsound : Sound checks t runner) (hstep : Extends runner action runner')
    (hfutures : runner'.futures = runner.futures) {probe : Nat} {names : List String}
    (h : runner.holder = some (probe, names)) :
    ∃ a b, t ++ [action] = a ++ .enter probe :: b ∧ (∀ name ∈ names, name ∈ checks) ∧
      ∀ name ∈ checks, name ∈ names ∨
        ∃ i, runner'.futures.get? name = some i ∧ Fresh runner' b name i := by
  obtain ⟨a, b, rfl, hnames, hfresh⟩ := hsound.holding probe names h
  refine ⟨a, b ++ [action], by rw [List.append_assoc, List.cons_append], hnames, ?_⟩
  intro name hname
  refine (hfresh name hname).imp id ?_
  rintro ⟨i, hi, hfresh⟩
  exact ⟨i, by rw [hfutures]; exact hi, hfresh.step hstep⟩

theorem Sound.proceed {progress progress' : Progress} (hsound : Sound checks t runner)
    (hi : runner.submitted[i]? = some ⟨name, progress'⟩)
    (hprogress' : (Future.mk name progress').outcome? = none)
    (hstep : Extends runner action (runner.proceed i name progress)) :
    Sound checks (t ++ [action]) (runner.proceed i name progress) where
  registered name' j hj := by
    exact hsound.registered_step hstep hj
  current hqueued j f hj hf := by
    have hcurrent := hsound.current fun h => hqueued (List.mem_append_left _ h)
    by_cases hij : i = j
    · subst hij
      rw [ReadinessRunner.proceed, List.getElem?_set_self (List.getElem?_eq_some_iff.mp hi).1] at hj
      cases hj
      have hregistered := hcurrent i _ hi hprogress'
      exact hregistered
    · exact hcurrent j f ((List.getElem?_set_ne hij).symm.trans hj) hf
  holding _ _ h := hsound.holding_step hstep rfl h
  waiting _ _ h := hsound.waiting_step hstep h

theorem Sound.enter {probe : Nat} (hsound : Sound checks t runner) :
    Sound checks (t ++ [.enter probe]) { runner with holder := some (probe, checks) } where
  registered := hsound.registered
  current hqueued := hsound.current fun h => hqueued (List.mem_append_left _ h)
  holding _ _ h := by
    cases h
    exact ⟨t, [], rfl, fun _ => id, fun _ => .inl⟩
  waiting _ _ h := hsound.waiting_step (.of_same rfl) h

theorem Sound.report {probe : Nat} (hsound : Sound checks t runner) :
    Sound checks (t ++ [.report probe])
      { runner with waiting := Function.update runner.waiting probe none } where
  registered := hsound.registered
  current hqueued := hsound.current fun h => hqueued (List.mem_append_left _ h)
  holding _ _ h := hsound.holding_step (.of_same rfl) rfl h
  waiting probe' futures h := by
    dsimp only at h
    by_cases hprobe : probe' = probe
    · subst hprobe
      rw [Function.update_self] at h
      cases h
    · rw [Function.update_of_ne hprobe] at h
      exact hsound.waiting_step (.of_same rfl) h

theorem Sound.leave {probe : Nat} (hsound : Sound checks t runner)
    (hholder : runner.holder = some (probe, [])) :
    Sound checks (t ++ [.leave]) { runner with
      holder := none
      waiting := Function.update runner.waiting probe (some runner.futures) } where
  registered := hsound.registered
  current hqueued := hsound.current fun h => hqueued (List.mem_append_left _ h)
  holding _ _ h := by cases h
  waiting probe' futures h := by
    dsimp only at h
    by_cases hprobe : probe' = probe
    · subst hprobe
      rw [Function.update_self] at h
      cases h
      obtain ⟨a, b, rfl, -, hfresh⟩ := hsound.holding probe' [] hholder
      have hall (name : String) (hname : name ∈ checks) :
          ∃ i, runner.futures.get? name = some i ∧ Fresh runner b name i :=
        (hfresh name hname).resolve_left List.not_mem_nil
      refine ⟨a, b ++ [.leave], by rw [List.append_assoc, List.cons_append], ?_, ?_⟩
      · intro name
        rw [Dict.mem_keys_iff]
        constructor
        · rintro ⟨i, hi⟩
          exact (hsound.registered name i hi).1
        · intro hname
          obtain ⟨i, hi, -⟩ := hall name hname
          exact ⟨i, hi⟩
      · intro name i hi
        obtain ⟨j, hj, hfresh⟩ := hall name (hsound.registered name i hi).1
        cases hi.symm.trans hj
        exact hfresh.step (.of_same rfl)
    · rw [Function.update_of_ne hprobe] at h
      exact hsound.waiting_step (.of_same rfl) h

theorem Sound.keep {probe : Nat} {names : List String} (hsound : Sound checks t runner)
    (hholder : runner.holder = some (probe, name :: names)) (hstale : runner.stale name = false) :
    Sound checks (t ++ [.examine]) { runner with holder := some (probe, names) } where
  registered := hsound.registered
  current hqueued := hsound.current fun h => hqueued (List.mem_append_left _ h)
  holding probe' names' h := by
    cases h
    have hstep : Extends runner .examine { runner with holder := some (probe, names) } :=
      .of_same rfl
    obtain ⟨a, b, ht, hnames, hfresh⟩ := hsound.holding_step hstep rfl hholder
    refine ⟨a, b, ht, fun name' h => hnames name' (List.mem_cons_of_mem _ h), fun name' h => ?_⟩
    rcases hfresh name' h with hmem | hfresh
    · rcases List.mem_cons.mp hmem with rfl | hmem
      · rw [stale] at hstale
        split at hstale
        · next i hi =>
          obtain ⟨-, f, hf, hname⟩ := hsound.registered name' i hi
          refine .inr ⟨i, hi, f, hf, hname, fun outcome houtcome => ?_⟩
          rw [outcome?_eq hf, houtcome] at hstale
          cases hstale
        · cases hstale
      · exact .inl hmem
    · exact .inr hfresh
  waiting _ _ h := hsound.waiting_step (.of_same rfl) h

theorem Sound.submit {probe : Nat} {names : List String} (hsound : Sound checks t runner)
    (hholder : runner.holder = some (probe, name :: names)) (hstale : runner.stale name = true) :
    Sound checks (t ++ [.examine]) ({ runner with holder := some (probe, names) }.submit name) := by
  have hstep : Extends runner .examine
      ({ runner with holder := some (probe, names) }.submit name) := .of_append rfl
  obtain ⟨a, b, rfl, hnames, hfresh⟩ := hsound.holding probe (name :: names) hholder
  have hlast : (runner.submitted ++ [⟨name, .pending⟩])[runner.submitted.length]? =
      some ⟨name, .pending⟩ := List.getElem?_concat_length
  constructor
  · intro name' i hi
    change (runner.futures.set name _).get? name' = some i at hi
    rw [Dict.get?_set] at hi
    split at hi
    · next heq =>
      subst heq
      cases hi
      exact ⟨hnames name' List.mem_cons_self, _, hlast, rfl⟩
    · exact hsound.registered_step hstep hi
  · intro hqueued i f hf houtcome
    change (runner.submitted ++ [⟨name, .pending⟩])[i]? = some f at hf
    change (runner.futures.set name _).get? f.name = some i
    by_cases hi : i < runner.submitted.length
    · rw [List.getElem?_append_left hi] at hf
      have hcurrent := hsound.current (fun h => hqueued (List.mem_append_left _ h)) i f hf houtcome
      have hne : f.name ≠ name := by
        rintro rfl
        rw [stale, hcurrent] at hstale
        dsimp only at hstale
        rw [outcome?_eq hf, houtcome] at hstale
        cases hstale
      rw [Dict.get?_set_ne _ _ hne]
      exact hcurrent
    · obtain rfl : i = runner.submitted.length := by
        have hlength := (List.getElem?_eq_some_iff.mp hf).1
        rw [List.length_append, List.length_singleton] at hlength
        omega
      cases hlast.symm.trans hf
      exact Dict.get?_set_self ..
  · rintro _ _ ⟨⟩
    refine ⟨a, b ++ [.examine], by rw [List.append_assoc, List.cons_append],
      fun name' h => hnames name' (List.mem_cons_of_mem _ h), fun name' h => ?_⟩
    change _ ∨ ∃ i, (runner.futures.set name _).get? name' = some i ∧ _
    by_cases heq : name' = name
    · subst heq
      exact .inr ⟨_, Dict.get?_set_self .., _, hlast, rfl, fun _ h => by cases h⟩
    · rcases hfresh name' h with hmem | ⟨i, hi, hfresh⟩
      · exact .inl ((List.mem_cons.mp hmem).resolve_left heq)
      · exact .inr ⟨i, (Dict.get?_set_ne _ _ heq).trans hi, hfresh.step hstep⟩
  · exact fun _ _ h => hsound.waiting_step hstep h

theorem Sound.refuse {queued : Bool} (hsound : Sound checks t runner) {futures : List Future}
    (hfutures : futures = if queued then runner.submitted ++ [⟨name, .pending⟩] else runner.submitted) :
    Sound checks (t ++ [.refuse queued]) { runner with submitted := futures, holder := none } := by
  have hstep : Extends runner (.refuse queued)
      { runner with submitted := futures, holder := none } := by
    cases queued with
    | false => exact .of_same hfutures
    | true => exact .of_append hfutures
  constructor
  · exact fun _ _ h => hsound.registered_step hstep h
  · intro hqueued i f hf houtcome
    cases queued with
    | false =>
      subst hfutures
      exact hsound.current (fun h => hqueued (List.mem_append_left _ h)) i f hf houtcome
    | true => exact absurd (List.mem_append_right t (List.mem_singleton_self _)) hqueued
  · exact fun _ _ h => by cases h
  · exact fun _ _ h => hsound.waiting_step hstep h

theorem sound_step (hsound : Sound checks t runner)
    (h : step checks runner action = some runner') : Sound checks (t ++ [action]) runner' := by
  have hstep := step_extends h
  cases action with
  | enter probe =>
    rw [step, Option.ite_none_right_eq_some] at h
    obtain ⟨-, ⟨⟩⟩ := h
    exact hsound.enter
  | examine =>
    rw [step] at h
    split at h
    · next probe name names hholder =>
      cases h
      split
      · next hstale => exact hsound.submit hholder hstale
      · next hstale => exact hsound.keep hholder (Bool.eq_false_iff.mpr hstale)
    · cases h
  | refuse queued =>
    rw [step] at h
    split at h
    · rw [Option.ite_none_right_eq_some] at h
      obtain ⟨-, ⟨⟩⟩ := h
      exact hsound.refuse rfl
    · cases h
  | leave =>
    rw [step] at h
    split at h
    · next hholder =>
      cases h
      exact hsound.leave hholder
    · cases h
  | start i =>
    rw [step] at h
    split at h
    · next hi =>
      rw [Option.ite_none_right_eq_some] at h
      obtain ⟨-, ⟨⟩⟩ := h
      exact hsound.proceed hi rfl hstep
    · cases h
  | finish i outcome =>
    rw [step] at h
    split at h
    · next hi =>
      cases h
      exact hsound.proceed hi rfl hstep
    · cases h
  | report probe =>
    rw [step, Option.ite_none_right_eq_some] at h
    obtain ⟨-, ⟨⟩⟩ := h
    exact hsound.report

theorem sound_runs (h : Runs checks t runner) : Sound checks t runner := by
  induction h with
  | idle => exact sound_idle
  | step _ hstep ih => exact sound_step ih hstep

variable {done : Nat → Bool} {items : List (String × Nat)}
  {statuses : List (String × ComponentStatus)}

theorem componentStatus_ok (h : componentStatus runner done i = .ok .ok) :
    runner.outcome? i = some (.ok true) := by
  rw [componentStatus] at h
  split at h
  · split at h
    · next houtcome => exact houtcome
    · split at h <;> cases h
    · cases h
  · cases h

theorem componentStatus_error {e : Raised Exn} (h : componentStatus runner done i = .error e) :
    runner.outcome? i = some (.error e) ∧ e.isException = false := by
  rw [componentStatus] at h
  split at h
  · split at h
    · cases h
    · next e' houtcome =>
      split at h
      · cases h
      · next hexception =>
        cases h
        exact ⟨houtcome, Bool.eq_false_iff.mpr hexception⟩
    · cases h
  · cases h

theorem components_ok (h : components runner done items = .ok statuses) :
    statuses.map Prod.fst = items.map Prod.fst ∧
      ∀ x ∈ statuses, ∃ i, (x.1, i) ∈ items ∧ componentStatus runner done i = .ok x.2 := by
  induction items generalizing statuses with
  | nil =>
    cases h
    exact ⟨rfl, List.forall_mem_nil _⟩
  | cons item items ih =>
    obtain ⟨name, i⟩ := item
    rw [components] at h
    cases hstatus : componentStatus runner done i with
    | error e =>
      rw [hstatus] at h
      cases h
    | ok status =>
      cases hrest : components runner done items with
      | error e =>
        rw [hstatus, hrest] at h
        cases h
      | ok rest =>
        rw [hstatus, hrest] at h
        cases h
        obtain ⟨hnames, hrest⟩ := ih hrest
        refine ⟨congrArg (name :: ·) hnames, List.forall_mem_cons.mpr
          ⟨⟨i, List.mem_cons_self, hstatus⟩, fun x hx => ?_⟩⟩
        obtain ⟨j, hj, hx⟩ := hrest x hx
        exact ⟨j, List.mem_cons_of_mem _ hj, hx⟩

theorem components_error {e : Raised Exn} (h : components runner done items = .error e) :
    ∃ x ∈ items, componentStatus runner done x.2 = .error e := by
  induction items with
  | nil => cases h
  | cons item items ih =>
    obtain ⟨name, i⟩ := item
    rw [components] at h
    cases hstatus : componentStatus runner done i with
    | error e' =>
      rw [hstatus] at h
      cases h
      exact ⟨_, List.mem_cons_self, hstatus⟩
    | ok status =>
      cases hrest : components runner done items with
      | error e' =>
        rw [hstatus, hrest] at h
        cases h
        obtain ⟨x, hx, hx'⟩ := ih hrest
        exact ⟨x, List.mem_cons_of_mem _ hx, hx'⟩
      | ok rest =>
        rw [hstatus, hrest] at h
        cases h

def Ended (runner : ReadinessRunner) (b : List Action) (name : String) (outcome : Outcome) : Prop :=
  ∃ i f, runner.submitted[i]? = some f ∧ f.name = name ∧ .finish i outcome ∈ b

theorem Fresh.ended {b : List Action} (h : Fresh runner b name i)
    (houtcome : runner.outcome? i = some outcome) : Ended runner b name outcome := by
  obtain ⟨f, hf, hname, hended⟩ := h
  rw [outcome?_eq hf] at houtcome
  exact ⟨i, f, hf, hname, hended outcome houtcome⟩

theorem healthReady_eq_200 : healthReady statuses = 200 ↔ ∀ x ∈ statuses, x.2 = .ok := by
  rw [healthReady]
  split
  · next h => exact iff_of_true rfl fun x hx => beq_iff_eq.mp (List.all_eq_true.mp h x hx)
  · next h =>
    refine iff_of_false (by decide) fun hall => h ?_
    exact List.all_eq_true.mpr fun x hx => beq_iff_eq.mpr (hall x hx)

/-- However probes and workers are interleaved, no check is twice under way unless a thread failed to
start, and what a probe reports ended after the probe began: the statuses are those of the configured
checks, one is `ok` only where its check has returned `True` meanwhile, and 200 is answered only where
every one has. A probe that has its futures raises only where it would have to wait too long, or
what a check has raised meanwhile and no handler of exceptions sees. -/
theorem readiness_fresh (h : Runs checks t runner) (deadline : Deadline) :
    (.refuse true ∉ t → ∀ (i j : Nat) (f g : Future), runner.submitted[i]? = some f →
      runner.submitted[j]? = some g → f.outcome? = none → g.outcome? = none → f.name = g.name →
        i = j) ∧
      ∀ probe futures, runner.waiting probe = some futures →
        ∃ a b, t = a ++ .enter probe :: b ∧ ∀ waited, deadline.Waits runner futures waited →
          (∀ statuses, probeResult runner futures waited = .ok statuses →
            (statuses.map Prod.fst).Nodup ∧
            (∀ name, name ∈ statuses.map Prod.fst ↔ name ∈ checks) ∧
            (∀ name, (name, .ok) ∈ statuses → Ended runner b name (.ok true)) ∧
            (healthReady statuses = 200 → ∀ name ∈ checks, Ended runner b name (.ok true))) ∧
          ∀ e, probeResult runner futures waited = .error e →
            (e = .exception overflowError ∧ deadline.timeoutMax < deadline.timeoutSeconds) ∨
              e.isException = false ∧ ∃ name ∈ checks, Ended runner b name (.error e) := by
  have hsound := sound_runs h
  refine ⟨?_, ?_⟩
  · intro hqueued i j f g hf hg hfrunning hgrunning hname
    have hi := hsound.current hqueued i f hf hfrunning
    have hj := hsound.current hqueued j g hg hgrunning
    rw [← hname] at hj
    exact Option.some.inj (hi.symm.trans hj)
  intro probe futures hwaiting
  obtain ⟨a, b, rfl, hkeys, hfresh⟩ := hsound.waiting probe futures hwaiting
  refine ⟨a, b, rfl, fun waited hwaited => ?_⟩
  cases waited with
  | error e =>
    refine ⟨fun statuses h => (by cases h), fun e' h => .inl ⟨?_, hwaited.2.1⟩⟩
    cases h
    rw [hwaited.1]
  | ok done =>
    refine ⟨fun statuses hstatuses => ?_, fun e he => .inr ?_⟩
    · obtain ⟨hnames, hall⟩ := components_ok hstatuses
      have hmem (name : String) : name ∈ statuses.map Prod.fst ↔ name ∈ checks := by
        rw [hnames]
        exact hkeys name
      have hok (name : String) (hname : (name, .ok) ∈ statuses) :
          Ended runner b name (.ok true) := by
        obtain ⟨i, hi, hstatus⟩ := hall _ hname
        exact (hfresh name i (Dict.get?_eq_some_iff.mpr hi)).ended (componentStatus_ok hstatus)
      refine ⟨by rw [hnames]; exact futures.nodup, hmem, hok, fun h200 name hname => ?_⟩
      obtain ⟨⟨_, status⟩, hx, rfl⟩ := List.mem_map.mp ((hmem name).mpr hname)
      obtain rfl : status = .ok := healthReady_eq_200.mp h200 _ hx
      exact hok _ hx
    · obtain ⟨⟨name, i⟩, hx, hstatus⟩ := components_error he
      obtain ⟨houtcome, hexception⟩ := componentStatus_error hstatus
      exact ⟨hexception, name, (hkeys name).mp (List.mem_map_of_mem hx),
        (hfresh name i (Dict.get?_eq_some_iff.mpr hx)).ended houtcome⟩

def asked : List Action := [.enter 0, .examine, .leave, .start 0, .finish 0 (.ok true)]

theorem readiness_fresh_asked : ∃ runner futures, Runs ["table"] asked runner ∧
    runner.waiting 0 = some futures ∧
    probeResult runner futures (.ok (· == 0)) = .ok [("table", .ok)] ∧
    ∃ a b, asked = a ++ .enter 0 :: b ∧ Ended runner b "table" (.ok true) := by
  obtain ⟨runner, hruns, futures, hwaiting, hwaited, hstatuses⟩ : ∃ runner,
      Runs ["table"] asked runner ∧ ∃ futures, runner.waiting 0 = some futures ∧
        Deadline.Waits ⟨5, 9223372036⟩ runner futures (.ok (· == 0)) ∧
        probeResult runner futures (.ok (· == 0)) = .ok [("table", .ok)] := by
    have hidle : Runs ["table"] [] idle := .idle
    have hentered := hidle.step (rfl : step _ _ (.enter 0) = some _)
    have hexamined := hentered.step (rfl : step _ _ .examine = some _)
    have hleft := hexamined.step (rfl : step _ _ .leave = some _)
    have hstarted := hleft.step (rfl : step _ _ (.start 0) = some _)
    have hfinished := hstarted.step (rfl : step _ _ (.finish 0 (.ok true)) = some _)
    refine ⟨_, hfinished, _, rfl, fun i hi => ?_, rfl⟩
    rw [beq_iff_eq] at hi
    subst hi
    rfl
  obtain ⟨a, b, ht, hreport⟩ := (readiness_fresh hruns ⟨5, 9223372036⟩).2 0 futures hwaiting
  have hended := ((hreport _ hwaited).1 _ hstatuses).2.2.1 "table" List.mem_cons_self
  exact ⟨runner, futures, hruns, hwaiting, hstatuses, a, b, ht, hended⟩

end LangGraphFunctions.Readiness

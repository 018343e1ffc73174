import LangGraphFunctions.Locks.Async

/-! No token is lost to a cancellation, and none is released twice. -/

namespace LangGraphFunctions.Locks

open Lib Tasks

variable {W : Type} {V : W → Type} {α β : Type}

/-- The worker tasks of a call, and what it ends with. -/
inductive WorkEnds (func : W) : List (Task V) → Result (V func) → Prop
  | returned (r : Except Exn (V func)) : WorkEnds func [⟨.work func, .done r⟩] (outcome r)
  | cancelled (r : Except Exn (V func)) :
      WorkEnds func [⟨.work func, .done r⟩] (.error .cancelled)

inductive ReleaseEnds (graphName threadId token : String) : List (Task V) → Result Unit → Prop
  | released (r : Result Unit) : r = .ok () ∨ r = .error .cancelled →
      ReleaseEnds graphName threadId token [⟨.release graphName threadId token, .done (.ok ())⟩] r

inductive AcquireEnds (graphName threadId : String) (timeout : Rat) :
    List (Task V) → Result (Option String) → Prop
  | returned (r : Except Exn (Option String)) : AcquireEnds graphName threadId timeout
      [⟨.acquire graphName threadId timeout, .done r⟩] (outcome r)
  | cancelled (r : Except Exn (Option String)) : (∀ token, r ≠ .ok (some token)) →
      AcquireEnds graphName threadId timeout [⟨.acquire graphName threadId timeout, .done r⟩]
        (.error .cancelled)
  | released (token : String) : AcquireEnds graphName threadId timeout
      [⟨.acquire graphName threadId timeout, .done (.ok (some token))⟩,
        ⟨.release graphName threadId token, .done (.ok ())⟩] (.error .cancelled)

def Works (L : List (Task V)) : Prop :=
  ∀ x ∈ L, ∃ (func : W) (r : Except Exn (V func)), x = ⟨.work func, .done r⟩

inductive BlockEnds (graphName threadId : String) (timeout : Rat) :
    List (Task V) → Result β → Prop
  | failed {own : List (Task V)} {e : Raised Exn} : AcquireEnds graphName threadId timeout own (.error e) →
      BlockEnds graphName threadId timeout own (.error e)
  | refused {works : List (Task V)} (r : Result β) : Works works →
      BlockEnds graphName threadId timeout
        (⟨.acquire graphName threadId timeout, .done (.ok none)⟩ :: works) r
  | released {works : List (Task V)} (token : String) (r : Result β) : Works works →
      BlockEnds graphName threadId timeout
        (⟨.acquire graphName threadId timeout, .done (.ok (some token))⟩ :: works ++
          [⟨.release graphName threadId token, .done (.ok ())⟩]) r

def Job.IsLock : Job W → Prop
  | .work _ => False
  | _ => True

inductive Helper (V : W → Type) : Type → Type 1
  | run (func : W) : Helper V (V func)
  | release (graphName threadId token : String) : Helper V Unit
  | acquire (graphName threadId : String) (timeout : Rat) : Helper V (Option String)
  | block {β : Type} (graphName : String) (threadId : Option String) (timeout : Rat)
      (body : Option String → Body V β) : Helper V β

namespace Helper

def program (fuel : Nat) : {α : Type} → Helper V α → Coro V α
  | _, run func => runSyncRetainingOwnership fuel func
  | _, release graphName threadId token => releaseThreadLock fuel graphName threadId token
  | _, acquire graphName threadId timeout => acquireThreadLock fuel graphName threadId timeout
  | _, block graphName threadId timeout body =>
    asyncThreadLock fuel graphName threadId timeout fun token => (body token).program fuel

def Ends : {α : Type} → Helper V α → List (Task V) → Result α → Prop
  | _, run func, own, r => WorkEnds func own r
  | _, release graphName threadId token, own, r => ReleaseEnds graphName threadId token own r
  | _, acquire graphName threadId timeout, own, r => AcquireEnds graphName threadId timeout own r
  | _, block graphName (some threadId) timeout _, own, r =>
    BlockEnds graphName threadId timeout own r
  | _, block _ none _ _, own, _ => Works own

def Awaits : {α : Type} → Helper V α → Job W → Prop
  | _, run func, job => job = .work func
  | _, _, job => job.IsLock

end Helper

variable {n : Nat} {L : List (Task V)} {s : Loop V} {fuel : Nat} {func : W}
  {graphName threadId token : String} {timeout : Rat}

abbrev Guarded (n : Nat) (p : Coro V α) (Q : Result α → Loop V → Prop) (s : Loop V) : Prop :=
  p.Safe (service (jobs V)) Threads (Sequential n) Q s

def EndsBy (n : Nat) (L : List (Task V)) (Ends : List (Task V) → Result α → Prop)
    (Waits : Job W → Prop) (D : List (Option (jobs V).Job)) (r : Result α) (s : Loop V) : Prop :=
  ∃ own, ∃ raised : List (Option (jobs V).Job), Own n (L ++ own) s ∧ AllDone own ∧ Ends own r ∧
    s.raisedAt = raised ++ D ∧
    ∀ at?, at? ∈ raised → (∃ job, at? = some job ∧ Waits job) ∧ r = .error .cancelled

theorem run_safe (hL : AllDone L) (h : Own n L s) :
    Guarded n (runSyncRetainingOwnership fuel func)
      (EndsBy n L (WorkEnds func) (· = .work func) s.raisedAt) s := by
  refine Prog.safe_bind.mpr (waitOut_safe hL (fun count r c s₁ hw₁ => ?_) ?_ fuel h)
  swap
  · exact fun h => nomatch h
  refine Prog.safe_bind.mpr (noticed_safe hL count hw₁ ?_)
  intro c' s₂ hc hw₂
  refine Prog.safe_bind.mpr (await_safe hL hw₂ ?_)
  intro s₃ hw₃
  obtain ⟨m, hm, hc₃⟩ := hw₃.raisedAt
  have hends : ∀ r', WorkEnds func [(⟨.work func, .done r⟩ : Task V)] r' →
      (c' = true → r' = .error .cancelled) →
      EndsBy n L (WorkEnds func) (· = .work func) s.raisedAt r' s₃ := by
    intro r' hr' hcancelled
    refine ⟨_, _, hw₃.own, allDone_singleton, hr', hm, fun at? hat => ?_⟩
    rw [List.mem_replicate] at hat
    exact ⟨⟨_, hat.2, rfl⟩, hcancelled (hc (hc₃.mpr (Nat.pos_of_ne_zero hat.1)))⟩
  cases c' with
  | true =>
    have hcancelled := hends _ (@WorkEnds.cancelled _ V func r) fun _ => rfl
    cases r <;> exact hcancelled
  | false =>
    have hreturned := hends _ (@WorkEnds.returned _ V func r) fun h => nomatch h
    cases r <;> exact hreturned

theorem release_safe (hL : AllDone L) (h : Own n L s) :
    Guarded n (releaseThreadLock fuel graphName threadId token)
      (EndsBy n L (ReleaseEnds graphName threadId token) Job.IsLock s.raisedAt) s := by
  refine Prog.safe_bind.mpr (waitOut_safe hL (fun count r c s₁ hw₁ => ?_) ?_ fuel h)
  swap
  · exact fun _ e h => nomatch h
  have hr : r = .ok () := hw₁.sane r (.inr rfl)
  subst hr
  refine Prog.safe_bind.mpr (await_safe hL hw₁ fun s₂ hw₂ => ?_)
  refine Prog.safe_bind.mpr (noticed_safe hL count hw₂ fun c' s₃ hc hw₃ => ?_)
  obtain ⟨m, hm, hc₃⟩ := hw₃.raisedAt
  have hends : ∀ r', r' = .ok () ∨ r' = .error .cancelled → (c' = true → r' = .error .cancelled) →
      EndsBy n L (ReleaseEnds graphName threadId token) Job.IsLock s.raisedAt r' s₃ := by
    intro r' hr' hcancelled
    refine ⟨_, _, hw₃.own, allDone_singleton, .released r' hr', hm, fun at? hat => ?_⟩
    rw [List.mem_replicate] at hat
    exact ⟨⟨_, hat.2, trivial⟩, hcancelled (hc (hc₃.mpr (Nat.pos_of_ne_zero hat.1)))⟩
  cases c' with
  | true => exact hends _ (.inr rfl) fun _ => rfl
  | false => exact hends _ (.inl rfl) fun h => nomatch h

theorem acquire_safe (hL : AllDone L) (h : Own n L s) :
    Guarded n (acquireThreadLock fuel graphName threadId timeout)
      (EndsBy n L (AcquireEnds graphName threadId timeout) Job.IsLock s.raisedAt) s := by
  refine Prog.safe_bind.mpr (waitOut_safe hL (fun count r c s₁ hw₁ => ?_) ?_ fuel h)
  swap
  · exact fun h => nomatch h
  refine Prog.safe_bind.mpr (noticed_safe hL count hw₁ fun c' s₂ hc hw₂ => ?_)
  refine Prog.safe_bind.mpr (await_safe hL hw₂ fun s₃ hw₃ => ?_)
  obtain ⟨m, hm, hc₃⟩ := hw₃.raisedAt
  have hends : ∀ r', AcquireEnds graphName threadId timeout
        [(⟨.acquire graphName threadId timeout, .done r⟩ : Task V)] r' →
      (c' = true → r' = .error .cancelled) →
      EndsBy n L (AcquireEnds graphName threadId timeout) Job.IsLock s.raisedAt r' s₃ := by
    intro r' hr' hcancelled
    refine ⟨_, _, hw₃.own, allDone_singleton, hr', hm, fun at? hat => ?_⟩
    rw [List.mem_replicate] at hat
    exact ⟨⟨_, hat.2, trivial⟩, hcancelled (hc (hc₃.mpr (Nat.pos_of_ne_zero hat.1)))⟩
  cases r with
  | error e =>
    cases c' with
    | true => exact hends _ (.cancelled _ fun token h => nomatch h) fun _ => rfl
    | false => exact hends _ (.returned (.error e)) fun h => nomatch h
  | ok token =>
    cases c' with
    | false => exact hends _ (.returned (.ok token)) fun h => nomatch h
    | true =>
      cases token with
      | none => exact hends _ (.cancelled _ fun token h => nomatch h) fun _ => rfl
      | some token =>
        refine Prog.safe_bind.mpr (Prog.safe_attempt.mpr ?_)
        refine (release_safe (hL.append allDone_singleton) hw₃.own).mono fun r' s₄ hr' => ?_
        obtain ⟨own, raised, hown, hdone, hends', hraised, hlock⟩ := hr'
        obtain ⟨_, hr'⟩ := hends'
        have hreleased : EndsBy n L (AcquireEnds graphName threadId timeout) Job.IsLock
            s.raisedAt (.error .cancelled) s₄ := by
          refine ⟨_, raised ++ List.replicate m (some (.acquire graphName threadId timeout)), ?_, ?_,
            .released token, ?_, fun at? hat => ⟨?_, rfl⟩⟩
          · rw [List.append_assoc] at hown
            exact hown
          · exact allDone_singleton.append hdone
          · rw [hraised, hm, List.append_assoc]
          · cases List.mem_append.mp hat with
            | inl hat => exact (hlock at? hat).1
            | inr hat => exact ⟨_, (List.mem_replicate.mp hat).2, trivial⟩
        obtain rfl | rfl := hr'
        · exact hreleased
        · exact hreleased

def InBlock (n : Nat) (L : List (Task V)) (D : List (Option (jobs V).Job)) (s : Loop V) : Prop :=
  ∃ works, ∃ raised : List (Option (jobs V).Job), Own n (L ++ works) s ∧ Works works ∧
    s.raisedAt = raised ++ D ∧ ∀ job, some job ∈ raised → ¬job.IsLock

theorem Works.allDone {works : List (Task V)} (h : Works works) : AllDone works := by
  intro x hx
  obtain ⟨func, r, rfl⟩ := h x hx
  exact ⟨r, rfl⟩

theorem InBlock.later {D : List (Option (jobs V).Job)} {s' : Loop V} (h : InBlock n L D s)
    (hL : AllDone L) (hle : Later s s') (hraised : s'.raisedAt = s.raisedAt) : InBlock n L D s' := by
  obtain ⟨works, raised, hown, hworks, hD, hjobs⟩ := h
  exact ⟨works, raised, hown.later (hL.append hworks.allDone) hle, hworks, hraised ▸ hD, hjobs⟩

theorem bodyOp_safe {D : List (Option (jobs V).Job)} (hL : AllDone L) (o : BodyOp W)
    (h : InBlock n L D s) :
    Guarded n (o.program (V := V) fuel) (fun r s' => (∃ a, r = .ok a) ∧ InBlock n L D s') s := by
  cases o with
  | run func =>
    obtain ⟨works, raised, hown, hworks, hD, hjobs⟩ := h
    refine Prog.safe_attempt.mpr ((run_safe (hL.append hworks.allDone) hown).mono ?_)
    rintro r s' ⟨own, raised', hown', -, hends, hraised, hwaits⟩
    have hwork : Works own := by
      intro x hx
      cases hends with
      | returned r => exact ⟨func, r, List.mem_singleton.mp hx⟩
      | cancelled r => exact ⟨func, r, List.mem_singleton.mp hx⟩
    refine ⟨⟨r, rfl⟩, works ++ own, raised' ++ raised, ?_, ?_, ?_, ?_⟩
    · rw [List.append_assoc] at hown'
      exact hown'
    · exact fun x hx => (List.mem_append.mp hx).elim (hworks x) (hwork x)
    · rw [hraised, hD, List.append_assoc]
    · intro job hjob
      cases List.mem_append.mp hjob with
      | inl hjob =>
        obtain ⟨⟨_, ⟨⟩, rfl⟩, -⟩ := hwaits _ hjob
        exact id
      | inr hjob => exact hjobs job hjob
  | pause =>
    intro s₁ h₁ a s₂ hs₂
    have h₁ := h.later hL h₁.later h₁.raisedAt
    refine ⟨trivial, ⟨a, rfl⟩, ?_⟩
    cases hs₂ with
    | result hsuspended _ => exact h₁.later hL hsuspended.later hsuspended.raisedAt
    | cancelled hsuspended _ =>
      obtain ⟨works, raised, hown, hworks, hD, hjobs⟩ :=
        h₁.later hL hsuspended.later hsuspended.raisedAt
      refine ⟨works, none :: raised, ⟨hown.le, hown.tasks⟩, hworks, ?_, fun job hjob => ?_⟩
      · rw [Loop.deliver, hD]
        rfl
      · cases hjob with
        | tail _ hjob => exact hjobs job hjob

def BlockEndsBy (n : Nat) (L : List (Task V)) (graphName threadId : String) (timeout : Rat)
    (D : List (Option (jobs V).Job)) (r : Result β) (s : Loop V) : Prop :=
  ∃ own, ∃ raised : List (Option (jobs V).Job), Own n (L ++ own) s ∧
    BlockEnds graphName threadId timeout own r ∧ s.raisedAt = raised ++ D ∧
    ∀ job, some job ∈ raised → job.IsLock → r = .error .cancelled

theorem block_safe (hL : AllDone L) (h : Own n L s) (body : Option String → Body V β) :
    Guarded n (asyncThreadLock fuel graphName (some threadId) timeout
        fun token => (body token).program fuel)
      (BlockEndsBy n L graphName threadId timeout s.raisedAt) s := by
  refine Prog.safe_bind.mpr ((acquire_safe hL h).mono ?_)
  rintro r s₁ ⟨own, raised, hown, hdone, hends, hraised, hwaits⟩
  cases r with
  | error e =>
    refine ⟨own, raised, hown, .failed hends, hraised, fun job hjob _ => ?_⟩
    rw [Except.error.inj (hwaits _ hjob).2]
  | ok token =>
    have hnone : raised = [] := List.eq_nil_iff_forall_not_mem.mpr fun at? hat =>
      nomatch (hwaits at? hat).2
    subst hnone
    have hown₁ : own = [⟨.acquire graphName threadId timeout, .done (.ok token)⟩] := by
      generalize hr : Except.ok token = r at hends
      cases hends with
      | returned r => cases r <;> cases hr; rfl
      | cancelled _ _ => exact nomatch hr
      | released _ => exact nomatch hr
    subst hown₁
    have hblock : InBlock n (L ++ [⟨.acquire graphName threadId timeout, .done (.ok token)⟩])
        s.raisedAt s₁ := ⟨[], [], by simpa using hown, (fun _ h => nomatch h), hraised, by simp⟩
    refine Prog.safe_bind.mpr (Prog.safe_attempt.mpr ?_)
    refine Prog.safe_interpret _ (fun o s => bodyOp_safe (hL.append hdone) o) ?_ _ hblock
    rintro r s₂ ⟨works, raised, hown₂, hworks, hraised₂, hjobs⟩
    have hlocks : ∀ job, some job ∈ raised → job.IsLock → r = .error .cancelled :=
      fun job hjob hlock => absurd hlock (hjobs job hjob)
    cases token with
    | none =>
      apply Prog.safe_ofExcept
      refine ⟨_, raised, ?_, .refused r hworks, hraised₂, hlocks⟩
      rw [List.append_assoc] at hown₂
      exact hown₂
    | some token =>
      refine Prog.safe_bind.mpr
        ((release_safe ((hL.append hdone).append hworks.allDone) hown₂).mono ?_)
      rintro r' s₃ ⟨own, raised', hown₃, -, hends', hraised₃, hwaits'⟩
      obtain ⟨_, hr'⟩ := hends'
      have hreleased : ∀ r'' : Result β, (raised' ≠ [] → r'' = .error .cancelled) →
          BlockEndsBy n L graphName threadId timeout s.raisedAt r'' s₃ := by
        intro r'' hr''
        refine ⟨_, raised' ++ raised, ?_, .released token r'' hworks, ?_, fun job hjob hlock => ?_⟩
        · simpa using hown₃
        · rw [hraised₃, hraised₂, List.append_assoc]
        · cases List.mem_append.mp hjob with
          | inl hjob => exact hr'' (List.ne_nil_of_mem hjob)
          | inr hjob => exact absurd hlock (hjobs job hjob)
      obtain rfl | rfl := hr'
      · apply Prog.safe_ofExcept
        apply hreleased
        intro hne
        obtain ⟨at?, hat⟩ := List.exists_mem_of_ne_nil _ hne
        exact nomatch (hwaits' at? hat).2
      · exact hreleased _ fun _ => rfl

theorem helper_safe (helper : Helper V α) (s : Loop V) :
    Guarded s.tasks.length (helper.program fuel) (fun r s' =>
      helper.Ends (s'.tasks.drop s.tasks.length) r ∧ ∃ raised : List (Option (jobs V).Job),
        s'.raisedAt = raised ++ s.raisedAt ∧
        ∀ job, some job ∈ raised → helper.Awaits job → r = .error .cancelled) s := by
  have hL : AllDone ([] : List (Task V)) := fun _ h => nomatch h
  have h : Own s.tasks.length [] s := ⟨Nat.le_refl _, by simp⟩
  cases helper with
  | run func =>
    refine (run_safe hL h).mono ?_
    rintro r s' ⟨own, raised, hown, -, hends, hraised, hwaits⟩
    exact ⟨by rwa [hown.tasks], raised, hraised, fun job hjob _ => (hwaits _ hjob).2⟩
  | release graphName threadId token =>
    refine (release_safe hL h).mono ?_
    rintro r s' ⟨own, raised, hown, -, hends, hraised, hwaits⟩
    exact ⟨by rwa [hown.tasks], raised, hraised, fun job hjob _ => (hwaits _ hjob).2⟩
  | acquire graphName threadId timeout =>
    refine (acquire_safe hL h).mono ?_
    rintro r s' ⟨own, raised, hown, -, hends, hraised, hwaits⟩
    exact ⟨by rwa [hown.tasks], raised, hraised, fun job hjob _ => (hwaits _ hjob).2⟩
  | block graphName threadId timeout body =>
    cases threadId with
    | some threadId =>
      refine (block_safe hL h body).mono ?_
      rintro r s' ⟨own, raised, hown, hends, hraised, hwaits⟩
      exact ⟨by rwa [hown.tasks], raised, hraised, hwaits⟩
    | none =>
      have hblock : InBlock s.tasks.length [] s.raisedAt s :=
        ⟨[], [], h, (fun _ h => nomatch h), rfl, by simp⟩
      refine Prog.safe_interpret _ (fun o s => bodyOp_safe hL o) ?_ _ hblock
      rintro r s' ⟨works, raised, hown, hworks, hraised, hjobs⟩
      refine ⟨by rwa [hown.tasks], raised, hraised, fun job hjob hlock => ?_⟩
      exact absurd hlock (hjobs job hjob)

/-- Whatever cancellations come, a call ends with its token handed over or released, with each of
its worker tasks done before the next was made, and with the cancellation it was given. -/
theorem ownership_kept (fuel : Nat) (helper : Helper V α) {s s' : Loop V}
    {t : List (Event (Tasks.interface (jobs V)) (Loop V))} {r : Result α}
    (h : Exec (service (jobs V)) Threads (helper.program fuel) s t (.ofExcept r) s') :
    helper.Ends (s'.tasks.drop s.tasks.length) r ∧
      (∀ e ∈ t, e.Satisfies (Sequential s.tasks.length)) ∧
      ∃ raised : List (Option (jobs V).Job), s'.raisedAt = raised ++ s.raisedAt ∧
        ∀ job, some job ∈ raised → helper.Awaits job → r = .error .cancelled := by
  obtain ⟨hend, ht⟩ := h.safe (fun _ => .refl) (fun h h' => h.trans h') (helper_safe helper s)
  have hQ := Prog.safe_ofExcept_iff.mp hend
  exact ⟨hQ.1, ht, hQ.2⟩

theorem ownership_kept_cancelled :
    let acquire : Job Unit := .acquire "agent" "t" 1
    let release : Job Unit := .release "agent" "t" "a"
    let s : Loop fun _ : Unit => Unit := ⟨0, false, [], []⟩
    let s' : Loop fun _ : Unit => Unit := ⟨1, false,
      [⟨acquire, .done (.ok (some "a"))⟩, ⟨release, .done (.ok ())⟩], [some acquire]⟩
    ∃ t, Exec (service (jobs fun _ : Unit => Unit)) Threads
        ((Helper.acquire "agent" "t" 1).program 3) s t (.ofExcept (.error .cancelled)) s' ∧
      AcquireEnds "agent" "t" 1 s'.tasks (.error .cancelled) := by
  intro acquire release s s'
  have hrun : ∃ t, Exec (service (jobs fun _ : Unit => Unit)) Threads
      ((Helper.acquire "agent" "t" 1).program 3) s t (.ofExcept (.error .cancelled)) s' := by
    refine Exec.exists_call ⟨rfl, rfl⟩ (Exec.exists_call ⟨rfl, rfl⟩ ?_)
    refine Exec.exists_call (step_done_queued (j := acquire) rfl) ?_
    refine Exec.exists_call (Resumes.cancelled (.single .cancel) rfl) ?_
    refine Exec.exists_call (step_done_queued (j := acquire) rfl) ?_
    refine Exec.exists_call (step_shield_queued (r := .ok (some "a")) rfl trivial rfl) ?_
    refine Exec.exists_call (step_done (j := acquire) rfl) ?_
    refine Exec.exists_call (step_await (r := .ok (some "a")) rfl) ?_
    refine Exec.exists_call ⟨rfl, rfl⟩ (Exec.exists_call ⟨rfl, rfl⟩ ?_)
    refine Exec.exists_call (step_done_queued (j := release) rfl) ?_
    refine Exec.exists_call (@step_shield_queued _ (jobs fun _ => Unit) release _ _ (.ok ()) rfl rfl rfl) ?_
    refine Exec.exists_call (step_done (j := release) rfl) ?_
    refine Exec.exists_call (step_await (r := .ok ()) rfl) ?_
    exact Exec.exists_call ⟨rfl, rfl⟩ ⟨[], .stop⟩
  obtain ⟨t, ht⟩ := hrun
  exact ⟨t, ht, (ownership_kept 3 (.acquire "agent" "t" 1) ht).1⟩

end LangGraphFunctions.Locks

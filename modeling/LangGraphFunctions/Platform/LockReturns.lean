import LangGraphFunctions.Lib.Calls
import LangGraphFunctions.Platform.LockPairs

/-! The locks of threads over any run of requests. -/

namespace LangGraphFunctions.Platform.LockPairs

open Lib RunLocks

abbrev Held := String × String → Option String

/-- A lock is given out where it is free, and freed under its token; its release does not raise.
The store, the renewals and the graph answer what they like. -/
def threadLocks : Prog.Service Routes.interface Held where
  step o held answer held' := match o, answer with
    | .api (.acquire graphName threadId), .ok (some token) => held (graphName, threadId) = none ∧
        held' = Function.update held (graphName, threadId) (some token)
    | .api (.release graphName threadId token), .ok _ =>
        held' = if held (graphName, threadId) = some token then
          Function.update held (graphName, threadId) none else held
    | .api (.release ..), .error _ => False
    | _, _ => held' = held

variable {ι : Type} [DecidableEq ι]

abbrev LockRuns (ι : Type) [DecidableEq ι] :=
  Pool.Runs (fun (_ : ι) (_ : Call) => threadLocks) Call.program fun _ _ _ => True

abbrev LockEvent (ι : Type) := Pool.Event Routes.interface Exn Routes.Response Held ι Call

def Fails (call : Call) : (o : Routes.Op) × o.Ans → Prop
  | ⟨.api (.tryAcquireRunLock ..), .error exc⟩ =>
    call.Updates ∧ exc.isKeyError = false ∧ exc.isValueError = false
  | _ => False

def Leaks : LockEvent ι → Prop
  | .op _ call o _ answer _ => Fails call ⟨o, answer⟩
  | _ => False

def Holds (key : String × String) (token : String) (w : Transcript Routes.interface) : Prop :=
  ∃ w₁ w₂, w = w₁ ++ ⟨.api (.acquire key.1 key.2), .ok (some token)⟩ :: w₂ ∧
    LockMark.released key.1 key.2 token ∉ w₂.flatMap lockMark

def Owns (P : Pool Routes.interface Exn Routes.Response Held ι Call) (key : String × String)
    (token : String) (i : ι) : Prop :=
  ∃ call p w, P.clients i = some (call, p) ∧ call.program.Plays (fun _ _ => True) w p ∧
    (∀ x ∈ w, ¬ Fails call x) ∧ Holds key token w

variable {held held' : Held} {key : String × String} {token : String} {o : Routes.Op}
  {answer : o.Ans}

theorem holds_acquire (w : Transcript Routes.interface) :
    Holds key token (w ++ [⟨.api (.acquire key.1 key.2), .ok (some token)⟩]) :=
  ⟨w, [], rfl, List.not_mem_nil⟩

theorem Holds.step {w : Transcript Routes.interface} (h : Holds key token w)
    (hmark : LockMark.released key.1 key.2 token ∉ lockMark ⟨o, answer⟩) :
    Holds key token (w ++ [⟨o, answer⟩]) := by
  obtain ⟨w₁, w₂, rfl, hw₂⟩ := h
  refine ⟨w₁, w₂ ++ [⟨o, answer⟩], List.append_assoc .., ?_⟩
  rw [List.flatMap_append, List.mem_append, not_or, List.flatMap_singleton]
  exact ⟨hw₂, hmark⟩

theorem threadLocks_held (hstep : threadLocks.step o held answer held')
    (hheld : held' key = some token) :
    (⟨o, answer⟩ : (o : Routes.Op) × o.Ans) = ⟨.api (.acquire key.1 key.2), .ok (some token)⟩ ∨
      held key = some token ∧ LockMark.released key.1 key.2 token ∉ lockMark ⟨o, answer⟩ := by
  have hsame (h : held' = held)
      (hmark : LockMark.released key.1 key.2 token ∉ lockMark ⟨o, answer⟩) :
      held key = some token ∧ LockMark.released key.1 key.2 token ∉ lockMark ⟨o, answer⟩ :=
    ⟨h ▸ hheld, hmark⟩
  cases o with
  | create metadata => exact .inr (hsame hstep List.not_mem_nil)
  | delete threadId => exact .inr (hsame hstep List.not_mem_nil)
  | updateState config values asNode => exact .inr (hsame hstep (by simp [lockMark]))
  | api o =>
    cases o with
    | acquire graphName threadId =>
      cases answer with
      | error exc => exact .inr (hsame hstep List.not_mem_nil)
      | ok token' =>
        cases token' with
        | none => exact .inr (hsame hstep List.not_mem_nil)
        | some token' =>
          obtain ⟨-, rfl⟩ := hstep
          by_cases hkey : key = (graphName, threadId)
          · subst hkey
            rw [Function.update_self] at hheld
            cases hheld
            exact .inl rfl
          · rw [Function.update_of_ne hkey] at hheld
            exact .inr ⟨hheld, by simp [lockMark, apiMark]⟩
    | release graphName threadId token' =>
      cases answer with
      | error exc => exact hstep.elim
      | ok _ =>
        have hmark : lockMark ⟨.api (.release graphName threadId token'), .ok ()⟩ =
            [.released graphName threadId token'] := rfl
        change held' = if _ then _ else _ at hstep
        split at hstep
        · subst hstep
          by_cases hkey : key = (graphName, threadId)
          · subst hkey
            rw [Function.update_self] at hheld
            cases hheld
          · rw [Function.update_of_ne hkey] at hheld
            refine .inr ⟨hheld, fun hmem => hkey ?_⟩
            rw [hmark, List.mem_singleton] at hmem
            cases key
            cases hmem
            rfl
        · next hother =>
          subst hstep
          refine .inr ⟨hheld, fun hmem => hother ?_⟩
          rw [hmark, List.mem_singleton] at hmem
          cases key
          cases hmem
          exact hheld
    | tryAcquireRunLock threadId assistantId =>
      refine .inr (hsame hstep ?_)
      cases answer with
      | error exc => simp [lockMark, apiMark]
      | ok locked => cases locked <;> simp [lockMark, apiMark]
    | _ => exact .inr (hsame hstep (by simp [lockMark, apiMark]))

def LockMark.isAcquired : LockMark → Bool
  | acquired .. => true
  | _ => false

theorem Work.not_acquired {call : Call} {ownerToken : String} {work : List LockMark}
    (h : Work ownerToken call work) : ∀ m ∈ work, m.isAcquired = false := by
  cases h <;> simp [LockMark.isAcquired]

theorem acquired_first {graphName threadId token' : String} {v m₁ m₂ : List LockMark}
    (hv : ∀ m ∈ v, m.isAcquired = false)
    (h : .acquired graphName threadId token' :: v = m₁ ++ .acquired key.1 key.2 token :: m₂) :
    (graphName, threadId) = key ∧ token' = token ∧ v = m₂ := by
  cases m₁ with
  | nil =>
    cases h
    exact ⟨rfl, rfl, rfl⟩
  | cons m m₁ =>
    rw [List.cons_append, List.cons.injEq] at h
    have hacquired := hv (.acquired key.1 key.2 token) (by simp [h.2])
    cases hacquired

theorem fails_of_mem {call : Call} {w : Transcript Routes.interface} {exc : Exn}
    (h : LockMark.refused (some exc) ∈ w.flatMap lockMark) (hupdates : call.Updates)
    (hkey : exc.isKeyError = false) (hvalue : exc.isValueError = false) :
    ∃ x ∈ w, Fails call x := by
  obtain ⟨⟨o, answer⟩, hx, hmark⟩ := List.mem_flatMap.mp h
  refine ⟨_, hx, ?_⟩
  cases o with
  | api o =>
    cases o with
    | tryAcquireRunLock threadId assistantId =>
      cases answer with
      | error exc' =>
        cases List.mem_singleton.mp hmark
        exact ⟨hupdates, hkey, hvalue⟩
      | ok locked => cases locked <;> simp [lockMark, apiMark] at hmark
    | acquire graphName threadId =>
      cases answer with
      | error exc' => simp [lockMark, apiMark] at hmark
      | ok token => cases token <;> simp [lockMark, apiMark] at hmark
    | _ => simp [lockMark, apiMark] at hmark
  | _ => simp [lockMark] at hmark

theorem Paired.not_holds {call : Call} {r : Except Exn Routes.Response}
    {w : Transcript Routes.interface} (h : Paired call r (w.flatMap lockMark))
    (hclean : ∀ x ∈ w, ¬ Fails call x) : ¬ Holds key token w := by
  rintro ⟨w₁, w₂, rfl, hw₂⟩
  have hmarks : (w₁ ++ ⟨.api (.acquire key.1 key.2), .ok (some token)⟩ :: w₂).flatMap lockMark =
      w₁.flatMap lockMark ++ .acquired key.1 key.2 token :: w₂.flatMap lockMark := by
    rw [List.flatMap_append, List.flatMap_cons]
    rfl
  rw [hmarks] at h
  generalize hu : w₁.flatMap lockMark ++ .acquired key.1 key.2 token :: w₂.flatMap lockMark = u at h
  cases h with
  | unlocked => simp at hu
  | refused error hthread =>
    obtain ⟨rfl, rfl, hv⟩ := acquired_first (by simp [LockMark.isAcquired]) hu.symm
    exact hw₂ (by simp [← hv])
  | @served _ graphName threadId token' lockToken work hthread hwork =>
    have hnone : ∀ m ∈ LockMark.taken threadId lockToken ::
        (work ++ [.freed threadId (ownerOf token' lockToken), .released graphName threadId token']),
        m.isAcquired = false := by
      simp only [List.forall_mem_cons, List.forall_mem_append]
      exact ⟨rfl, hwork.not_acquired, rfl, rfl, List.forall_mem_nil _⟩
    obtain ⟨rfl, rfl, hv⟩ := acquired_first hnone hu.symm
    exact hw₂ (by simp [← hv])
  | @leaked exc _ _ _ hthread hupdates hkey hvalue =>
    obtain ⟨rfl, rfl, hv⟩ := acquired_first (by simp [LockMark.isAcquired]) hu.symm
    have hmem : LockMark.refused (some exc) ∈ w₂.flatMap lockMark := by
      rw [← hv]
      exact List.mem_singleton.mpr rfl
    obtain ⟨x, hx, hfails⟩ := fails_of_mem hmem hupdates hkey hvalue
    exact hclean x (List.mem_append_right _ (List.mem_cons_of_mem _ hx)) hfails

variable {t : List (LockEvent ι)} {P P' : Pool Routes.interface Exn Routes.Response Held ι Call}
  {e : LockEvent ι}

structure Kept (P : Pool Routes.interface Exn Routes.Response Held ι Call) : Prop where
  played : ∀ i call p, P.clients i = some (call, p) → ∃ w,
    call.program.Plays (fun _ _ => True) w p ∧ ∀ x ∈ w, ¬ Fails call x
  owned : ∀ key token, P.store key = some token → ∃ i, Owns P key token i

theorem Owns.of_ne {i j : ι} {c : Option (Call × Routes Routes.Response)} {held : Held}
    (h : Owns P key token j) (hne : j ≠ i) : Owns (P.become i c held) key token j := by
  obtain ⟨call, p, w, hclient, hrest⟩ := h
  exact ⟨call, p, w, (Function.update_of_ne hne ..).trans hclient, hrest⟩

theorem clients_become_of_ne {i j : ι} {c : Option (Call × Routes Routes.Response)} {held : Held}
    (hne : j ≠ i) : (P.become i c held).clients j = P.clients j := Function.update_of_ne hne ..

theorem clients_become_self {i : ι} {c : Option (Call × Routes Routes.Response)} {held : Held} :
    (P.become i c held).clients i = c := Function.update_self ..

theorem kept_step (h : Kept P) (hclean : ¬ Leaks e) (hend : e.Finished)
    (hstep : Pool.Step (fun (_ : ι) (_ : Call) => threadLocks) Call.program (fun _ _ _ => True)
      P e P') : Kept P' := by
  cases hstep with
  | @start i call hnone _ =>
    constructor
    · intro j call' p hclient
      by_cases hji : j = i
      · subst hji
        rw [clients_become_self] at hclient
        cases hclient
        exact ⟨[], Prog.plays_nil _, List.forall_mem_nil _⟩
      · rw [clients_become_of_ne hji] at hclient
        exact h.played j call' p hclient
    · intro key token hheld
      obtain ⟨j, hj⟩ := h.owned key token hheld
      refine ⟨j, hj.of_ne ?_⟩
      rintro rfl
      obtain ⟨_, _, _, hclient, -⟩ := hj
      rw [hnone] at hclient
      cases hclient
  | @op i call o k answer held' hclient hs =>
    have hplayed {w : Transcript Routes.interface}
        (hw : call.program.Plays (fun _ _ => True) w (.call o k))
        (hwclean : ∀ x ∈ w, ¬ Fails call x) :
        call.program.Plays (fun _ _ => True) (w ++ [⟨o, answer⟩]) (k answer) ∧
          ∀ x ∈ w ++ [⟨o, answer⟩], ¬ Fails call x :=
      ⟨hw.call trivial, List.forall_mem_append.mpr ⟨hwclean, List.forall_mem_singleton.mpr hclean⟩⟩
    constructor
    · intro j call' p hclient'
      by_cases hji : j = i
      · subst hji
        rw [clients_become_self] at hclient'
        cases hclient'
        obtain ⟨w, hw, hwclean⟩ := h.played j call _ hclient
        exact ⟨_, hplayed hw hwclean⟩
      · rw [clients_become_of_ne hji] at hclient'
        exact h.played j call' p hclient'
    · intro key token hheld
      rcases threadLocks_held hs hheld with heq | ⟨hbefore, hmark⟩
      · obtain ⟨w, hw, hwclean⟩ := h.played i call _ hclient
        obtain ⟨hw, hwclean⟩ := hplayed hw hwclean
        refine ⟨i, call, _, _, clients_become_self, hw, hwclean, ?_⟩
        rw [heq]
        exact holds_acquire w
      · obtain ⟨j, hj⟩ := h.owned key token hbefore
        by_cases hji : j = i
        · subst hji
          obtain ⟨_, _, w, hclient', hw, hwclean, hholds⟩ := hj
          cases hclient.symm.trans hclient'
          obtain ⟨hw, hwclean⟩ := hplayed hw hwclean
          exact ⟨j, call, _, _, clients_become_self, hw, hwclean, hholds.step hmark⟩
        · exact ⟨j, hj.of_ne hji⟩
  | @leave i call p hclient =>
    constructor
    · intro j call' p' hclient'
      by_cases hji : j = i
      · subst hji
        rw [clients_become_self] at hclient'
        cases hclient'
      · rw [clients_become_of_ne hji] at hclient'
        exact h.played j call' p' hclient'
    · intro key token hheld
      obtain ⟨j, hj⟩ := h.owned key token hheld
      by_cases hji : j = i
      · subst hji
        obtain ⟨_, _, w, hclient', hw, hwclean, hholds⟩ := hj
        cases hclient.symm.trans hclient'
        have hpaired (r : Except Exn Routes.Response) (hr : p = .ofExcept r) : False := by
          subst hr
          exact (hw.writes (pairs_program call)).not_holds hwclean hholds
        cases p with
        | ret response => exact (hpaired (.ok response) rfl).elim
        | raise exc => exact (hpaired (.error exc) rfl).elim
        | call o k => cases hend
      · exact ⟨j, hj.of_ne hji⟩

/-- Whatever requests run, in whatever order, over locks that are exclusive: each lock that is held
is held by a request under way that took it and has not given it back, unless the store has failed a
state update; when every request has come to its end, no lock is held. -/
theorem thread_locks_returned (h : LockRuns ι (Pool.idle fun _ => none) t P)
    (hfinished : ∀ e ∈ t, e.Finished) (hclean : ∀ e ∈ t, ¬ Leaks e) :
    (∀ key token, P.store key = some token → ∃ i, Owns P key token i) ∧
      ((∀ i, P.clients i = none) → ∀ key, P.store key = none) := by
  have hkept : Kept P := by
    refine h.record (J := fun _ P => Kept P) (F := fun e => ¬ Leaks e ∧ e.Finished) (u := [])
      (fun hkept hstep he => kept_step hkept he.1 he.2 hstep)
      (fun e he => ⟨hclean e he, hfinished e he⟩) ⟨?_, ?_⟩
    · intro i call p hclient
      cases hclient
    · intro key token hheld
      cases hheld
  refine ⟨hkept.owned, fun hdone key => ?_⟩
  cases hheld : P.store key with
  | none => rfl
  | some token =>
    obtain ⟨i, call, p, w, hclient, -⟩ := hkept.owned key token hheld
    rw [hdone i] at hclient
    cases hclient

def someRun : Call := .platform (.run .wait "t" (.ok ⟨"r", "g", none⟩) fun _ => .ok "g")

def serving : (o : Routes.Op) → Held → Option (o.Ans × Held)
  | .api (.get _), held => some (.ok (some boundThread), held)
  | .api (.acquire graphName threadId), held =>
    if held (graphName, threadId) = none then
      some (.ok (some "k"), Function.update held (graphName, threadId) (some "k"))
    else some (.ok none, held)
  | .api (.release graphName threadId token), held =>
    some (.ok (), if held (graphName, threadId) = some token then
      Function.update held (graphName, threadId) none else held)
  | .api (.tryAcquireRunLock ..), held => some (.ok (some boundThread), held)
  | .api (.startStoreRenewal ..), held => some (.ok (), held)
  | .api (.guardRunConfig ..), held => some (.ok (), held)
  | .api .invoke, held => some (.ok ∅, held)
  | .api (.stopStoreRenewal _), held => some (none, held)
  | .api (.releaseRunLock ..), held => some (.ok boundThread, held)
  | _, _ => none

theorem serving_step {answer : o.Ans} (h : serving o held = some (answer, held')) :
    threadLocks.step o held answer held' := by
  cases o with
  | api o =>
    cases o with
    | acquire graphName threadId =>
      change (if _ then _ else _) = _ at h
      split at h
      · next hfree =>
        cases h
        exact ⟨hfree, rfl⟩
      · cases h
        rfl
    | _ => cases h <;> rfl
  | _ => cases h

def twoOfThem : List (Pool.Move Bool Call) :=
  Pool.Move.calls 9 [(true, someRun)] ++ [.start false someRun, .op false, .op false]

theorem thread_locks_returned_twoOfThem : ∃ i,
    Owns (Pool.tryPlay (fun _ _ => serving) Call.program twoOfThem (Pool.idle fun _ => none)).2
      ("g", "t") "k" i := by
  have hruns : LockRuns Bool (Pool.idle fun _ => none)
      (Pool.tryPlay (fun _ _ => serving) Call.program twoOfThem (Pool.idle fun _ => none)).1
      (Pool.tryPlay (fun _ _ => serving) Call.program twoOfThem (Pool.idle fun _ => none)).2 :=
    Pool.runs_tryPlay serving_step twoOfThem _
  refine (thread_locks_returned hruns (by decide) ?_).1 ("g", "t") "k" rfl
  iterate 14 refine List.forall_mem_cons.mpr ⟨id, ?_⟩
  exact List.forall_mem_nil _

end LangGraphFunctions.Platform.LockPairs

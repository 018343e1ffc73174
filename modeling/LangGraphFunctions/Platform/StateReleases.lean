import LangGraphFunctions.Lib.Calls
import LangGraphFunctions.Platform.LockPairs
import LangGraphFunctions.Platform.RunLocks

/-! What a state update has taken, and what it has given back when it is over. -/

namespace LangGraphFunctions.Platform.StateReleases

open Lib RunLocks LockPairs

variable {ι : Type} [DecidableEq ι]

inductive StateMark
  | read (thread : Option Thread)
  | acquired (graphName threadId token : String)
  | refused (error : Option Exn)
  | taken (threadId : String) (lockToken : Option String)
  | accepted
  | freed (threadId : String) (status : ThreadStatus) (ownerToken : String)
  | released (graphName threadId token : String)

namespace StateMark

def isRead : StateMark → Bool
  | read _ => true
  | _ => false

def isReleased : StateMark → Bool
  | released .. => true
  | _ => false

end StateMark

def storeMark : (o : Api.Op) × o.Ans → List StateMark
  | ⟨.get _, .ok thread⟩ => [.read thread]
  | ⟨.acquire graphName threadId, .ok (some token)⟩ => [.acquired graphName threadId token]
  | ⟨.tryAcquireRunLock .., .error exc⟩ => [.refused (some exc)]
  | ⟨.tryAcquireRunLock .., .ok none⟩ => [.refused none]
  | ⟨.tryAcquireRunLock threadId _, .ok (some locked)⟩ => [.taken threadId locked.lockToken]
  | ⟨.releaseRunLock threadId status _ ownerToken, _⟩ => [.freed threadId status ownerToken]
  | ⟨.release graphName threadId token, _⟩ => [.released graphName threadId token]
  | _ => []

def stateMark : (o : Routes.Op) × o.Ans → List StateMark
  | ⟨.api o, answer⟩ => storeMark ⟨o, answer⟩
  | ⟨.updateState .., .ok _⟩ => [.accepted]
  | _ => []

def StateMark.isRow : StateMark → Bool
  | taken .. => true
  | freed .. => true
  | _ => false

/-- The operation on the run lock of the row that a mark stands for, if it stands for one. -/
inductive StateMark.Row : StateMark → (o : Routes.Op) × o.Ans → Prop
  | taken {threadId assistantId : String} {locked : Thread} : Row (.taken threadId locked.lockToken)
      ⟨.api (.tryAcquireRunLock threadId assistantId), .ok (some locked)⟩
  | freed {threadId ownerToken : String} {status : ThreadStatus} {values : Option JsonObject}
      {answer : Except Exn Thread} : Row (.freed threadId status ownerToken)
      ⟨.api (.releaseRunLock threadId status values ownerToken), answer⟩
  | other {m : StateMark} {x : (o : Routes.Op) × o.Ans} : m.isRow = false → Row m x

/-- The exceptions of `try_acquire_run_lock` for which a state update has a handler. -/
def Expected (exc : Exn) : Prop := exc.isKeyError = true ∨ exc.isValueError = true

/-- The graph took the update of a thread that was busy when it was last read. -/
def AcceptsBusy : Option Thread → List StateMark → Prop
  | _, [] => False
  | _, .read thread :: u => AcceptsBusy thread u
  | last, .accepted :: u =>
    (∃ thread, last = some thread ∧ thread.status = .busy) ∨ AcceptsBusy last u
  | last, _ :: u => AcceptsBusy last u

def Reads (u : List StateMark) : Prop := ∀ m ∈ u, m.isRead = true

/-- From the lock of the thread on, which was read in `status`. -/
inductive Rest (threadId graphName token : String) (status : ThreadStatus) : List StateMark → Prop
  | refused {error : Option Exn} : (∀ exc, error = some exc → Expected exc) →
      Rest threadId graphName token status [.refused error, .released graphName threadId token]
  | leaked {exc : Exn} : ¬ Expected exc →
      Rest threadId graphName token status [.refused (some exc)]
  | failed {lockToken : Option String} : Rest threadId graphName token status
      [.taken threadId lockToken, .freed threadId .error (ownerOf token lockToken),
        .released graphName threadId token]
  | served {lockToken : Option String} : Rest threadId graphName token status
      [.taken threadId lockToken, .accepted, .freed threadId status (ownerOf token lockToken),
        .released graphName threadId token]

inductive Course (threadId : String) : List StateMark → Prop
  | unlocked {u : List StateMark} : Reads u → Course threadId u
  | locked {u v : List StateMark} {thread : Thread} {graphName token : String} : Reads u →
      Rest threadId graphName token thread.status v →
      Course threadId (u ++ .read (some thread) :: .acquired graphName threadId token :: v)

variable {u v : List StateMark} {m : StateMark} {threadId graphName token : String}
  {status : ThreadStatus}

theorem reads_nil : Reads [] := List.forall_mem_nil _

theorem Reads.cons (h : Reads u) (thread : Option Thread) : Reads (.read thread :: u) :=
  List.forall_mem_cons.mpr ⟨rfl, h⟩

theorem Reads.mem_append (h : Reads u) (hm : m.isRead = false) : m ∈ u ++ v ↔ m ∈ v := by
  rw [List.mem_append, or_iff_right]
  intro hmem
  rw [h m hmem] at hm
  cases hm

theorem Reads.not_mem (h : Reads u) (hm : m.isRead = false) : m ∉ u := by
  intro hmem
  rw [h m hmem] at hm
  cases hm

theorem Reads.acceptsBusy (h : Reads u) (last : Option Thread) :
    ∃ last', AcceptsBusy last (u ++ v) ↔ AcceptsBusy last' v := by
  induction u generalizing last with
  | nil => exact ⟨last, Iff.rfl⟩
  | cons m u ih =>
    obtain ⟨hm, hu⟩ := List.forall_mem_cons.mp h
    cases m with
    | read thread => exact ih hu thread
    | _ => cases hm

theorem Reads.not_acceptsBusy (h : Reads u) : ¬ AcceptsBusy none u := by
  intro hbusy
  obtain ⟨last, hlast⟩ := h.acceptsBusy (v := []) none
  rw [List.append_nil] at hlast
  exact hlast.mp hbusy

theorem Reads.filter_append (h : Reads u) :
    (u ++ v).filter StateMark.isReleased = v.filter StateMark.isReleased := by
  rw [List.filter_append, List.filter_eq_nil_iff.mpr, List.nil_append]
  intro m hm
  have hread := h m hm
  cases m with
  | read thread => exact Bool.false_ne_true
  | _ => cases hread

abbrev Courses {α : Type} (p : Routes α) (S : Except Exn α → List StateMark → Prop) : Prop :=
  Prog.Writes (I := Routes.interface) (fun _ _ => True) stateMark p S

variable {lockToken ownerToken : String} {config : JsonObject} {update : ThreadStateUpdate}

theorem courses_releaseThreadStateLock
    (howner : (if ownerToken = "" then lockToken else ownerToken) = ownerToken) :
    Courses (releaseThreadStateLock threadId graphName lockToken status ownerToken) fun r u =>
      u = [.freed threadId status ownerToken, .released graphName threadId lockToken] ∧
        ∃ failure, r = .ok failure := by
  intro released _ answer _
  cases answer with
  | ok _ => exact ⟨by simp only [stateMark, storeMark, howner]; rfl, _, rfl⟩
  | error exc => exact ⟨by simp only [stateMark, storeMark, howner]; rfl, _, rfl⟩

theorem courses_updateLocked {token : Option String} :
    Courses (updateLocked threadId graphName lockToken (ownerOf lockToken token) status config
      update) fun _ u => Rest threadId graphName lockToken status (.taken threadId token :: u) := by
  have hguard : Courses ((Routes.perform (.api (.guardRunConfig graphName threadId
      lockToken))).bind .ofExcept) fun _ u => u = [] := by
    intro answer _
    cases answer <;> rfl
  have hupdate : Courses ((Routes.perform (.updateState config update.values update.asNode)).bind
      .ofExcept) fun r u => (∀ e, r = .error e → u = []) ∧ ∀ a, r = .ok a → u = [.accepted] := by
    intro answer _
    cases answer with
    | error exc => exact ⟨fun _ _ => rfl, fun _ h => (by cases h)⟩
    | ok result => exact ⟨fun _ h => (by cases h), fun _ _ => rfl⟩
  have htry : Courses (do
      (Routes.perform (.api (.guardRunConfig graphName threadId lockToken))).bind .ofExcept
      (Routes.perform (.updateState config update.values update.asNode)).bind .ofExcept :
        Routes Json.Value) fun r u =>
          (∀ e, r = .error e → u = []) ∧ ∀ a, r = .ok a → u = [.accepted] := by
    apply Prog.writes_bind hguard
    · rintro _ u rfl
      exact hupdate
    · rintro e u rfl
      exact ⟨fun _ _ => rfl, fun _ h => (by cases h)⟩
  have hrelease (status : ThreadStatus) :
      Courses (releaseThreadStateLock threadId graphName lockToken status
        (ownerOf lockToken token)) fun r u =>
          u = [.freed threadId status (ownerOf lockToken token),
            .released graphName threadId lockToken] ∧ ∃ failure, r = .ok failure :=
    courses_releaseThreadStateLock (ownerOf_eq lockToken token)
  have hattempt := Prog.writes_attempt (T := fun r u => ∃ outcome, r = .ok outcome ∧
      (∀ e, outcome = .error e → u = []) ∧ ∀ a, outcome = .ok a → u = [.accepted])
    htry fun r u hu => ⟨r, rfl, hu⟩
  apply Prog.writes_bind hattempt
  · rintro outcome u ⟨_, ⟨⟩, herror, hok⟩
    cases outcome with
    | error exc =>
      cases herror exc rfl
      apply Prog.writes_bind (hrelease .error)
      · rintro failure v ⟨rfl, -⟩
        change Courses (if _ then _ else _) _
        split
        · cases exc.str with
          | error exc' => exact .failed
          | ok text => exact .failed
        · exact .failed
      · rintro e v ⟨-, failure, h⟩
        cases h
    | ok result =>
      cases hok result rfl
      apply Prog.writes_bind (hrelease status)
      · rintro failure v ⟨rfl, -⟩
        cases failure with
        | some exc => exact .served
        | none => cases stateCheckpoint threadId result <;> exact .served
      · rintro e v ⟨-, failure, h⟩
        cases h
  · rintro e u ⟨outcome, h, -⟩
    cases h

theorem courses_lockedUpdate :
    Courses (lockedUpdate threadId graphName lockToken status config update) fun _ u =>
      Rest threadId graphName lockToken status u := by
  intro answer _
  cases answer with
  | error exc =>
    have hrefused (h : Expected exc) : Rest threadId graphName lockToken status
        [.refused (some exc), .released graphName threadId lockToken] := by
      refine .refused fun exc' hexc => ?_
      cases hexc
      exact h
    change Courses (if _ then _ else if _ then _ else _) _
    split
    · next hkey =>
      intro answer _
      cases answer <;> exact hrefused (.inl hkey)
    · next hkey =>
      split
      · next hvalue =>
        intro answer _
        cases answer with
        | error exc' => exact hrefused (.inr hvalue)
        | ok _ =>
          change Courses (Prog.ofExcept exc.str >>= _) _
          cases exc.str <;> exact hrefused (.inr hvalue)
      · next hvalue => exact .leaked fun h => h.elim hkey hvalue
  | ok locked =>
    cases locked with
    | none =>
      have hrefused : Rest threadId graphName lockToken status
          [.refused none, .released graphName threadId lockToken] :=
        .refused fun exc h => by cases h
      intro answer _
      cases answer <;> exact hrefused
    | some locked => exact courses_updateLocked

theorem courses_get_bind {α : Type} {f : Option Thread → Routes α}
    {S : Except Exn α → List StateMark → Prop}
    (hok : ∀ thread, Courses (f thread) fun r u => S r (.read thread :: u))
    (herror : ∀ e, S (.error e) []) : Courses (Routes.get threadId >>= f) S := by
  intro answer _
  cases answer with
  | error exc => exact herror exc
  | ok thread => exact hok thread

theorem courses_readUpdate (hu : Reads u) : Courses (readUpdate threadId config update)
    fun _ v => Course threadId (u ++ v) := by
  have hread (thread : Option Thread) : Course threadId (u ++ [.read thread]) :=
    .unlocked (List.forall_mem_append.mpr ⟨hu, reads_nil.cons thread⟩)
  apply courses_get_bind
  · intro thread
    cases thread with
    | none => exact hread none
    | some thread =>
      dsimp only
      split
      · exact hread (some thread)
      · intro answer _
        cases answer with
        | error exc => exact hread (some thread)
        | ok token =>
          cases token with
          | none => exact hread (some thread)
          | some token => exact courses_lockedUpdate.mono fun _ v hv => .locked hu hv
  · intro e
    rw [List.append_nil]
    exact .unlocked hu

theorem courses_threadsStateUpdate (eq : Json.Value → Json.Value → Bool)
    (body : Except Routes.Response ThreadStateUpdate)
    (resolve : Thread → Except Routes.Response Unit) :
    Courses (threadsStateUpdate eq threadId body resolve) fun _ u => Course threadId u := by
  cases body with
  | error response => exact .unlocked reads_nil
  | ok update =>
    apply courses_get_bind ?_ fun e => .unlocked reads_nil
    intro thread
    have hread : Course threadId [.read thread] := .unlocked (reads_nil.cons thread)
    cases thread with
    | none => exact hread
    | some thread =>
      dsimp only
      split
      · exact hread
      · split
        · exact hread
        · exact courses_readUpdate (reads_nil.cons (some thread))

theorem courses_program {call : Call} (hupdates : call.Updates)
    (hcall : call.threadId = some threadId) :
    Courses call.program fun _ u => Course threadId u := by
  cases call with
  | stateUpdate eq tid body resolve =>
    cases hcall
    exact courses_threadsStateUpdate eq body resolve
  | _ => exact hupdates.elim

/-- Each lock of a thread that was acquired was given back, under its token and once. -/
def LockReturned (u : List StateMark) : Prop :=
  ∀ graphName threadId token, .acquired graphName threadId token ∈ u →
    u.filter StateMark.isReleased = [.released graphName threadId token]

/-- What the handler does not foresee: another exception where the run lock is asked for, or an
update of a thread that was read busy. -/
structure Foreseen (u : List StateMark) : Prop where
  expected : ∀ exc, .refused (some exc) ∈ u → Expected exc
  calm : ¬ AcceptsBusy none u

theorem Course.lockReturned_iff (h : Course threadId u) :
    LockReturned u ↔ ∀ exc, .refused (some exc) ∈ u → Expected exc := by
  cases h with
  | unlocked hu =>
    refine iff_of_true (fun _ _ _ hmem => absurd hmem (hu.not_mem rfl)) fun _ hmem => ?_
    exact absurd hmem (hu.not_mem rfl)
  | @locked u v thread graphName token hu hv =>
    have hkept : LockReturned
        (u ++ .read (some thread) :: .acquired graphName threadId token :: v) ↔
        v.filter StateMark.isReleased = [.released graphName threadId token] := by
      simp only [LockReturned, hu.mem_append (m := .acquired ..) rfl, hu.filter_append]
      constructor
      · exact fun h => h graphName threadId token (by simp)
      · intro h graphName' threadId' token' hmem
        have hsame : .acquired graphName' threadId' token' =
            StateMark.acquired graphName threadId token := by
          cases hv <;> simpa using hmem
        cases hsame
        exact h
    rw [hkept]
    simp only [hu.mem_append (m := .refused ..) rfl]
    cases hv with
    | refused hexpected =>
      refine iff_of_true rfl fun exc hmem => hexpected exc ?_
      simpa [eq_comm] using hmem
    | leaked hexc =>
      refine iff_of_false (fun h => by cases h) fun h => hexc (h _ (by simp))
    | failed => exact iff_of_true rfl (by simp)
    | served => exact iff_of_true rfl (by simp)

theorem Course.freed (h : Course threadId u) {tid : String} {lockToken : Option String}
    (htaken : .taken tid lockToken ∈ u) : tid = threadId ∧ ∃ status token,
      .freed threadId status (ownerOf token lockToken) ∈ u ∧
        (status = .busy ↔ AcceptsBusy none u) := by
  cases h with
  | unlocked hu => exact absurd htaken (hu.not_mem rfl)
  | @locked u v thread graphName token hu hv =>
    obtain ⟨last, hlast⟩ := hu.acceptsBusy
      (v := .read (some thread) :: .acquired graphName threadId token :: v) none
    rw [hu.mem_append rfl] at htaken
    simp only [hlast, hu.mem_append (m := .freed ..) rfl]
    cases hv with
    | refused hexpected => simp at htaken
    | leaked hexc => simp at htaken
    | failed =>
      obtain ⟨rfl, rfl⟩ : tid = threadId ∧ lockToken = _ := by simpa using htaken
      exact ⟨rfl, .error, token, by simp, by simp [AcceptsBusy]⟩
    | served =>
      obtain ⟨rfl, rfl⟩ : tid = threadId ∧ lockToken = _ := by simpa using htaken
      exact ⟨rfl, thread.status, token, by simp, by simp [AcceptsBusy]⟩

theorem Course.taken (h : Course threadId u) (hbusy : AcceptsBusy none u) :
    ∃ lockToken, .taken threadId lockToken ∈ u := by
  cases h with
  | unlocked hu => exact absurd hbusy hu.not_acceptsBusy
  | @locked u v thread graphName token hu hv =>
    obtain ⟨last, hlast⟩ := hu.acceptsBusy
      (v := .read (some thread) :: .acquired graphName threadId token :: v) none
    rw [hlast] at hbusy
    simp only [hu.mem_append (m := .taken ..) rfl]
    cases hv with
    | refused hexpected => simp [AcceptsBusy] at hbusy
    | leaked hexc => simp [AcceptsBusy] at hbusy
    | @failed lockToken => exact ⟨lockToken, by simp⟩
    | @served lockToken => exact ⟨lockToken, by simp⟩

abbrev marksOf (i : ι) (u : List (RouteEvent ι)) : List StateMark :=
  (Pool.opsOf i u).flatMap stateMark

/-- What a request of `i` leaves that took these locks: the lock of the thread was given back, and
the row is not under its token; if the row is busy, then under the lock of another request, or as
another state update has left it. -/
structure Releases (i : ι) (u : List StateMark) (s : Shared ι) : Prop where
  lock : LockReturned u
  row : ∀ threadId token, .taken threadId (some token) ∈ u → ∀ status lockToken,
    lockOf s.threads threadId = some (status, lockToken) → lockToken ≠ some token ∧
      (status = .busy → ∃ other, lockToken = some other ∧
        ((∃ j, j ≠ i ∧ s.held j = some (threadId, other)) ∨ (threadId, other) ∈ s.left))

/-- A token that was given back: no row is held under it any more, nor will be. -/
structure Forgotten (threadId token : String) (s : Shared ι) : Prop where
  issued : token ∈ s.issued
  gone : ∀ status, lockOf s.threads threadId ≠ some (status, some token)

variable {i : ι} {s s' : Shared ι} {o : Routes.Op} {answer : o.Ans} {call : Call}

omit [DecidableEq ι] in
theorem Forgotten.same (h : Forgotten threadId token s) (hissued : ∀ t ∈ s.issued, t ∈ s'.issued)
    (hlocks : lockOf s'.threads = lockOf s.threads) : Forgotten threadId token s' :=
  ⟨hissued token h.issued, hlocks ▸ h.gone⟩

omit [DecidableEq ι] in
theorem Forgotten.set (h : Forgotten threadId token s) (hissued : ∀ t ∈ s.issued, t ∈ s'.issued)
    {id : String} {thread : Thread} (hthreads : s'.threads = s.threads.set id thread)
    (hother : thread.lockToken ≠ some token) : Forgotten threadId token s' := by
  refine ⟨hissued token h.issued, fun status => ?_⟩
  rw [hthreads, lockOf_set]
  split
  · intro heq
    rw [Option.some_inj, Prod.mk.injEq] at heq
    exact hother heq.2
  · exact h.gone status

theorem forgotten_step (h : Forgotten threadId token s) (hstep : (routes i).step o s answer s') :
    Forgotten threadId token s' := by
  cases o with
  | updateState =>
    cases hstep
    exact h
  | create metadata =>
    obtain ⟨id, now, -, rfl⟩ := hstep
    rw [InMemoryThreadStore.create]
    cases s.threads.get? id with
    | none => exact h.set (fun _ ht => ht) rfl (by simp)
    | some existing => exact h
  | delete id =>
    obtain ⟨-, rfl⟩ := hstep
    refine ⟨h.issued, fun status => ?_⟩
    change lockOf (InMemoryThreadStore.delete s.threads id).2 threadId ≠ _
    rw [lockOf_delete]
    split
    · simp
    · exact h.gone status
  | api o =>
    rcases hstep with ⟨now, fresh, other, hnew, -, rfl, rfl⟩ | ⟨-, rfl⟩
    case inr => exact h
    have hissued : ∀ t ∈ s.issued, t ∈ fresh :: s.issued := fun t ht => List.mem_cons_of_mem _ ht
    have hne : some fresh ≠ some token := by
      rintro ⟨⟩
      exact hnew h.issued
    cases o with
    | tryAcquireRunLock id assistantId =>
      have hcases := refusesOrTakes_tryAcquireRunLock s.threads id (some assistantId) now fresh
      rcases hcases with ⟨-, hsame⟩ | ⟨existing, locked, -, -, -, htoken, htaken⟩
      · exact h.same hissued (congrArg lockOf hsame)
      · exact h.set hissued (congrArg Prod.snd htaken) (htoken ▸ hne)
    | releaseRunLock id status values ownerToken =>
      rcases @releaseRunLock_cases s.threads id now status values ownerToken with
        ⟨hsame, -⟩ | ⟨-, updated, -, hnone, hset⟩
      · exact h.same hissued (congrArg lockOf hsame)
      · exact h.set hissued hset (by simp [hnone])
    | updateMetadata id metadata => exact h.same hissued (lockOf_update _)
    | renewRunLock id ownerToken => exact h.same hissued (lockOf_renewRunLock _)
    | _ => exact h.same hissued rfl

theorem left_step (hstep : (routes i).step o s answer s') : s.left ⊆ s'.left := by
  cases o with
  | updateState =>
    cases hstep
    exact List.Subset.refl _
  | create metadata =>
    obtain ⟨id, now, -, rfl⟩ := hstep
    exact List.Subset.refl _
  | delete threadId =>
    obtain ⟨-, rfl⟩ := hstep
    exact List.Subset.refl _
  | api o =>
    rcases hstep with ⟨now, token, other, -, -, -, rfl⟩ | ⟨-, rfl⟩
    case inr => exact List.Subset.refl _
    change s.left ⊆ abandoned s.left o
    rw [abandoned.eq_def]
    split
    · exact List.subset_cons_self _ _
    · exact List.Subset.refl _

theorem freed_step {values : Option JsonObject} {answer : Except Exn Thread} (hinv : Accounted s)
    (hheld : s.held i = some (threadId, token)) (hstatus : status ≠ .busy)
    (hstep : (routes i).step (.api (.releaseRunLock threadId status values token)) s answer s') :
    Forgotten threadId token s' := by
  obtain ⟨now, fresh, other, hnew, -, rfl, rfl⟩ | ⟨hraises, -⟩ := hstep
  · refine ⟨List.mem_cons_of_mem _ (hinv.owned threadId token (owned_held hheld)).1, ?_⟩
    change ∀ st, lockOf (InMemoryThreadStore.releaseRunLock s.threads threadId status values
      (some token) now).2 threadId ≠ _
    rcases @releaseRunLock_cases s.threads threadId now status values token with
      ⟨hsame, hlost⟩ | ⟨-, updated, -, hnone, hset⟩
    · rw [hsame]
      exact hlost.resolve_left hstatus
    · intro st
      rw [hset, lockOf_set, if_pos rfl, hnone]
      simp
  · exact hraises.elim

theorem restored_step {values : Option JsonObject} {answer : Except Exn Thread}
    (hstep : (routes i).step (.api (.releaseRunLock threadId .busy values token)) s answer s') :
    (threadId, token) ∈ s'.left := by
  obtain ⟨now, fresh, other, -, -, -, rfl⟩ | ⟨hraises, -⟩ := hstep
  · exact List.mem_cons_self
  · exact hraises.elim

theorem mem_stateMark {x : (o : Routes.Op) × o.Ans} (h : m ∈ stateMark x) : m.Row x := by
  obtain ⟨o, answer⟩ := x
  cases o with
  | api o =>
    cases o with
    | tryAcquireRunLock threadId assistantId =>
      cases answer with
      | error exc =>
        cases List.mem_singleton.mp h
        exact .other rfl
      | ok locked =>
        cases locked <;> cases List.mem_singleton.mp h
        · exact .other rfl
        · exact .taken
    | releaseRunLock threadId status values ownerToken =>
      cases List.mem_singleton.mp h
      exact .freed
    | get threadId =>
      cases answer with
      | error exc => cases h
      | ok thread =>
        cases List.mem_singleton.mp h
        exact .other rfl
    | acquire graphName threadId =>
      cases answer with
      | error exc => cases h
      | ok token =>
        cases token with
        | none => cases h
        | some token =>
          cases List.mem_singleton.mp h
          exact .other rfl
    | release graphName threadId token =>
      cases List.mem_singleton.mp h
      exact .other rfl
    | _ => cases h
  | updateState =>
    cases answer with
    | error exc => cases h
    | ok result =>
      cases List.mem_singleton.mp h
      exact .other rfl
  | _ => cases h

theorem mem_freed {w : Transcript Routes.interface}
    (h : .freed threadId status token ∈ w.flatMap stateMark) : ∃ values answer,
      ⟨.api (.releaseRunLock threadId status values token), answer⟩ ∈ w := by
  obtain ⟨x, hx, hmark⟩ := List.mem_flatMap.mp h
  cases mem_stateMark hmark with
  | freed => exact ⟨_, _, hx⟩
  | other hrow => cases hrow

theorem mem_taken {w : Transcript Routes.interface} {lockToken : Option String}
    (h : .taken threadId lockToken ∈ w.flatMap stateMark) : ∃ assistantId locked,
      ⟨.api (.tryAcquireRunLock threadId assistantId), .ok (some locked)⟩ ∈ w ∧
        locked.lockToken = lockToken := by
  obtain ⟨x, hx, hmark⟩ := List.mem_flatMap.mp h
  cases mem_stateMark hmark with
  | taken => exact ⟨_, _, hx, rfl⟩
  | other hrow => cases hrow

variable {start : Shared ι} {t w : List (RouteEvent ι)}
  {P : Pool Routes.interface Exn Routes.Response (Shared ι) ι Call}

theorem serves_course (hserves : Serves i call t w s) (h : RouteRuns ι (Pool.idle start) t P)
    (hfinished : ∀ e ∈ t, e.Finished) (hupdates : call.Updates)
    (hcall : call.threadId = some threadId) : Course threadId (marksOf i w) := by
  obtain ⟨t₁, s₀, p, t₂, rfl⟩ := hserves.stretch
  obtain ⟨-, hplays⟩ := h.transcript_of_leave (A := fun _ _ => True)
    (fun l s hmem => hserves.once _ hmem rfl) fun _ _ _ _ _ _ => trivial
  have hended : p.ended = true := hfinished (.leave i call p s) (by simp)
  cases p with
  | ret response =>
    exact Prog.Plays.writes (r := .ok response) hplays (courses_program hupdates hcall)
  | raise exc =>
    exact Prog.Plays.writes (r := .error exc) hplays (courses_program hupdates hcall)
  | call o k => cases hended

theorem serves_freed (hserves : Serves i call t w s) (hstart : RunLocks.Fresh start)
    (h : RouteRuns ι (Pool.idle start) t P) (hfinished : ∀ e ∈ t, e.Finished)
    (hfreed : .freed threadId status token ∈ marksOf i w) :
    (status ≠ .busy → Forgotten threadId token s) ∧
      (status = .busy → (threadId, token) ∈ s.left) := by
  obtain ⟨values, answer, hmem⟩ := mem_freed hfreed
  obtain ⟨call', s₁, s₂, hevent⟩ := Pool.mem_opsOf.mp hmem
  obtain ⟨w₁, w₂, rfl⟩ := List.append_of_mem hevent
  obtain ⟨t₁, s₀, p, t₂, rfl⟩ := hserves.stretch
  obtain ⟨hinv, hstep, hg⟩ := (accounted_runs hstart h hfinished).2
    (.op i call' (.api (.releaseRunLock threadId status values token)) s₁ answer s₂) (by simp)
  obtain ⟨hheld, -⟩ := hg.release threadId status values token rfl
  -- what is left of the request after its release
  obtain ⟨P₁, -, hrest⟩ := h.split
  cases hrest with
  | cons _ hrest =>
    rw [List.append_assoc, List.cons_append] at hrest
    obtain ⟨P₂, -, hrest⟩ := hrest.split
    obtain ⟨-, P₃, rfl, hlater⟩ := hrest.op
    obtain ⟨P₄, hafter, hleave⟩ := hlater.split
    have hs : P₄.store = s := by
      cases hleave with
      | cons hleave _ =>
        cases hleave
        rfl
    subst hs
    constructor
    · intro hstatus
      refine hafter.keeps (J := Forgotten threadId token) (fun j l o s a s' hmem hs => ?_)
        (freed_step hinv hheld hstatus hstep)
      exact forgotten_step hs (hafter.step_of_op hmem)
    · rintro rfl
      refine hafter.keeps (J := fun s => (threadId, token) ∈ s.left)
        (fun j l o s a s' hmem hs => left_step (hafter.step_of_op hmem) hs) (restored_step hstep)

theorem serves_taken (hserves : Serves i call t w s) (h : RouteRuns ι (Pool.idle start) t P)
    {lockToken : Option String} (htaken : .taken threadId lockToken ∈ marksOf i w) :
    ∃ token, lockToken = some token ∧ token ≠ "" := by
  obtain ⟨assistantId, locked, hmem, rfl⟩ := mem_taken htaken
  obtain ⟨call', s₁, s₂, hevent⟩ := Pool.mem_opsOf.mp hmem
  obtain ⟨t₁, s₀, p, t₂, rfl⟩ := hserves.stretch
  have hstep := h.step_of_op (List.mem_append_right t₁ (List.mem_cons_of_mem _
    (List.mem_append_left (.leave i call p s :: t₂) hevent)))
  rcases acquired_step hstep with ⟨locked', token, heq, htoken, hne, -⟩ | ⟨hrefused, -⟩
  · cases heq
    exact ⟨token, htoken, hne⟩
  · exact absurd rfl (hrefused locked)

theorem serves_over (hserves : Serves i call t w s) (hstart : RunLocks.Fresh start)
    (h : RouteRuns ι (Pool.idle start) t P) (hfinished : ∀ e ∈ t, e.Finished) :
    Accounted s ∧ s.held i = none := by
  obtain ⟨t₁, s₀, p, t₂, rfl⟩ := hserves.stretch
  have hmem : .leave i call p s ∈ t₁ ++ .start i call s₀ :: (w ++ .leave i call p s :: t₂) := by
    simp
  obtain ⟨hinv, hdone⟩ := (accounted_runs hstart h hfinished).2 _ hmem
  have hended : p.ended = true := hfinished _ hmem
  cases p with
  | ret response => exact ⟨hinv, hdone (.ok response) rfl⟩
  | raise exc => exact ⟨hinv, hdone (.error exc) rfl⟩
  | call o k => cases hended

/-- Whatever requests run, in whatever order, and whatever is raised: a state update that is over
has given back what it took, if `try_acquire_run_lock` raised nothing but a `KeyError` or a
`ValueError` and its graph took no update of a thread read busy; and only then, unless the thread
was deleted. -/
theorem state_update_releases (hstart : RunLocks.Fresh start)
    (h : RouteRuns ι (Pool.idle start) t P) (hfinished : ∀ e ∈ t, e.Finished)
    (hserves : Serves i call t w s) (hupdates : call.Updates) :
    (Foreseen (marksOf i w) → Releases i (marksOf i w) s) ∧
      ((∀ threadId, call.threadId = some threadId → threadId ∉ s.deleted) →
        Releases i (marksOf i w) s → Foreseen (marksOf i w)) := by
  obtain ⟨threadId, hcall⟩ : ∃ threadId, call.threadId = some threadId := by
    cases call with
    | stateUpdate eq threadId body resolve => exact ⟨threadId, rfl⟩
    | _ => exact hupdates.elim
  have hcourse := serves_course hserves h hfinished hupdates hcall
  obtain ⟨hinv, hidle⟩ := serves_over hserves hstart h hfinished
  have hrow {lockToken : Option String} {tid : String}
      (htaken : .taken tid lockToken ∈ marksOf i w) : tid = threadId ∧
        ∃ token, lockToken = some token ∧
        (¬ AcceptsBusy none (marksOf i w) → Forgotten threadId token s) ∧
        (AcceptsBusy none (marksOf i w) → (threadId, token) ∈ s.left) := by
    obtain ⟨token, rfl, hne⟩ := serves_taken hserves h htaken
    obtain ⟨rfl, status, key, hfreed, hbusy⟩ := hcourse.freed htaken
    rw [ownerOf, if_neg hne] at hfreed
    obtain ⟨hforgotten, hleft⟩ := serves_freed hserves hstart h hfinished hfreed
    exact ⟨rfl, token, rfl, fun hcalm => hforgotten (hcalm ∘ hbusy.mp),
      fun haccepts => hleft (hbusy.mpr haccepts)⟩
  constructor
  · intro hforeseen
    refine ⟨hcourse.lockReturned_iff.mpr hforeseen.expected, ?_⟩
    intro tid token htaken status lockToken hlock
    obtain ⟨rfl, _, ⟨⟩, hforgotten, -⟩ := hrow htaken
    constructor
    · rintro rfl
      exact (hforgotten hforeseen.calm).gone status hlock
    · rintro rfl
      obtain ⟨other, rfl, hown⟩ := hinv.busy tid lockToken hlock
      refine ⟨other, rfl, hown.imp_left ?_⟩
      rintro ⟨j, hj⟩
      refine ⟨j, ?_, hj⟩
      rintro rfl
      rw [hidle] at hj
      cases hj
  · intro hlive hreleases
    refine ⟨hcourse.lockReturned_iff.mp hreleases.lock, fun hbusy => ?_⟩
    obtain ⟨lockToken, htaken⟩ := hcourse.taken hbusy
    obtain ⟨-, token, rfl, -, hleft⟩ := hrow htaken
    have hlock := (hinv.owned threadId token (.inr (hleft hbusy))).2.resolve_left
      (hlive threadId hcall)
    exact (hreleases.row threadId token htaken .busy (some token) hlock).1 rfl

def oneBound : Shared Bool := { oneThread with threads := Dict.ofList [("t", boundThread)] }

theorem fresh_oneBound : RunLocks.Fresh oneBound where
  idle threadId token h := by
    by_cases ht : threadId = "t"
    · rw [ht] at h
      cases h
    · have hget : oneBound.threads.get? threadId = none :=
        Dict.get?_ofList_of_not_mem (by simpa using ht)
      rw [lockOf, hget] at h
      cases h
  held _ := rfl
  left := rfl

def unavailable : Exn := .runtimeError "the service is down"

theorem routes_unavailable (i : Bool) (threadId assistantId : String) (s : Shared Bool) :
    (routes i).step (.api (.tryAcquireRunLock threadId assistantId)) s (.error unavailable) s :=
  .inr ⟨trivial, rfl⟩

/-- The two ways in which a state update does not give back what it took: the run lock, where it put
back the status of a run that had ended meanwhile, and the lock of the thread. -/
theorem state_update_keeps :
    (∃ t P u s, RouteRuns Bool (Pool.idle oneThread) t P ∧ (∀ e ∈ t, e.Finished) ∧
      Serves false updateCall t u s ∧ .taken "t" (some "m4") ∈ marksOf false u ∧
      lockOf s.threads "t" = some (.busy, some "m4") ∧ ¬ Releases false (marksOf false u) s) ∧
    ∃ t P u s, RouteRuns Bool (Pool.idle oneBound) t P ∧ (∀ e ∈ t, e.Finished) ∧
      Serves false updateCall t u s ∧ ¬ LockReturned (marksOf false u) := by
  constructor
  · obtain ⟨t, P, u, s, hruns, hfinished, -, -, hserves, ⟨s₁, s₂, locked, hmem, htoken⟩, hlock⟩ :=
      serves_readBusy
    have htaken : .taken "t" (some "m4") ∈ marksOf false u := by
      refine List.mem_flatMap.mpr ⟨_, Pool.mem_opsOf.mpr ⟨_, _, _, hmem⟩, ?_⟩
      simp [stateMark, storeMark, htoken]
    refine ⟨t, P, u, s, hruns, hfinished, hserves, htaken, hlock, fun hreleases => ?_⟩
    exact (hreleases.row "t" "m4" htaken .busy (some "m4") hlock).1 rfl
  · obtain ⟨t, P, hruns, hfinished, s₀, p, s, ht, hu, hacquired, hnone⟩ : ∃ t P,
        RouteRuns Bool (Pool.idle oneBound) t P ∧ (∀ e ∈ t, e.Finished) ∧ ∃ s₀ p s,
          t = [] ++ .start false updateCall s₀ ::
            ((t.drop 1).take 4 ++ .leave false updateCall p s :: []) ∧
          (∀ e ∈ (t.drop 1).take 4, ¬ Starts false e) ∧
          .acquired "g" "t" "lock" ∈ marksOf false ((t.drop 1).take 4) ∧
          (marksOf false ((t.drop 1).take 4)).filter StateMark.isReleased = [] := by
      refine ⟨_, _, .cons (.start (i := false) (l := updateCall) rfl trivial) <|
        .cons (.op (i := false) rfl (routes_api false _ _ "m1" (by decide) (by decide))) <|
        .cons (.op (i := false) rfl (routes_api false _ _ "m2" (by decide) (by decide))) <|
        .cons (.op (i := false) rfl (routes_api false _ _ "m3" (by decide) (by decide))) <|
        .cons (.op (i := false) rfl (routes_unavailable false _ _ _)) <|
        .cons (.leave (i := false) rfl) .nil, ?_, ?_⟩
      · simp only [List.forall_mem_cons]
        exact ⟨trivial, trivial, trivial, trivial, trivial, rfl, List.forall_mem_nil _⟩
      · refine ⟨_, _, _, rfl, ?_, ?_, rfl⟩
        · simp only [List.drop_succ_cons, List.drop_zero, List.take_succ_cons, List.take_zero,
            List.forall_mem_cons]
          exact ⟨id, id, id, id, List.forall_mem_nil _⟩
        · exact .tail _ (.tail _ (.head _))
    refine ⟨t, P, _, s, hruns, hfinished, ⟨⟨[], s₀, p, [], ht⟩, hu⟩, fun hreturned => ?_⟩
    have hreleased := hreturned "g" "t" "lock" hacquired
    rw [hnone] at hreleased
    cases hreleased

theorem state_update_releases_oneBound : ∃ t P u s, RouteRuns Bool (Pool.idle oneBound) t P ∧
    Serves false updateCall t u s ∧ .taken "t" (some "m4") ∈ marksOf false u ∧
    Releases false (marksOf false u) s := by
  obtain ⟨t, P, hruns, hfinished, s₀, p, s, ht, hu, hmarks⟩ : ∃ t P,
      RouteRuns Bool (Pool.idle oneBound) t P ∧ (∀ e ∈ t, e.Finished) ∧ ∃ s₀ p s,
        t = [] ++ .start false updateCall s₀ ::
          ((t.drop 1).take 8 ++ .leave false updateCall p s :: []) ∧
        (∀ e ∈ (t.drop 1).take 8, ¬ Starts false e) ∧
        marksOf false ((t.drop 1).take 8) = [.read (some boundThread), .read (some boundThread),
          .acquired "g" "t" "lock", .taken "t" (some "m4"), .accepted, .freed "t" .idle "m4",
          .released "g" "t" "lock"] := by
    refine ⟨_, _, .cons (.start (i := false) (l := updateCall) rfl trivial) <|
      .cons (.op (i := false) rfl (routes_api false _ _ "m1" (by decide) (by decide))) <|
      .cons (.op (i := false) rfl (routes_api false _ _ "m2" (by decide) (by decide))) <|
      .cons (.op (i := false) rfl (routes_api false _ _ "m3" (by decide) (by decide))) <|
      .cons (.op (i := false) rfl (routes_api false _ _ "m4" (by decide) (by decide))) <|
      .cons (.op (i := false) rfl (routes_api false _ _ "m5" (by decide) (by decide))) <|
      .cons (.op (i := false) rfl (routes_updateState false _ _ _ _)) <|
      .cons (.op (i := false) rfl (routes_api false _ _ "m6" (by decide) (by decide))) <|
      .cons (.op (i := false) rfl (routes_api false _ _ "m7" (by decide) (by decide))) <|
      .cons (.leave (i := false) rfl) .nil, ?_, ?_⟩
    · simp only [List.forall_mem_cons]
      exact ⟨trivial, trivial, trivial, trivial, trivial, trivial, trivial, trivial, trivial, rfl,
        List.forall_mem_nil _⟩
    · refine ⟨_, _, _, rfl, ?_, rfl⟩
      simp only [List.drop_succ_cons, List.drop_zero, List.take_succ_cons, List.take_zero,
        List.forall_mem_cons]
      exact ⟨id, id, id, id, id, id, id, id, List.forall_mem_nil _⟩
  have hserves : Serves false updateCall t ((t.drop 1).take 8) s := ⟨⟨[], s₀, p, [], ht⟩, hu⟩
  refine ⟨t, P, _, s, hruns, hserves, ?_, ?_⟩
  · rw [hmarks]
    simp
  · refine (state_update_releases fresh_oneBound hruns hfinished hserves trivial).1 ?_
    rw [hmarks]
    refine ⟨by simp, ?_⟩
    simp [AcceptsBusy, boundThread]

end LangGraphFunctions.Platform.StateReleases

import LangGraphFunctions.Lib.Views
import LangGraphFunctions.Platform.StateUpdate

/-! The store that any number of requests share, and the account of its busy threads. -/

namespace LangGraphFunctions.Platform.RunLocks

open Lib

variable {ι : Type}

inductive Call
  | platform (request : Request)
  | stateUpdate (eq : Json.Value → Json.Value → Bool) (threadId : String)
      (body : Except Routes.Response ThreadStateUpdate)
      (resolve : Thread → Except Routes.Response Unit)
  | create (body : Except Routes.Response (Option JsonObject))
  | delete (threadId : String)

namespace Call

def program : Call → Routes Routes.Response
  | platform request => (Routes.ofApi request.program).bind fun response =>
      return (response.map .api).getD .renewed
  | stateUpdate eq threadId body resolve => threadsStateUpdate eq threadId body resolve
  | create body => threadsCreate body
  | delete threadId => threadsDelete threadId

def threadId : Call → Option String
  | platform request => some request.threadId
  | stateUpdate _ threadId _ _ => some threadId
  | create _ => none
  | delete threadId => some threadId

def Updates : Call → Prop
  | stateUpdate .. => True
  | _ => False

end Call

/-- The threads and the tokens given out, and of each client the thread it has last read and the run
lock it answers for; `left` are the locks that a release to `busy` has left behind. -/
structure Shared (ι : Type) where
  threads : Threads
  issued : List String
  deleted : List String
  read : ι → Option Thread
  held : ι → Option (String × String)
  left : List (String × String)

def abandoned (left : List (String × String)) : Api.Op → List (String × String)
  | .releaseRunLock threadId .busy _ ownerToken => (threadId, ownerToken) :: left
  | _ => left

variable [DecidableEq ι]

def holding (i : ι) (token : String) (held : ι → Option (String × String)) :
    (o : Api.Op) → o.Ans → ι → Option (String × String)
  | .tryAcquireRunLock threadId _, .ok (some _) => Function.update held i (some (threadId, token))
  | .releaseRunLock .., _ => Function.update held i none
  | _, _ => held

def Shared.after (s : Shared ι) (i : ι) (token : String) (o : Api.Op) (answer : o.Ans)
    (threads : Threads) : Shared ι where
  threads
  issued := token :: s.issued
  deleted := s.deleted
  read := noted i s.read o answer
  held := holding i token s.held o answer
  left := abandoned s.left o

/-- The run lock that is asked for may be refused with any exception. -/
def Raises : (o : Api.Op) → o.Ans → Prop
  | .tryAcquireRunLock .., .error _ => True
  | _, _ => False

/-- Each operation of the store is one step, and each token it draws is new; the locks of threads,
the renewals and the graph answer what they like. -/
def routes (i : ι) : Prog.Service Routes.interface (Shared ι) where
  step o s answer s' := match o, answer with
    | .api o, answer => (∃ now token other, token ∉ s.issued ∧ token ≠ "" ∧
        answer = (InMemoryThreadStore.serve now token other o s.threads).1 ∧
        s' = s.after i token o answer (InMemoryThreadStore.serve now token other o s.threads).2) ∨
        Raises o answer ∧ s' = s
    | .create metadata, answer => ∃ id now,
        answer = (InMemoryThreadStore.create s.threads id now metadata).1 ∧
        s' = { s with threads := (InMemoryThreadStore.create s.threads id now metadata).2 }
    | .delete threadId, answer => answer = (InMemoryThreadStore.delete s.threads threadId).1 ∧
        s' = { s with
          threads := (InMemoryThreadStore.delete s.threads threadId).2
          deleted := threadId :: s.deleted }
    | .updateState .., _ => s' = s

abbrev RouteRuns (ι : Type) [DecidableEq ι] :=
  Pool.Runs (fun (i : ι) (_ : Call) => routes i) Call.program fun _ _ _ => True

def lockOf (threads : Threads) (threadId : String) : Option (ThreadStatus × Option String) :=
  (threads.get? threadId).map fun thread => (thread.status, thread.lockToken)

variable {threads : Threads} {threadId : String} {now : Int} {token : String}

theorem lockOf_set (threads : Threads) (threadId : String) (thread : Thread) (id : String) :
    lockOf (threads.set threadId thread) id =
      if id = threadId then some (thread.status, thread.lockToken) else lockOf threads id := by
  rw [lockOf, Dict.get?_set]
  split <;> rfl

theorem lockOf_set_same {existing updated : Thread} (h : threads.get? threadId = some existing)
    (hstatus : updated.status = existing.status) (htoken : updated.lockToken = existing.lockToken) :
    lockOf (threads.set threadId updated) = lockOf threads := by
  funext id
  rw [lockOf_set]
  split
  · next heq => rw [heq, lockOf, h, hstatus, htoken]; rfl
  · rfl

theorem lockOf_update (metadata : Option JsonObject) :
    lockOf (InMemoryThreadStore.update threads threadId now metadata none none none none).2 =
      lockOf threads := by
  rw [InMemoryThreadStore.update]
  split
  · rfl
  · next existing h => exact lockOf_set_same h rfl rfl

theorem lockOf_renewRunLock (ownerToken : String) :
    lockOf (InMemoryThreadStore.renewRunLock threads threadId ownerToken now).2 =
      lockOf threads := by
  rw [InMemoryThreadStore.renewRunLock]
  split
  · rfl
  · next existing h =>
    split
    · rfl
    · exact lockOf_set_same h rfl rfl

def RefusesOrTakes (threads : Threads) (threadId token : String)
    (outcome : Except Exn (Option Thread) × Threads) : Prop :=
  (∀ locked, outcome.1 ≠ .ok (some locked)) ∧ outcome.2 = threads ∨
    ∃ existing locked, threads.get? threadId = some existing ∧ existing.status ≠ .busy ∧
      locked.status = .busy ∧ locked.lockToken = some token ∧
      outcome = (.ok (some locked), threads.set threadId locked)

theorem refuses_error (exc : Exn) :
    RefusesOrTakes threads threadId token (.error exc, threads) := by
  refine .inl ⟨fun locked h => ?_, rfl⟩
  cases h

theorem refusesOrTakes_locked (assistantId : Option String) {existing : Thread}
    (h : threads.get? threadId = some existing) : RefusesOrTakes threads threadId token
      (InMemoryThreadStore.tryAcquireRunLock.locked threads threadId assistantId now token
        existing) := by
  rw [InMemoryThreadStore.tryAcquireRunLock.locked]
  split
  · refine .inl ⟨fun locked h => ?_, rfl⟩
    cases h
  · next hbusy => exact .inr ⟨existing, _, h, hbusy, rfl, rfl, rfl⟩

theorem refusesOrTakes_tryAcquireRunLock (threads : Threads) (threadId : String)
    (assistantId : Option String) (now : Int) (token : String) :
    RefusesOrTakes threads threadId token
      (InMemoryThreadStore.tryAcquireRunLock threads threadId assistantId now token) := by
  rw [InMemoryThreadStore.tryAcquireRunLock]
  split
  · exact refuses_error _
  · next existing h =>
    split
    · split
      · exact refuses_error _
      · exact refusesOrTakes_locked _ h
    · exact refusesOrTakes_locked _ h

theorem releaseRunLock_cases {status : ThreadStatus} (values : Option JsonObject)
    (ownerToken : String) :
    ((InMemoryThreadStore.releaseRunLock threads threadId status values (some ownerToken) now).2 =
        threads ∧
      (status = .busy ∨ ∀ s, lockOf threads threadId ≠ some (s, some ownerToken))) ∨
    status ≠ .busy ∧ ∃ updated, updated.status = status ∧ updated.lockToken = none ∧
      (InMemoryThreadStore.releaseRunLock threads threadId status values (some ownerToken) now).2 =
        threads.set threadId updated := by
  rw [InMemoryThreadStore.releaseRunLock]
  split
  · next h => exact .inl ⟨rfl, .inl h⟩
  · next hbusy =>
    split
    · next h =>
      refine .inl ⟨rfl, .inr fun s hs => ?_⟩
      rw [lockOf, h] at hs
      cases hs
    · next existing h =>
      split
      · next hother =>
        refine .inl ⟨rfl, .inr fun s hs => ?_⟩
        rw [lockOf, h, Option.map_some, Option.some_inj, Prod.mk.injEq] at hs
        rw [hs.2] at hother
        simp at hother
      · exact .inr ⟨hbusy, _, rfl, rfl, rfl⟩

def Owned (s : Shared ι) (threadId token : String) : Prop :=
  (∃ i, s.held i = some (threadId, token)) ∨ (threadId, token) ∈ s.left

structure Accounted (s : Shared ι) : Prop where
  busy : ∀ threadId token, lockOf s.threads threadId = some (.busy, token) →
    ∃ tok, token = some tok ∧ Owned s threadId tok
  owned : ∀ threadId token, Owned s threadId token → token ∈ s.issued ∧
    (threadId ∈ s.deleted ∨ lockOf s.threads threadId = some (.busy, some token))
  apart : ∀ i j threadId threadId' token, s.held i = some (threadId, token) →
    s.held j = some (threadId', token) → i = j
  left : ∀ i threadId threadId' token, (threadId, token) ∈ s.left →
    s.held i ≠ some (threadId', token)

variable {s s' : Shared ι} {i j : ι}

omit [DecidableEq ι] in
theorem Accounted.same (h : Accounted s) (hlocks : lockOf s'.threads = lockOf s.threads)
    (hissued : ∀ t ∈ s.issued, t ∈ s'.issued) (hdeleted : s'.deleted = s.deleted)
    (hheld : s'.held = s.held) (hleft : s'.left = s.left) : Accounted s' := by
  have howned (threadId token : String) : Owned s' threadId token ↔ Owned s threadId token := by
    rw [Owned, Owned, hheld, hleft]
  constructor
  · intro threadId token hbusy
    rw [hlocks] at hbusy
    obtain ⟨tok, htok, hown⟩ := h.busy threadId token hbusy
    exact ⟨tok, htok, (howned threadId tok).mpr hown⟩
  · intro threadId token hown
    obtain ⟨hi, hl⟩ := h.owned threadId token ((howned threadId token).mp hown)
    rw [hlocks, hdeleted]
    exact ⟨hissued token hi, hl⟩
  · rw [hheld]
    exact h.apart
  · rw [hheld, hleft]
    exact h.left

omit [DecidableEq ι] in
theorem owned_held (h : s.held i = some (threadId, token)) : Owned s threadId token := .inl ⟨i, h⟩

theorem Accounted.acquire (h : Accounted s) (hnone : s.held i = none) (hnew : token ∉ s.issued)
    {existing locked : Thread} (hget : s.threads.get? threadId = some existing)
    (hidle : existing.status ≠ .busy) (hstatus : locked.status = .busy)
    (htoken : locked.lockToken = some token)
    (hthreads : s'.threads = s.threads.set threadId locked)
    (hissued : s'.issued = token :: s.issued)
    (hdeleted : s'.deleted = s.deleted)
    (hheld : s'.held = Function.update s.held i (some (threadId, token)))
    (hleft : s'.left = s.left) :
    Accounted s' := by
  have hkept (id tok : String) (hown : Owned s id tok) : Owned s' id tok := by
    rcases hown with ⟨j, hj⟩ | hl
    · refine .inl ⟨j, ?_⟩
      rw [hheld, Function.update_of_ne, hj]
      rintro rfl
      rw [hnone] at hj
      cases hj
    · exact .inr (hleft ▸ hl)
  have hsplit (id tok : String) (hown : Owned s' id tok) :
      Owned s id tok ∨ id = threadId ∧ tok = token := by
    rcases hown with ⟨j, hj⟩ | hl
    · rw [hheld, Function.update_apply] at hj
      split at hj
      · cases hj
        exact .inr ⟨rfl, rfl⟩
      · exact .inl (.inl ⟨j, hj⟩)
    · exact .inl (.inr (hleft ▸ hl))
  have hlock (id : String) : lockOf s'.threads id =
      if id = threadId then some (.busy, some token) else lockOf s.threads id := by
    rw [hthreads, lockOf_set, hstatus, htoken]
  have hfree : lockOf s.threads threadId = some (existing.status, existing.lockToken) := by
    rw [lockOf, hget]
    rfl
  have hheldOf (k : ι) (id tok : String) (hk : s'.held k = some (id, tok)) :
      k = i ∧ tok = token ∨ k ≠ i ∧ s.held k = some (id, tok) := by
    rw [hheld, Function.update_apply] at hk
    split at hk
    · next heq =>
      cases hk
      exact .inl ⟨heq, rfl⟩
    · next hne => exact .inr ⟨hne, hk⟩
  have hold (id tok : String) (hown : Owned s id tok) : tok ≠ token := by
    rintro rfl
    exact hnew (h.owned id tok hown).1
  constructor
  · intro id tok hbusy
    rw [hlock] at hbusy
    split at hbusy
    · next heq =>
      cases hbusy
      refine ⟨token, rfl, .inl ⟨i, ?_⟩⟩
      rw [hheld, Function.update_self, heq]
    · obtain ⟨tok', htok', hown⟩ := h.busy id tok hbusy
      exact ⟨tok', htok', hkept id tok' hown⟩
  · intro id tok hown
    rw [hissued, hdeleted, hlock]
    rcases hsplit id tok hown with hown | ⟨rfl, rfl⟩
    · obtain ⟨hi, hl⟩ := h.owned id tok hown
      refine ⟨List.mem_cons_of_mem _ hi, hl.imp_right fun hl => ?_⟩
      rw [if_neg]
      · exact hl
      · rintro rfl
        rw [hfree, Option.some_inj, Prod.mk.injEq] at hl
        exact hidle hl.1
    · exact ⟨List.mem_cons_self, .inr (if_pos rfl)⟩
  · intro k k' id id' tok hk hk'
    rcases hheldOf k id tok hk with ⟨rfl, rfl⟩ | ⟨hne, hk⟩
    · rcases hheldOf k' id' tok hk' with ⟨rfl, -⟩ | ⟨hne', hk'⟩
      · rfl
      · exact absurd rfl (hold id' tok (owned_held hk'))
    · rcases hheldOf k' id' tok hk' with ⟨rfl, rfl⟩ | ⟨hne', hk'⟩
      · exact absurd rfl (hold id tok (owned_held hk))
      · exact h.apart k k' id id' tok hk hk'
  · intro k id id' tok hl hk
    rw [hleft] at hl
    rcases hheldOf k id' tok hk with ⟨rfl, rfl⟩ | ⟨hne, hk⟩
    · exact hold id tok (.inr hl) rfl
    · exact h.left k id id' tok hl hk

theorem Accounted.release (h : Accounted s) (status : ThreadStatus)
    (hheldBy : s.held i = some (threadId, token)) (hissued : ∀ t ∈ s.issued, t ∈ s'.issued)
    (hdeleted : s'.deleted = s.deleted) (hheld : s'.held = Function.update s.held i none)
    (hleft : s'.left = if status = .busy then (threadId, token) :: s.left else s.left)
    (hthreads : (s'.threads = s.threads ∧
        (status = .busy ∨ ∀ st, lockOf s.threads threadId ≠ some (st, some token))) ∨
      status ≠ .busy ∧ ∃ updated, updated.status = status ∧ updated.lockToken = none ∧
        s'.threads = s.threads.set threadId updated) : Accounted s' := by
  have hheldOf (k : ι) (id tok : String) (hk : s'.held k = some (id, tok)) :
      k ≠ i ∧ s.held k = some (id, tok) := by
    rw [hheld, Function.update_apply] at hk
    split at hk
    · cases hk
    · next hne => exact ⟨hne, hk⟩
  have hleftOf (id tok : String) (hl : (id, tok) ∈ s'.left) :
      (id, tok) ∈ s.left ∨ status = .busy ∧ id = threadId ∧ tok = token := by
    rw [hleft] at hl
    split at hl
    · next hbusy =>
      rcases List.mem_cons.mp hl with heq | hl
      · cases heq
        exact .inr ⟨hbusy, rfl, rfl⟩
      · exact .inl hl
    · exact .inl hl
  have hsub (id tok : String) (hl : (id, tok) ∈ s.left) : (id, tok) ∈ s'.left := by
    rw [hleft]
    split
    · exact List.mem_cons_of_mem _ hl
    · exact hl
  have hmine := owned_held hheldBy
  have hkept (id tok : String) (hown : Owned s id tok) (hne : tok ≠ token) : Owned s' id tok := by
    rcases hown with ⟨k, hk⟩ | hl
    · refine .inl ⟨k, ?_⟩
      rw [hheld, Function.update_of_ne, hk]
      rintro rfl
      rw [hheldBy] at hk
      cases hk
      exact hne rfl
    · exact .inr (hsub id tok hl)
  -- another lock is not the one given back
  have hother (id tok : String) (hown : Owned s' id tok) :
      Owned s id tok ∧ (tok = token → status = .busy) := by
    rcases hown with ⟨k, hk⟩ | hl
    · obtain ⟨hne, hk⟩ := hheldOf k id tok hk
      refine ⟨owned_held hk, ?_⟩
      rintro rfl
      exact absurd (h.apart k i id threadId tok hk hheldBy) hne
    · rcases hleftOf id tok hl with hl | ⟨hbusy, rfl, rfl⟩
      · refine ⟨.inr hl, ?_⟩
        rintro rfl
        exact absurd hheldBy (h.left i id threadId tok hl)
      · exact ⟨hmine, fun _ => hbusy⟩
  have hmineId (id : String) (hown : Owned s id token) : id = threadId := by
    rcases hown with ⟨k, hk⟩ | hl
    · cases h.apart k i id threadId token hk hheldBy
      rw [hheldBy] at hk
      cases hk
      rfl
    · exact absurd hheldBy (h.left i id threadId token hl)
  constructor
  · intro id tok hbusy
    have hbefore : lockOf s.threads id = some (.busy, tok) := by
      rcases hthreads with ⟨hsame, -⟩ | ⟨hstatus, updated, hupdated, hnone, hset⟩
      · rwa [hsame] at hbusy
      · rw [hset, lockOf_set, hupdated] at hbusy
        split at hbusy
        · rw [Option.some_inj, Prod.mk.injEq] at hbusy
          exact absurd hbusy.1 hstatus
        · exact hbusy
    obtain ⟨tok, rfl, hown⟩ := h.busy id tok hbefore
    refine ⟨tok, rfl, ?_⟩
    by_cases hsame : tok = token
    · subst hsame
      cases hmineId id hown
      have hback : status = .busy := by
        rcases hthreads with ⟨-, hback | hlost⟩ | ⟨hstatus, updated, hupdated, -, hset⟩
        · exact hback
        · exact absurd hbefore (hlost .busy)
        · rw [hset, lockOf_set, if_pos rfl, hupdated, Option.some_inj, Prod.mk.injEq] at hbusy
          exact hbusy.1
      refine .inr ?_
      rw [hleft, if_pos hback]
      exact List.mem_cons_self
    · exact hkept id tok hown hsame
  · intro id tok hown
    obtain ⟨hbefore, hmineOnly⟩ := hother id tok hown
    obtain ⟨hi, hl⟩ := h.owned id tok hbefore
    refine ⟨hissued tok hi, ?_⟩
    rw [hdeleted]
    rcases hthreads with ⟨hsame, -⟩ | ⟨hstatus, updated, -, -, hset⟩
    · rw [hsame]
      exact hl
    · by_cases hid : id = threadId
      · subst hid
        rcases (h.owned id token hmine).2 with hgone | hlock
        · exact .inl hgone
        · refine hl.imp_right fun hl => ?_
          rw [hlock, Option.some_inj, Prod.mk.injEq, Option.some_inj] at hl
          exact absurd (hmineOnly hl.2.symm) hstatus
      · rw [hset, lockOf_set, if_neg hid]
        exact hl
  · intro k k' id id' tok hk hk'
    exact h.apart k k' id id' tok (hheldOf k id tok hk).2 (hheldOf k' id' tok hk').2
  · intro k id id' tok hl hk
    obtain ⟨hne, hk⟩ := hheldOf k id' tok hk
    rcases hleftOf id tok hl with hl | ⟨-, rfl, rfl⟩
    · exact h.left k id id' tok hl hk
    · exact hne (h.apart k i id' id tok hk hheldBy)

omit [DecidableEq ι] in
theorem Accounted.create (h : Accounted s) {thread : Thread}
    (hnone : s.threads.get? threadId = none) (hidle : thread.status = .idle) :
    Accounted { s with threads := s.threads.set threadId thread } := by
  have hlock (id : String) : lockOf (s.threads.set threadId thread) id =
      if id = threadId then some (.idle, thread.lockToken) else lockOf s.threads id := by
    rw [lockOf_set, hidle]
  have hfree : lockOf s.threads threadId = none := by
    rw [lockOf, hnone]
    rfl
  constructor
  · intro id tok hbusy
    change lockOf (s.threads.set threadId thread) id = _ at hbusy
    rw [hlock] at hbusy
    split at hbusy
    · cases hbusy
    · exact h.busy id tok hbusy
  · intro id tok hown
    obtain ⟨hi, hl⟩ := h.owned id tok hown
    refine ⟨hi, hl.imp_right fun hl => ?_⟩
    change lockOf (s.threads.set threadId thread) id = _
    rw [hlock, if_neg]
    · exact hl
    · rintro rfl
      rw [hfree] at hl
      cases hl
  · exact h.apart
  · exact h.left

theorem lockOf_delete (threads : Threads) (threadId id : String) :
    lockOf (InMemoryThreadStore.delete threads threadId).2 id =
      if id = threadId then none else lockOf threads id := by
  rw [InMemoryThreadStore.delete]
  cases hget : threads.get? threadId with
  | none =>
    dsimp only
    split
    · next heq => rw [heq, lockOf, hget]; rfl
    · rfl
  | some existing =>
    dsimp only
    rw [lockOf, Dict.get?_erase]
    split <;> rfl

omit [DecidableEq ι] in
theorem Accounted.delete (h : Accounted s) (threadId : String) : Accounted { s with
    threads := (InMemoryThreadStore.delete s.threads threadId).2
    deleted := threadId :: s.deleted } := by
  constructor
  · intro id tok hbusy
    change lockOf (InMemoryThreadStore.delete s.threads threadId).2 id = _ at hbusy
    rw [lockOf_delete] at hbusy
    split at hbusy
    · cases hbusy
    · exact h.busy id tok hbusy
  · intro id tok hown
    obtain ⟨hi, hl⟩ := h.owned id tok hown
    refine ⟨hi, ?_⟩
    change id ∈ threadId :: s.deleted ∨
      lockOf (InMemoryThreadStore.delete s.threads threadId).2 id = _
    rw [lockOf_delete]
    split
    · next heq => exact .inl (heq ▸ List.mem_cons_self)
    · exact hl.imp_left (List.mem_cons_of_mem _)
  · exact h.apart
  · exact h.left

def RunsGraph : Routes.Op → Prop
  | .api .invoke => True
  | .api .stream => True
  | .updateState .. => True
  | _ => False

/-- A client takes a lock when it answers for none, gives back the one it answers for, and to `busy`
only in a state update that has read the thread busy; it runs a graph under the lock of its
thread. -/
structure Guarantee (i : ι) (call : Call) (o : Routes.Op) (s : Shared ι) : Prop where
  acquire : ∀ threadId assistantId, o = .api (.tryAcquireRunLock threadId assistantId) →
    s.held i = none
  release : ∀ threadId status values ownerToken,
    o = .api (.releaseRunLock threadId status values ownerToken) →
    s.held i = some (threadId, ownerToken) ∧
      (status = .busy → call.Updates ∧ ∃ thread, s.read i = some thread ∧ thread.status = .busy)
  graph : RunsGraph o → ∃ threadId token, call.threadId = some threadId ∧
    s.held i = some (threadId, token)

def Rely (i : ι) (s s' : Shared ι) : Prop := s'.held i = s.held i ∧ s'.read i = s.read i

theorem holding_refused {held : ι → Option (String × String)} {assistantId : String}
    {answer : Except Exn (Option Thread)} (h : ∀ locked, answer ≠ .ok (some locked)) :
    holding i token held (.tryAcquireRunLock threadId assistantId) answer = held := by
  cases answer with
  | error exc => rfl
  | ok locked =>
    cases locked with
    | none => rfl
    | some locked => exact absurd rfl (h locked)

theorem accounted_step {call : Call} {o : Routes.Op} {answer : o.Ans}
    (hstep : (routes i).step o s answer s') (hg : Guarantee i call o s) (h : Accounted s) :
    Accounted s' := by
  cases o with
  | updateState =>
    cases hstep
    exact h
  | create metadata =>
    obtain ⟨id, now, -, rfl⟩ := hstep
    rw [InMemoryThreadStore.create]
    cases hget : s.threads.get? id with
    | none => exact h.create hget rfl
    | some existing => exact h
  | delete threadId =>
    obtain ⟨-, rfl⟩ := hstep
    exact h.delete threadId
  | api o =>
    rcases hstep with ⟨now, token, other, hnew, -, rfl, rfl⟩ | ⟨-, rfl⟩
    case inr => exact h
    have hissued : ∀ t ∈ s.issued, t ∈ token :: s.issued := fun t ht => List.mem_cons_of_mem _ ht
    cases o with
    | tryAcquireRunLock threadId assistantId =>
      have hcases := refusesOrTakes_tryAcquireRunLock s.threads threadId (some assistantId) now
        token
      change Accounted (s.after i token (.tryAcquireRunLock threadId assistantId)
        (InMemoryThreadStore.tryAcquireRunLock s.threads threadId (some assistantId) now token).1
        (InMemoryThreadStore.tryAcquireRunLock s.threads threadId (some assistantId) now token).2)
      generalize InMemoryThreadStore.tryAcquireRunLock s.threads threadId (some assistantId) now
        token = outcome at hcases
      rcases hcases with ⟨hrefused, hsame⟩ | ⟨existing, locked, hget, hidle, hstatus, htoken, rfl⟩
      · exact h.same (congrArg lockOf hsame) hissued rfl (holding_refused hrefused) rfl
      · exact h.acquire (hg.acquire threadId assistantId rfl) hnew hget hidle hstatus htoken rfl rfl
          rfl rfl rfl
    | releaseRunLock threadId status values ownerToken =>
      obtain ⟨hheld, -⟩ := hg.release threadId status values ownerToken rfl
      refine h.release status hheld hissued rfl rfl ?_ ?_
      · cases status <;> rfl
      · exact releaseRunLock_cases values ownerToken
    | updateMetadata threadId metadata =>
      exact h.same (lockOf_update _) hissued rfl rfl rfl
    | renewRunLock threadId ownerToken =>
      exact h.same (lockOf_renewRunLock _) hissued rfl rfl rfl
    | _ => exact h.same rfl hissued rfl rfl rfl

theorem rely_step {o : Routes.Op} {answer : o.Ans} (hne : i ≠ j)
    (hstep : (routes j).step o s answer s') : Rely i s s' := by
  cases o with
  | updateState =>
    cases hstep
    exact ⟨rfl, rfl⟩
  | create metadata =>
    obtain ⟨id, now, -, rfl⟩ := hstep
    exact ⟨rfl, rfl⟩
  | delete threadId =>
    obtain ⟨-, rfl⟩ := hstep
    exact ⟨rfl, rfl⟩
  | api o =>
    rcases hstep with ⟨now, token, other, -, -, -, rfl⟩ | ⟨-, rfl⟩
    case inr => exact ⟨rfl, rfl⟩
    refine ⟨?_, noted_ne hne⟩
    cases o with
    | tryAcquireRunLock threadId assistantId =>
      cases answer with
      | error exc => rfl
      | ok locked =>
        cases locked with
        | none => rfl
        | some locked => exact Function.update_of_ne hne _ _
    | releaseRunLock threadId status values ownerToken => exact Function.update_of_ne hne _ _
    | _ => rfl

end LangGraphFunctions.Platform.RunLocks

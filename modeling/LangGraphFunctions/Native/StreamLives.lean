import LangGraphFunctions.Native.TrueStream

/-! The life of a true stream: its lock, its graph and its observer. -/

namespace LangGraphFunctions.Native.TrueStream

open Lib Platform

variable {α β : Type} {graphName runId : String} {maxEvents : Nat} {guarded : Bool}
  {held : Option (String × String)}

inductive LifeMark
  | acquired (token : String)
  | started
  | preparing
  | asked
  | working
  | closed
  | released (token : String)
  | settled (error : Option Raised)
  | done
  | rejected
  deriving DecidableEq

def lifeMark : (o : Op) × o.Ans → List LifeMark
  | ⟨.acquire .., .ok (some token)⟩ => [.acquired token]
  | ⟨.acquire .., _⟩ => []
  | ⟨.release _ _ token, _⟩ => [.released token]
  | ⟨.aclose, _⟩ => [.closed]
  | ⟨.frame .done, _⟩ => [.done]
  | ⟨.rejected _, _⟩ => [.rejected]
  | ⟨.started, _⟩ => [.started]
  | ⟨.guardRunConfig .., _⟩ => [.preparing]
  | ⟨.respond, _⟩ => [.preparing]
  | ⟨.next, _⟩ => [.asked]
  | ⟨.completed, _⟩ => [.settled none]
  | ⟨.failed error, _⟩ => [.settled (some error)]
  | _ => [.working]

abbrev Lives (p : Stream α) (S : Except Raised α → List LifeMark → Prop) : Prop :=
  Prog.Writes (I := interface) (fun _ _ => True) lifeMark p S

variable {M : LifeMark → Prop}

abbrev LeavesOnly (M : LifeMark → Prop) (p : Stream α) : Prop := Lives p fun _ u => ∀ m ∈ u, M m

def Working (m : LifeMark) : Prop := m = .asked ∨ m = .working

abbrev Works (p : Stream α) : Prop := LeavesOnly Working p

theorem works_ret (a : α) : LeavesOnly M (Prog.ret a : Stream α) := List.forall_mem_nil _

theorem works_bind {p : Stream α} {f : α → Stream β} (hp : LeavesOnly M p)
    (hf : ∀ a, LeavesOnly M (f a)) : LeavesOnly M (p >>= f) := by
  apply Prog.writes_bind hp
  · intro a u hu
    apply (hf a).mono
    intro r v hv
    exact List.forall_mem_append.mpr ⟨hu, hv⟩
  · exact fun e u hu => hu

theorem works_perform {o : Op} {m : LifeMark} (h : ∀ a, lifeMark ⟨o, a⟩ = [m]) (hm : M m) :
    LeavesOnly M (perform o) := by
  intro a _
  change ∀ m ∈ lifeMark ⟨o, a⟩ ++ [], M m
  rw [h a]
  exact List.forall_mem_singleton.mpr hm

theorem works_ofExcept (r : Except Raised α) : LeavesOnly M (Prog.ofExcept r : Stream α) :=
  Prog.writes_ofExcept (List.forall_mem_nil _)

theorem works_next : Works next :=
  works_bind (works_perform (fun _ => rfl) (.inl rfl)) works_ofExcept

theorem works_encode (event : Json.Value) : Works (encode event) :=
  works_bind (works_perform (fun _ => rfl) (.inr rfl)) works_ofExcept

theorem works_send {frame : SseFrame} (h : frame ≠ .done) : Works (send frame) := by
  refine works_bind (works_perform (fun a => ?_) (.inr rfl)) works_ofExcept
  cases frame with
  | done => exact absurd rfl h
  | _ => rfl

theorem works_checkOwnershipGuard : Works (checkOwnershipGuard guarded) := by
  cases guarded with
  | false => exact works_ret ()
  | true => exact works_bind (works_perform (fun _ => rfl) (.inr rfl)) works_ofExcept

theorem works_streamEvents (remaining : Nat) :
    Works (streamEvents runId maxEvents guarded remaining) := by
  induction remaining with
  | zero =>
    refine works_bind works_next fun event => ?_
    cases event with
    | none => exact works_bind works_checkOwnershipGuard fun _ => works_ret _
    | some event => exact works_bind (works_send (by simp)) fun _ => works_ret _
  | succ remaining ih =>
    refine works_bind works_next fun event => ?_
    cases event with
    | none => exact works_bind works_checkOwnershipGuard fun _ => works_ret _
    | some event =>
      exact works_bind (works_encode event) fun _ => works_bind (works_send (by simp)) fun _ => ih

theorem lives_bind {p : Stream α} {f : α → Stream β} {S : Except Raised α → List LifeMark → Prop}
    {S' : Except Raised β → List LifeMark → Prop} (hp : Lives p S)
    (hok : ∀ a u, S (.ok a) u → Lives (f a) fun r v => S' r (u ++ v))
    (herror : ∀ e u, S (.error e) u → S' (.error e) u) : Lives (p >>= f) S' :=
  Prog.writes_bind hp hok herror

theorem lives_attempt {p : Stream α} (hp : LeavesOnly M p) :
    Lives p.attempt fun r u => (∀ m ∈ u, M m) ∧ ∃ outcome, r = .ok outcome :=
  Prog.writes_attempt hp fun r _ hu => ⟨hu, r, rfl⟩

theorem lives_tryEvents : Lives (tryEvents runId maxEvents guarded) fun r u =>
    (∀ m ∈ u, Working m) ∧ ∃ outcome, r = .ok outcome := by
  have hwork : Works (primedEvents runId maxEvents guarded) :=
    works_bind (works_send (by simp)) fun _ => works_streamEvents maxEvents
  refine lives_bind (lives_attempt hwork) (fun outcome u hu => ?_) fun e u hu => ?_
  · have hend {r : Except Raised (Option Raised × Option Raised)} (h : ∃ outcome, r = .ok outcome) :
        (∀ m ∈ u ++ [], Working m) ∧ ∃ outcome, r = .ok outcome :=
      ⟨List.forall_mem_append.mpr ⟨hu.1, List.forall_mem_nil _⟩, h⟩
    cases outcome with
    | ok streamError => exact hend ⟨_, rfl⟩
    | error exc =>
      dsimp only
      split
      · refine lives_bind (lives_attempt (works_send (by simp)))
          (fun answer v hv => ?_) fun e v hv => ?_
        · have hboth := List.forall_mem_append.mpr
            ⟨hu.1, List.forall_mem_append.mpr ⟨hv.1, List.forall_mem_nil _⟩⟩
          cases answer <;> exact ⟨hboth, _, rfl⟩
        · obtain ⟨-, answer, hr⟩ := hv
          cases hr
      · exact hend ⟨_, rfl⟩
  · obtain ⟨-, outcome, hr⟩ := hu
    cases hr

theorem lives_closeEvents (primary : Option Raised) : Lives (closeEvents primary) fun r u =>
    u = [.closed] ∧ ∃ cleanup, r = .ok cleanup := fun _ _ => ⟨rfl, _, rfl⟩

def releases (held : Option (String × String)) : List LifeMark :=
  (held.map fun lock => LifeMark.released lock.2).toList

theorem lives_releaseLock (primary : Option Raised) (cleanup : Cleanup) :
    Lives (releaseLock graphName primary cleanup held) fun r u =>
      u = releases held ∧ ∃ cleanup', r = .ok cleanup' := by
  cases held with
  | none => exact ⟨rfl, _, rfl⟩
  | some lock => exact fun _ _ => ⟨rfl, _, rfl⟩

theorem lives_observeEnd (error : Option Raised) : Lives (observeEnd error) fun r u =>
    u = [.settled error] ∧ r = .ok () := by
  cases error <;> exact fun _ _ => ⟨rfl, rfl⟩

def Handed (held : Option (String × String)) (r : Except Raised Unit) (u : List LifeMark) : Prop :=
  ∃ work error ending, u = work ++ .closed :: releases held ++ .settled error :: ending ∧
    (∀ m ∈ work, Working m) ∧ (ending = [.done] ∨ ending = [] ∧ ∃ exc, r = .error exc)

theorem lives_sseEventStream :
    Lives (sseEventStream graphName runId maxEvents guarded held) (Handed held) := by
  refine lives_bind lives_tryEvents (fun outcome work hwork => ?_) fun e u hu => ?_
  · obtain ⟨primary, pending⟩ := outcome
    refine lives_bind (lives_closeEvents primary) (fun cleanup u hclosed => ?_) fun e u hu => ?_
    · obtain ⟨rfl, -⟩ := hclosed
      refine lives_bind (lives_releaseLock primary cleanup) (fun cleanup u hreleased => ?_)
        fun e u hu => ?_
      · obtain ⟨rfl, -⟩ := hreleased
        refine lives_bind (lives_observeEnd (primary <|> cleanup.streamError))
          (fun _ u hsettled => ?_) fun e u hu => ?_
        · obtain ⟨rfl, -⟩ := hsettled
          cases hraised : cleanup.raised <|> pending with
          | some exc =>
            refine ⟨work, primary <|> cleanup.streamError, [], ?_, hwork.1, .inr ⟨rfl, exc, rfl⟩⟩
            simp
          | none =>
            intro answer _
            have hdone (r : Except Raised Unit) : Handed held r
                (work ++ ([.closed] ++ (releases held ++
                  ([.settled (primary <|> cleanup.streamError)] ++ [.done])))) :=
              ⟨work, primary <|> cleanup.streamError, [.done], by simp, hwork.1, .inl rfl⟩
            cases answer with
            | ok _ => exact hdone (.ok ())
            | error exc => exact hdone (.error exc)
        · obtain ⟨-, hr⟩ := hu
          cases hr
      · obtain ⟨-, cleanup', hr⟩ := hu
        cases hr
    · obtain ⟨-, cleanup', hr⟩ := hu
      cases hr
  · obtain ⟨-, a, hr⟩ := hu
    cases hr

def Served (held : Option (String × String)) (r : Except Raised Unit) (u : List LifeMark) : Prop :=
  ∃ preparation, (∀ m ∈ preparation, m = .preparing) ∧
    ((∃ v, u = .started :: preparation ++ v ∧ Handed held r v) ∨
      ∃ exc, u = .started :: preparation ++ releases held ++ [.settled (some exc)] ∧ r = .error exc)

theorem lives_abandon (exc : Raised) : Lives (abandon graphName held exc) fun r u =>
    u = releases held ++ [.settled (some exc)] ∧ r = .error exc := by
  cases held with
  | none => exact fun _ _ => ⟨rfl, rfl⟩
  | some lock => exact fun _ _ _ _ => ⟨rfl, rfl⟩

theorem lives_streamLocked :
    Lives (streamLocked graphName runId maxEvents held) (Served held) := by
  have hprepare : LeavesOnly (· = .preparing) (prepareStream graphName held) :=
    works_bind (works_bind (works_perform (fun _ => rfl) rfl) works_ofExcept) fun guarded =>
      works_bind (works_bind (works_perform (fun _ => rfl) rfl) works_ofExcept) fun _ =>
        works_ret guarded
  have hstarted : Lives (perform .started) fun r u => u = [.started] ∧ r = .ok () :=
    fun _ _ => ⟨rfl, rfl⟩
  refine lives_bind hstarted (fun _ u hu => ?_) fun e u hu => by cases hu.2
  obtain ⟨rfl, -⟩ := hu
  refine lives_bind (lives_attempt hprepare) (fun outcome preparation hmarks => ?_) fun e u hu => ?_
  · cases outcome with
    | error exc =>
      apply (lives_abandon exc).mono
      rintro r u ⟨rfl, rfl⟩
      exact ⟨preparation, hmarks.1, .inr ⟨exc, by simp, rfl⟩⟩
    | ok guarded =>
      apply lives_sseEventStream.mono
      exact fun r u hu => ⟨preparation, hmarks.1, .inl ⟨u, by simp, hu⟩⟩
  · obtain ⟨-, outcome, hr⟩ := hu
    cases hr

/-- A response, from the request for the lock to its last frame. -/
inductive Settled (lockThreadId : Option String) (r : Except Raised Unit) : List LifeMark → Prop
  | unlocked : lockThreadId.isSome → (∃ exc, r = .error exc) → Settled lockThreadId r []
  | rejected : lockThreadId.isSome → r = .ok () → Settled lockThreadId r [.rejected]
  | open : lockThreadId = none → Served none r u → Settled lockThreadId r u
  | locked (threadId token : String) : lockThreadId = some threadId →
      Served (some (threadId, token)) r u → Settled lockThreadId r (.acquired token :: u)

/-- However the graph, the consumer and the lock behave, wherever the consumer leaves or the task is
cancelled: once the stream is handed over the graph is closed, after the last event was asked for;
a lock that was acquired is given back once, under its token, after that; and the observer is told
the end of a started run once, after all this. -/
theorem stream_settles {lockThreadId : Option String} {w : Transcript interface}
    {r : Except Raised Unit}
    (h : (streamResponse graphName runId maxEvents lockThreadId).Plays (fun _ _ => True) w
      (.ofExcept r)) : Settled lockThreadId r (w.flatMap lifeMark) := by
  refine h.writes ?_
  cases lockThreadId with
  | none => exact lives_streamLocked.mono fun r u hu => .open rfl hu
  | some threadId =>
    intro answer _
    cases answer with
    | error exc => exact .unlocked rfl ⟨exc, rfl⟩
    | ok token =>
      cases token with
      | none => exact fun _ _ => .rejected rfl rfl
      | some token => exact lives_streamLocked.mono fun r u hu => .locked threadId token rfl hu

def endless : (o : Op) → Option o.Ans
  | .acquire .. => some (.ok (some "k"))
  | .release .. => some (.ok ())
  | .guardRunConfig .. => some (.ok true)
  | .respond => some (.ok ())
  | .next => some (.ok (some (.dict [])))
  | .encode _ => some (.ok "\x7b\x7d")
  | .check => some (.ok ())
  | .frame _ => some (.ok ())
  | .aclose => some (.ok ())
  | .rejected _ => some ()
  | .started => some ()
  | .completed => some ()
  | .failed _ => some ()

theorem plays_endless {p : Stream α} {w : Transcript interface} {r : Except Raised α}
    (h : p.answered endless = some (w, r)) : p.Plays (fun _ _ => True) w (.ofExcept r) :=
  Prog.plays_answered (fun _ _ _ => trivial) h

theorem stream_settles_endless : Settled (some "t") (.ok ())
    [.acquired "k", .started, .preparing, .preparing, .working, .asked, .working, .working, .asked,
      .working, .closed, .released "k",
      .settled (some (.exception (.runtimeError (overflow 1)))), .done] := by
  have hplays : ∃ w : Transcript interface,
      (streamResponse "g" "r" 1 (some "t")).Plays (fun _ _ => True) w (.ofExcept (.ok ())) ∧
      w.flatMap lifeMark = [.acquired "k", .started, .preparing, .preparing, .working, .asked,
        .working, .working, .asked, .working, .closed, .released "k",
        .settled (some (.exception (.runtimeError (overflow 1)))), .done] :=
    ⟨_, plays_endless rfl, rfl⟩
  obtain ⟨w, hw, hmarks⟩ := hplays
  rw [← hmarks]
  exact stream_settles hw

end LangGraphFunctions.Native.TrueStream

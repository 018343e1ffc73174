import LangGraphFunctions.Lib.Exec
import Mathlib.Data.List.Forall2
import Mathlib.Logic.Relation

/-! One task of an event loop that hands jobs to worker threads and waits for them, while others
cancel it any number of times. -/

namespace LangGraphFunctions.Lib

inductive Raised (ε : Type)
  | exception (e : ε)
  | cancelled
  | generatorExit
  | base (message : String)

def Raised.isException {ε : Type} : Raised ε → Bool
  | .exception _ => true
  | _ => false

namespace Tasks

variable {ε : Type}

structure Jobs (ε : Type) where
  Job : Type
  Ans : Job → Type
  Outcome : (j : Job) → Except ε (Ans j) → Prop

inductive Phase (ε α : Type)
  | queued
  | running
  | finished (r : Except ε α)
  | done (r : Except ε α)

structure Task (J : Jobs ε) where
  job : J.Job
  phase : Phase ε (J.Ans job)

/-- The loop as the current task sees it: the cancellations asked for, whether one waits to be
raised, the worker tasks ever made, and where cancellations were raised, the last first. -/
structure Loop (J : Jobs ε) where
  cancelling : Nat
  pending : Bool
  tasks : List (Task J)
  raisedAt : List (Option J.Job)

variable {J : Jobs ε}

def Task.IsDone (x : Task J) : Prop := ∃ r, x.phase = .done r

inductive ThreadMove : Loop J → Loop J → Prop
  | start {s : Loop J} {i : Nat} {j : J.Job} : s.tasks[i]? = some ⟨j, .queued⟩ →
      ThreadMove s { s with tasks := s.tasks.set i ⟨j, .running⟩ }
  | finish {s : Loop J} {i : Nat} {j : J.Job} {r : Except ε (J.Ans j)} :
      s.tasks[i]? = some ⟨j, .running⟩ → J.Outcome j r →
      ThreadMove s { s with tasks := s.tasks.set i ⟨j, .finished r⟩ }

inductive Move : Loop J → Loop J → Prop
  | thread {s s' : Loop J} : ThreadMove s s' → Move s s'
  | notify {s : Loop J} {i : Nat} {j : J.Job} {r : Except ε (J.Ans j)} :
      s.tasks[i]? = some ⟨j, .finished r⟩ →
      Move s { s with tasks := s.tasks.set i ⟨j, .done r⟩ }
  | cancel {s : Loop J} : Move s { s with cancelling := s.cancelling + 1, pending := true }

abbrev Threads : Loop J → Loop J → Prop := Relation.ReflTransGen ThreadMove
abbrev Suspended : Loop J → Loop J → Prop := Relation.ReflTransGen Move

def Loop.deliver (s : Loop J) (at? : Option J.Job) : Loop J :=
  { s with pending := false, raisedAt := at? :: s.raisedAt }

def outcome {α : Type} : Except ε α → Except (Raised ε) α
  | .ok a => .ok a
  | .error e => .error (.exception e)

/-- A wait for the task `i` ends with a cancellation, if one was asked for, else with the result. -/
inductive Resumes (j : J.Job) (i : Nat) : Loop J → Except (Raised ε) (J.Ans j) → Loop J → Prop
  | cancelled {s s' : Loop J} : Suspended s s' → s'.pending = true →
      Resumes j i s (.error .cancelled) (s'.deliver (some j))
  | result {s s' : Loop J} {r : Except ε (J.Ans j)} : Suspended s s' → s'.pending = false →
      s'.tasks[i]? = some ⟨j, .done r⟩ → Resumes j i s (outcome r) s'

inductive Pauses : Loop J → Except (Raised ε) Unit → Loop J → Prop
  | cancelled {s s' : Loop J} : Suspended s s' → s'.pending = true →
      Pauses s (.error .cancelled) (s'.deliver none)
  | result {s s' : Loop J} {r : Except ε Unit} : Suspended s s' → s'.pending = false →
      Pauses s (outcome r) s'

inductive Op (J : Jobs ε)
  | cancelling
  | spawn (j : J.Job)
  | done (i : Nat)
  | shield (j : J.Job) (i : Nat)
  | await (j : J.Job) (i : Nat)
  | pause
  | stuck

abbrev Op.Ans : Op J → Type
  | .cancelling => Nat
  | .spawn _ => Nat
  | .done _ => Bool
  | .shield j _ => Except (Raised ε) (J.Ans j)
  | .await j _ => Except (Raised ε) (J.Ans j)
  | .pause => Except (Raised ε) Unit
  | .stuck => Empty

abbrev interface (J : Jobs ε) : Interface := ⟨Op J, Op.Ans⟩

def step : (o : Op J) → Loop J → o.Ans → Loop J → Prop
  | .cancelling, s, a, s' => a = s.cancelling ∧ s' = s
  | .spawn j, s, a, s' => a = s.tasks.length ∧ s' = { s with tasks := s.tasks ++ [⟨j, .queued⟩] }
  | .done i, s, a, s' => (a = true ↔ ∃ x, s.tasks[i]? = some x ∧ x.IsDone) ∧ s' = s
  | .shield j i, s, a, s' => Resumes j i s a s'
  | .await j i, s, a, s' =>
    (∃ r, s.tasks[i]? = some ⟨j, .done r⟩ ∧ a = outcome r ∧ s' = s) ∨
      (¬∃ x, s.tasks[i]? = some x ∧ x.IsDone) ∧ Resumes j i s a s'
  | .pause, s, a, s' => Pauses s a s'
  | .stuck, _, _, _ => False

def service (J : Jobs ε) : Prog.Service (interface J) (Loop J) := ⟨step⟩

abbrev Coro (J : Jobs ε) := Prog (interface J) (Raised ε)

def perform (o : Op J) : Coro J o.Ans := Prog.perform (I := interface J) o

def Task.Sane (x : Task J) : Prop :=
  ∀ r, x.phase = .finished r ∨ x.phase = .done r → J.Outcome x.job r

inductive Task.Le : Task J → Task J → Prop
  | mk {j : J.Job} {p p' : Phase ε (J.Ans j)} : (∀ r, p = .done r → p' = .done r) →
      (Task.Sane ⟨j, p⟩ → Task.Sane ⟨j, p'⟩) → Task.Le ⟨j, p⟩ ⟨j, p'⟩

theorem Task.Le.refl (x : Task J) : x.Le x := ⟨fun _ h => h, fun h => h⟩

theorem Task.Le.trans {x y z : Task J} (h : x.Le y) (h' : y.Le z) : x.Le z := by
  cases h with
  | mk hdone hout =>
    cases h' with
    | mk hdone' hout' => exact ⟨fun r hr => hdone' r (hdone r hr), fun hp => hout' (hout hp)⟩

theorem Task.Le.eq_of_isDone {x y : Task J} (h : x.Le y) (hx : x.IsDone) : y = x := by
  cases h with
  | @mk j p p' hdone _ =>
    obtain ⟨r, hr⟩ := hx
    have hp : p = .done r := hr
    rw [hdone r hp, hp]

abbrev Later (s s' : Loop J) : Prop := List.Forall₂ Task.Le s.tasks s'.tasks

theorem later_set {s : Loop J} {i : Nat} {x y : Task J} (hx : s.tasks[i]? = some x) (h : x.Le y) :
    List.Forall₂ Task.Le s.tasks (s.tasks.set i y) := by
  generalize s.tasks = l at hx
  induction l generalizing i with
  | nil => exact .nil
  | cons z l ih =>
    cases i with
    | zero =>
      cases hx
      exact .cons h (List.forall₂_same.mpr fun _ _ => .refl _)
    | succ i => exact .cons (.refl z) (ih hx)

theorem ThreadMove.later {s s' : Loop J} (h : ThreadMove s s') : Later s s' := by
  cases h with
  | start hx => exact later_set hx ⟨fun _ h => (nomatch h), fun _ _ h => nomatch h⟩
  | finish hx hr =>
    refine later_set hx ⟨fun _ h => (nomatch h), fun _ r' h => ?_⟩
    obtain ⟨⟨⟩⟩ | h := h
    · exact hr
    · exact nomatch h

theorem Move.later {s s' : Loop J} (h : Move s s') : Later s s' := by
  cases h with
  | thread h => exact h.later
  | @notify i j r hx =>
    refine later_set hx ⟨fun _ h => (nomatch h), fun hp r' h => ?_⟩
    obtain h | ⟨⟨⟩⟩ := h
    · exact nomatch h
    · exact hp r (.inl rfl)
  | cancel => exact List.forall₂_same.mpr fun _ _ => .refl _

theorem later_trans {l l' l'' : List (Task J)} (h : List.Forall₂ Task.Le l l')
    (h' : List.Forall₂ Task.Le l' l'') : List.Forall₂ Task.Le l l'' := by
  induction h generalizing l'' with
  | nil => exact h'
  | cons hxy _ ih =>
    cases h' with
    | cons hyz h' => exact .cons (hxy.trans hyz) (ih h')

theorem Threads.later {s s' : Loop J} (h : Threads s s') : Later s s' := by
  induction h with
  | refl => exact List.forall₂_same.mpr fun _ _ => .refl _
  | tail _ h ih => exact later_trans ih h.later

theorem Suspended.later {s s' : Loop J} (h : Suspended s s') : Later s s' := by
  induction h with
  | refl => exact List.forall₂_same.mpr fun _ _ => .refl _
  | tail _ h ih => exact later_trans ih h.later

theorem ThreadMove.raisedAt {s s' : Loop J} (h : ThreadMove s s') : s'.raisedAt = s.raisedAt := by
  cases h <;> rfl

theorem Threads.raisedAt {s s' : Loop J} (h : Threads s s') : s'.raisedAt = s.raisedAt := by
  induction h with
  | refl => rfl
  | tail _ h ih => rw [h.raisedAt, ih]

theorem Suspended.raisedAt {s s' : Loop J} (h : Suspended s s') : s'.raisedAt = s.raisedAt := by
  induction h with
  | refl => rfl
  | tail _ h ih =>
    rw [← ih]
    cases h with
    | thread h => exact h.raisedAt
    | notify _ => rfl
    | cancel => rfl

structure Own (n : Nat) (L : List (Task J)) (s : Loop J) : Prop where
  le : n ≤ s.tasks.length
  tasks : s.tasks.drop n = L

def AllDone (L : List (Task J)) : Prop := ∀ x ∈ L, x.IsDone

variable {n m : Nat} {L : List (Task J)} {j : J.Job} {D : List (Option J.Job)} {s s' : Loop J}

theorem AllDone.append {L' : List (Task J)} (h : AllDone L) (h' : AllDone L') :
    AllDone (L ++ L') := fun x hx => (List.mem_append.mp hx).elim (h x) (h' x)

theorem allDone_singleton {r : Except ε (J.Ans j)} : AllDone [(⟨j, .done r⟩ : Task J)] := by
  intro x hx
  rw [List.mem_singleton.mp hx]
  exact ⟨r, rfl⟩

theorem forall₂_concat {α β : Type} {r : α → β → Prop} {l : List α} {x : α} {l' : List β}
    (h : List.Forall₂ r (l ++ [x]) l') :
    ∃ l'' y, l' = l'' ++ [y] ∧ List.Forall₂ r l l'' ∧ r x y := by
  induction l generalizing l' with
  | nil =>
    cases h with
    | cons hxy h =>
      cases h
      exact ⟨[], _, rfl, .nil, hxy⟩
  | cons z l ih =>
    cases h with
    | cons hz h =>
      obtain ⟨l'', y, rfl, hl, hxy⟩ := ih h
      exact ⟨_ :: l'', y, rfl, .cons hz hl, hxy⟩

theorem forall₂_le_eq {L L' : List (Task J)} (h : List.Forall₂ Task.Le L L') (hL : AllDone L) :
    L' = L := by
  induction h with
  | nil => rfl
  | cons hxy _ ih =>
    rw [hxy.eq_of_isDone (hL _ (List.mem_cons_self ..)),
      ih fun x hx => hL x (List.mem_cons_of_mem _ hx)]

theorem Own.later (h : Own n L s) (hL : AllDone L) (hle : Later s s') : Own n L s' where
  le := by rw [← hle.length_eq]; exact h.le
  tasks := by
    have hdrop := List.forall₂_drop n hle
    rw [h.tasks] at hdrop
    exact forall₂_le_eq hdrop hL

theorem Own.later_last {p : Phase ε (J.Ans j)} (h : Own n (L ++ [⟨j, p⟩]) s) (hL : AllDone L)
    (hle : Later s s') : ∃ p', Own n (L ++ [⟨j, p'⟩]) s' ∧ (∀ r, p = .done r → p' = .done r) ∧
      (Task.Sane ⟨j, p⟩ → Task.Sane ⟨j, p'⟩) := by
  have hdrop := List.forall₂_drop n hle
  rw [h.tasks] at hdrop
  obtain ⟨L', y, htasks, hrest, hlast⟩ := forall₂_concat hdrop
  rw [forall₂_le_eq hrest hL] at htasks
  cases hlast with
  | mk hdone hsane => exact ⟨_, ⟨by rw [← hle.length_eq]; exact h.le, htasks⟩, hdone, hsane⟩

theorem Own.getElem? {x : Task J} (h : Own n (L ++ [x]) s) : s.tasks[n + L.length]? = some x := by
  rw [← List.getElem?_drop, h.tasks, List.getElem?_append_right (Nat.le_refl _), Nat.sub_self]
  rfl

theorem Own.spawn (h : Own n L s) (j : J.Job) :
    Own n (L ++ [⟨j, .queued⟩]) { s with tasks := s.tasks ++ [⟨j, .queued⟩] } where
  le := Nat.le_trans h.le (by simp)
  tasks := by rw [List.drop_append_of_le_length h.le, h.tasks]

theorem Own.length (h : Own n L s) : s.tasks.length = n + L.length := by
  rw [← h.tasks, List.length_drop]
  have := h.le
  omega

section Worked

variable {i : Nat} {r : Except ε (J.Ans j)}

theorem suspended_queued (hx : s.tasks[i]? = some ⟨j, .queued⟩) (hr : J.Outcome j r) :
    Suspended s { s with tasks := s.tasks.set i ⟨j, .done r⟩ } := by
  obtain ⟨hi, -⟩ := List.getElem?_eq_some_iff.mp hx
  have hset : ∀ x : Task J, (s.tasks.set i x)[i]? = some x := fun x => List.getElem?_set_self hi
  have hstart := ThreadMove.start hx
  have hfinish := ThreadMove.finish (s := { s with tasks := s.tasks.set i ⟨j, .running⟩ })
    (hset _) hr
  have hnotify := Move.notify
    (s := { s with tasks := (s.tasks.set i ⟨j, .running⟩).set i ⟨j, .finished r⟩ })
    (by rw [List.set_set]; exact hset _)
  simp only [List.set_set] at hfinish hnotify
  exact ((Relation.ReflTransGen.single (.thread hstart)).tail (.thread hfinish)).tail hnotify

theorem step_shield_queued (hx : s.tasks[i]? = some ⟨j, .queued⟩) (hr : J.Outcome j r)
    (hpending : s.pending = false) :
    (service J).step (.shield j i) s (outcome r)
      { s with tasks := s.tasks.set i ⟨j, .done r⟩ } :=
  .result (suspended_queued hx hr) hpending
    (List.getElem?_set_self (List.getElem?_eq_some_iff.mp hx).choose)

theorem step_done_queued (hx : s.tasks[i]? = some ⟨j, .queued⟩) :
    (service J).step (.done i) s false s := by
  refine ⟨⟨fun h => (nomatch h), ?_⟩, rfl⟩
  rintro ⟨x, hx', r, hr⟩
  cases hx.symm.trans hx'
  exact nomatch hr

theorem step_done (hx : s.tasks[i]? = some ⟨j, .done r⟩) : (service J).step (.done i) s true s :=
  ⟨⟨fun _ => ⟨_, hx, r, rfl⟩, fun _ => rfl⟩, rfl⟩

theorem step_await (hx : s.tasks[i]? = some ⟨j, .done r⟩) :
    (service J).step (.await j i) s (outcome r) s :=
  .inl ⟨r, hx, rfl, rfl⟩

end Worked

/-- `while not task.done(): await shield(task)`, with the cancellation seen so far; an exception of
the task ends the loop or goes through. -/
def untilDone (breaks : Bool) (j : J.Job) (i : Nat) : Nat → Bool → Coro J Bool
  | 0, _ => do
    let never ← perform .stuck
    nomatch never
  | fuel + 1, cancelled => do
    if ← perform (.done i) then return cancelled
    match ← perform (.shield j i) with
    | .ok _ => untilDone breaks j i fuel cancelled
    | .error .cancelled => untilDone breaks j i fuel true
    | .error e => if breaks && e.isException then return cancelled else .raise e

def waitOut (breaks : Bool) (j : J.Job) (fuel : Nat) : Coro J (Nat × Nat × Bool) := do
  let count ← perform .cancelling
  let task ← perform (.spawn j)
  let cancelled ← untilDone breaks j task fuel false
  return (count, task, cancelled)

def noticed (cancelled : Bool) (count : Nat) : Coro J Bool := do
  if cancelled then return true
  else return count < (← perform .cancelling)

structure Waiting (n : Nat) (L : List (Task J)) (j : J.Job) (D : List (Option J.Job))
    (cancelled : Bool) (p : Phase ε (J.Ans j)) (s : Loop J) : Prop where
  own : Own n (L ++ [⟨j, p⟩]) s
  sane : Task.Sane ⟨j, p⟩
  raisedAt : ∃ m, s.raisedAt = List.replicate m (some j) ++ D ∧ (cancelled = true ↔ 0 < m)

def Sequential (n : Nat) : (o : Op J) → Loop J → o.Ans → Loop J → Prop
  | .spawn _, s, _, _ => AllDone (s.tasks.drop n)
  | _, _, _, _ => True

variable {cancelled breaks : Bool} {p : Phase ε (J.Ans j)}

theorem Waiting.later (h : Waiting n L j D cancelled p s) (hL : AllDone L) (hle : Later s s')
    (hraised : s'.raisedAt = s.raisedAt) :
    ∃ p', Waiting n L j D cancelled p' s' ∧ ∀ r, p = .done r → p' = .done r := by
  obtain ⟨p', hown, hdone, hsane⟩ := h.own.later_last hL hle
  exact ⟨p', ⟨hown, hsane h.sane, hraised ▸ h.raisedAt⟩, hdone⟩

theorem Waiting.deliver (h : Waiting n L j D cancelled p s) :
    Waiting n L j D true p (s.deliver (some j)) where
  own := ⟨h.own.le, h.own.tasks⟩
  sane := h.sane
  raisedAt := by
    obtain ⟨m, hm, -⟩ := h.raisedAt
    exact ⟨m + 1, by rw [Loop.deliver, hm]; rfl, by simp⟩

theorem Waiting.of_done (h : Waiting n L j D cancelled p s)
    (hdone : ∃ x, s.tasks[n + L.length]? = some x ∧ x.IsDone) : ∃ r, p = .done r := by
  obtain ⟨x, hx, r, hr⟩ := hdone
  cases hx.symm.trans h.own.getElem?
  exact ⟨r, hr⟩

theorem untilDone_safe {Q : Except (Raised ε) Bool → Loop J → Prop} (hL : AllDone L)
    (hok : ∀ r c s, Waiting n L j D c (.done r) s → Q (.ok c) s)
    (herror : breaks = false → ∀ e c s, Waiting n L j D c (.done (.error e)) s →
      Q (.error (.exception e)) s) (fuel : Nat) (h : Waiting n L j D cancelled p s) :
    (untilDone breaks j (n + L.length) fuel cancelled).Safe (service J) Threads (Sequential n) Q s := by
  induction fuel generalizing cancelled p s with
  | zero => exact fun _ _ never => nomatch never
  | succ fuel ih =>
    intro s₁ h₁ a s₂ hstep
    obtain ⟨hdone, rfl⟩ := hstep
    refine ⟨trivial, ?_⟩
    obtain ⟨p₁, hw₁, -⟩ := h.later hL h₁.later h₁.raisedAt
    cases a with
    | true =>
      obtain ⟨r, rfl⟩ := hw₁.of_done (hdone.mp rfl)
      exact hok r _ _ hw₁
    | false =>
      intro s₃ h₃ b s₄ hresumes
      refine ⟨trivial, ?_⟩
      obtain ⟨p₃, hw₃, -⟩ := hw₁.later hL h₃.later h₃.raisedAt
      cases hresumes with
      | cancelled hsuspended _ =>
        obtain ⟨p₄, hw₄, -⟩ := hw₃.later hL hsuspended.later hsuspended.raisedAt
        exact ih hw₄.deliver
      | @result s₄ r hsuspended _ hr =>
        obtain ⟨p₄, hw₄, -⟩ := hw₃.later hL hsuspended.later hsuspended.raisedAt
        cases hr.symm.trans hw₄.own.getElem?
        cases r with
        | ok a => exact ih hw₄
        | error e =>
          change Prog.Safe _ _ _ _ (if breaks && _ then _ else _) _
          cases hbreaks : breaks with
          | true => exact hok _ _ _ hw₄
          | false => exact herror hbreaks e _ _ hw₄

theorem waitOut_safe {Q : Except (Raised ε) (Nat × Nat × Bool) → Loop J → Prop} (hL : AllDone L)
    (hok : ∀ count r c s', Waiting n L j s.raisedAt c (.done r) s' →
      Q (.ok (count, n + L.length, c)) s')
    (herror : breaks = false → ∀ e, ¬J.Outcome j (.error e)) (fuel : Nat) (h : Own n L s) :
    (waitOut breaks j fuel).Safe (service J) Threads (Sequential n) Q s := by
  intro s₁ h₁ count s₂ hs₂
  obtain ⟨rfl, rfl⟩ := hs₂
  refine ⟨trivial, fun s₃ h₃ task s₄ hs₄ => ?_⟩
  obtain ⟨rfl, rfl⟩ := hs₄
  have hown := (h.later hL h₁.later).later hL h₃.later
  refine ⟨?_, ?_⟩
  · change AllDone (s₃.tasks.drop n)
    rw [hown.tasks]
    exact hL
  · rw [hown.length]
    have hraised : s₃.raisedAt = s.raisedAt := by rw [h₃.raisedAt, h₁.raisedAt]
    have hw : Waiting n L j s.raisedAt false .queued
        { s₃ with tasks := s₃.tasks ++ [⟨j, .queued⟩] } :=
      ⟨hown.spawn j, fun r hr => (by simp at hr), 0, hraised, by simp⟩
    change Prog.Safe _ _ _ _ (untilDone breaks j (n + L.length) fuel false >>= _) _
    refine Prog.safe_bind.mpr (untilDone_safe hL ?_ ?_ fuel hw)
    · intro r c s' hw
      exact hok _ r c s' hw
    · intro hbreaks e c s' hw
      exact absurd (hw.sane _ (.inr rfl)) (herror hbreaks e)

theorem noticed_safe {Q : Except (Raised ε) Bool → Loop J → Prop} {r : Except ε (J.Ans j)}
    (hL : AllDone L) (count : Nat) (h : Waiting n L j D cancelled (.done r) s)
    (hok : ∀ c s', (cancelled = true → c = true) → Waiting n L j D cancelled (.done r) s' →
      Q (.ok c) s') :
    (noticed cancelled count).Safe (service J) Threads (Sequential n) Q s := by
  rw [noticed]
  split
  · next hc => exact hok true s (fun _ => rfl) h
  · next hc =>
    intro s₁ h₁ a s₂ hs₂
    obtain ⟨rfl, rfl⟩ := hs₂
    obtain ⟨p₁, hw₁, hdone⟩ := h.later hL h₁.later h₁.raisedAt
    cases hdone r rfl
    exact ⟨trivial, hok _ _ (fun hc' => absurd hc' hc) hw₁⟩

theorem await_safe {Q : Except (Raised ε) (Except (Raised ε) (J.Ans j)) → Loop J → Prop}
    {r : Except ε (J.Ans j)} (hL : AllDone L) (h : Waiting n L j D cancelled (.done r) s)
    (hok : ∀ s', Waiting n L j D cancelled (.done r) s' → Q (.ok (outcome r)) s') :
    (perform (.await j (n + L.length))).Safe (service J) Threads (Sequential n) Q s := by
  intro s₁ h₁ a s₂ hs₂
  obtain ⟨p₁, hw₁, hdone⟩ := h.later hL h₁.later h₁.raisedAt
  cases hdone r rfl
  obtain ⟨r', hr', rfl, rfl⟩ | ⟨hnot, -⟩ := hs₂
  · cases hr'.symm.trans hw₁.own.getElem?
    exact ⟨trivial, hok _ hw₁⟩
  · exact absurd ⟨_, hw₁.own.getElem?, r, rfl⟩ hnot

end Tasks

end LangGraphFunctions.Lib

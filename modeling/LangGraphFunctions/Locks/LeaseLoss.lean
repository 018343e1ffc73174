import LangGraphFunctions.Lib.Streaks
import LangGraphFunctions.Locks.LeaseRuns

/-! When an acquisition is declared lost, over every run of the lock. -/

namespace LangGraphFunctions.Locks.AzureBlob

open Lib

variable {ι : Type}

inductive Outcome
  | success
  | failure (exc : Exn)
  deriving DecidableEq

namespace Outcome

def applied : Outcome → Health → Health
  | .success, h => { h with consecutiveFailures := 0 }
  | .failure exc, h =>
    if exc.isDefinitiveLeaseLoss then { h with lost := true }
    else
      let failures := h.consecutiveFailures + 1
      ⟨failures, h.lost || maxConsecutiveRenewalFailures ≤ failures⟩

def isLoss : Outcome → Bool
  | .success => false
  | .failure exc => exc.isDefinitiveLeaseLoss

def isMiss : Outcome → Bool
  | .success => false
  | .failure exc => !exc.isDefinitiveLeaseLoss

theorem lost_applied {x : Outcome} {h : Health} (hlost : h.lost) : (x.applied h).lost := by
  cases x with
  | success => exact hlost
  | failure exc =>
    rw [applied]
    split
    · rfl
    · simp [hlost]

end Outcome

def healthAfter (xs : List Outcome) : Health := xs.foldl (fun h x => x.applied h) ⟨0, false⟩

/-- A definitive loss, or three misses in a row. -/
def Forfeited (xs : List Outcome) : Prop :=
  (∃ x ∈ xs, x.isLoss) ∨ Streak Outcome.isMiss 3 xs

section

variable {xs : List Outcome} {x : Outcome}

theorem healthAfter_concat : healthAfter (xs ++ [x]) = x.applied (healthAfter xs) := by
  simp [healthAfter]

theorem forfeited_concat : Forfeited (xs ++ [x]) ↔ Forfeited xs ∨ x.isLoss ∨
    maxConsecutiveRenewalFailures ≤ endingStreak Outcome.isMiss (xs ++ [x]) := by
  simp only [Forfeited, streak_concat, List.mem_append, List.mem_singleton, or_and_right, exists_or,
    exists_eq_left]
  exact or_or_or_comm

theorem consecutiveFailures_healthAfter (h : ∀ x ∈ xs, x.isLoss = false) :
    (healthAfter xs).consecutiveFailures = endingStreak Outcome.isMiss xs := by
  induction xs using List.reverseRecOn with
  | nil => simp [healthAfter]
  | append_singleton xs x ih =>
    have hx : x.isLoss = false := h x (by simp)
    rw [healthAfter_concat, endingStreak_concat,
      ← ih fun x' hx' => h x' (List.mem_append_left _ hx')]
    cases x with
    | success => rfl
    | failure exc =>
      rw [Outcome.isLoss] at hx
      simp [Outcome.applied, Outcome.isMiss, hx]

theorem lost_healthAfter : (healthAfter xs).lost ↔ Forfeited xs := by
  induction xs using List.reverseRecOn with
  | nil =>
    have hstreak : ¬ Streak Outcome.isMiss 3 [] :=
      not_streak_nil (by decide)
    simp [healthAfter, Forfeited, hstreak]
  | append_singleton xs x ih =>
    rw [healthAfter_concat, forfeited_concat]
    by_cases hlost : (healthAfter xs).lost
    · exact iff_of_true (Outcome.lost_applied hlost) (.inl (ih.mp hlost))
    · have hnone : ∀ x ∈ xs, x.isLoss = false := by
        intro x hx
        by_contra hloss
        exact hlost (ih.mpr (.inl ⟨x, hx, by simpa using hloss⟩))
      have hcounter := consecutiveFailures_healthAfter hnone
      rw [endingStreak_concat, ← hcounter, ← ih]
      cases x with
      | success => simp [Outcome.applied, Outcome.isLoss, Outcome.isMiss, hlost,
          maxConsecutiveRenewalFailures]
      | failure exc =>
        by_cases hexc : exc.isDefinitiveLeaseLoss
        · simp [Outcome.applied, Outcome.isLoss, hexc]
        · simp [Outcome.applied, Outcome.isLoss, Outcome.isMiss, hexc, hlost]

end

def Op.recording : Op → Option (Key × LeaseState × Outcome)
  | .recordRenewSuccess key state => some (key, state, .success)
  | .handleRenewFailure key state exc => some (key, state, .failure exc)
  | _ => none

def recordedOf (key : Key) (state : LeaseState) : LeaseEvent ι → Option Outcome
  | .op _ _ o W _ _ => o.recording.bind fun x =>
    if x.1 = key ∧ x.2.1 = state ∧ W.lock.active.get? key = some state then some x.2.2 else none
  | _ => none

def recorded (key : Key) (state : LeaseState) (t : List (LeaseEvent ι)) : List Outcome :=
  t.filterMap (recordedOf key state)

def Lock.settle (L : Lock) (key : Key) (state : LeaseState) (x : Outcome) : Lock :=
  if L.active.get? key = some state then L.record state.lease x.applied else L

theorem Lock.settle_active (L : Lock) (key : Key) (state : LeaseState) (x : Outcome) :
    (L.settle key state x).active = L.active := by
  rw [settle]
  split <;> rfl

theorem Lock.pop_health {L : Lock} {key : Key} {token : String} :
    (L.pop key token).2.health = L.health := by
  rw [pop]
  split
  · rfl
  · split <;> rfl

theorem Lock.tracked_of_pop {L : Lock} {key key' : Key} {token : String} {state : LeaseState}
    (h : (L.pop key' token).2.active.get? key = some state) : L.active.get? key = some state := by
  rw [pop] at h
  split at h
  · exact h
  · split at h
    · exact h
    · rw [Dict.get?_erase] at h
      split at h
      · cases h
      · exact h

theorem recording_step {o : Op} {W W' : World} {a : o.Ans} {key : Key} {state : LeaseState}
    {x : Outcome} (h : service.step o W a W') (ho : o.recording = some (key, state, x)) :
    W' = { W with lock := W.lock.settle key state x } := by
  cases o with
  | recordRenewSuccess key' state' =>
    cases ho
    exact h
  | handleRenewFailure key' state' exc =>
    cases ho
    exact h
  | _ => cases ho

theorem recordedOf_eq_none {key : Key} {state : LeaseState} {i : ι} {q : Request} {o : Op}
    {W W' : World} {a : o.Ans} (ho : o.recording = none) :
    recordedOf key state (.op i q o W a W') = none := by
  simp [recordedOf, ho]

theorem recorded_concat (key : Key) (state : LeaseState) (t : List (LeaseEvent ι))
    (e : LeaseEvent ι) :
    recorded key state (t ++ [e]) = recorded key state t ++ (recordedOf key state e).toList := by
  rw [recorded, List.filterMap_append]
  cases h : recordedOf key state e with
  | none => simp [recorded, h]
  | some x => simp [recorded, h]

theorem tracked_of_recordedOf {key : Key} {state : LeaseState} {i : ι} {q : Request} {o : Op}
    {W W' : World} {a : o.Ans} {x : Outcome}
    (h : recordedOf key state (.op i q o W a W') = some x) :
    W.lock.active.get? key = some state := by
  obtain ⟨y, -, hy⟩ := Option.bind_eq_some_iff.mp h
  split at hy
  · next hsame => exact hsame.2.2
  · cases hy

theorem tokens_of_step {o : Op} {W W' : World} {a : o.Ans} (h : service.step o W a W')
    {token : String} (htoken : token ∈ W.tokens) : token ∈ W'.tokens := by
  cases o with
  | register key lease =>
    change registerStep key lease W a W' at h
    rw [registerStep] at h
    split at h
    · obtain ⟨-, succeeds, rfl⟩ := h
      exact htoken
    · split at h
      · obtain ⟨-, succeeds, rfl⟩ := h
        exact htoken
      · obtain ⟨token', -, -, rfl⟩ := h
        exact List.mem_cons_of_mem _ htoken
  | acquireLease blob =>
    cases a with
    | ok lease =>
      rw [h.2.2]
      exact htoken
    | error e =>
      rw [show W' = W from h]
      exact htoken
  | releaseLease lease =>
    cases a with
    | ok _ =>
      rw [show W' = _ from h]
      exact htoken
    | error e =>
      obtain ⟨succeeds, rfl⟩ := h
      exact htoken
  | guardToken token' =>
    rw [show W' = _ from h]
    exact List.mem_cons_of_mem _ htoken
  | uploadMarker _ | monotonic | sleep _ | renew _ =>
    rw [show W' = W from h]
    exact htoken
  | enter _ | pollClosed | lost _ | snapshot | waitRenewals _ | closed | entry _ =>
    rw [h.1]
    exact htoken
  | recordRenewSuccess _ _ | handleRenewFailure _ _ _ | setClosed | lapse _ =>
    rw [show W' = _ from h]
    exact htoken
  | pop _ _ | takeAll | seize _ =>
    rw [h.2]
    exact htoken
  | stuck => exact a.elim

structure Recounts (t : List (LeaseEvent ι)) (W : World) : Prop where
  tracked : ∀ {key state}, W.lock.active.get? key = some state → state.token ∈ W.tokens
  drawn : ∀ key state, recorded key state t ≠ [] → state.token ∈ W.tokens
  health : ∀ {key state}, W.lock.active.get? key = some state →
    W.lock.health state.lease = healthAfter (recorded key state t)

theorem recounts_fresh : Recounts ([] : List (LeaseEvent ι)) World.fresh where
  tracked h := by cases h
  drawn _ _ h := absurd rfl h
  health h := by cases h

theorem Recounts.quiet {t : List (LeaseEvent ι)} {e : LeaseEvent ι} {W : World}
    (h : Recounts t W) (he : ∀ key state, recordedOf key state e = none) : Recounts (t ++ [e]) W := by
  have hsame : ∀ key state, recorded key state (t ++ [e]) = recorded key state t := by
    intro key state
    rw [recorded_concat, he]
    exact List.append_nil _
  refine ⟨h.tracked, fun key state hrecorded => ?_, fun {key state} htracked => ?_⟩
  · rw [hsame] at hrecorded
    exact h.drawn key state hrecorded
  · rw [hsame]
    exact h.health htracked

section

variable [DecidableEq ι] {blobPrefix : String} {t : List (LeaseEvent ι)} {P : Threads ι} {i : ι}
  {q : Request} {o : Op} {W W' : World} {a : o.Ans} {key : Key} {state : LeaseState}

theorem LeaseRun.tracked_step (h : LeaseRun blobPrefix t P) (hmem : .op i q o W a W' ∈ t)
    (htracked : W'.lock.active.get? key = some state) :
    (state.token ∉ W.tokens ∧ state.token ∈ W'.tokens ∧ o.recording = none ∧
      W'.lock.health state.lease = ⟨0, false⟩) ∨
    W.lock.active.get? key = some state ∧ W'.lock.health state.lease =
      (recordedOf key state (.op i q o W a W' : LeaseEvent ι)).elim (W.lock.health state.lease)
        (·.applied (W.lock.health state.lease)) := by
  obtain ⟨H, H', rfl, rfl, haccounted, ⟨hs, -⟩, hallowed⟩ := h.op hmem
  generalize H'.world = W' at hs htracked ⊢
  have hsame : H.world.lock.active.get? key = some state →
      W'.lock.health state.lease = H.world.lock.health state.lease → o.recording = none →
      H.world.lock.active.get? key = some state ∧ W'.lock.health state.lease =
        (recordedOf key state (.op i q o H.world a W' : LeaseEvent ι)).elim
          (H.world.lock.health state.lease) (·.applied (H.world.lock.health state.lease)) := by
    intro hbefore hhealth ho
    rw [recordedOf_eq_none ho]
    exact ⟨hbefore, hhealth⟩
  cases ho : o.recording with
  | some y =>
    obtain ⟨key', state', x⟩ := y
    obtain rfl := recording_step hs ho
    rw [Lock.settle_active] at htracked
    refine .inr ⟨htracked, ?_⟩
    by_cases hothers : H.world.lock.active.get? key' = some state' ∧ state.lease = state'.lease
    · obtain rfl := haccounted.separate htracked hothers.1 hothers.2
      cases htracked.symm.trans hothers.1
      have hrecorded : recordedOf key state (.op i q o H.world a
          { H.world with lock := H.world.lock.settle key state x } : LeaseEvent ι) = some x := by
        simp [recordedOf, ho, htracked]
      rw [hrecorded, Lock.settle, if_pos htracked, health_record, if_pos rfl]
      rfl
    · have hrecorded : recordedOf key state (.op i q o H.world a
          { H.world with lock := H.world.lock.settle key' state' x } : LeaseEvent ι) = none := by
        rw [recordedOf, ho, Option.bind_some]
        refine if_neg fun hsame => hothers ?_
        obtain ⟨rfl, rfl, -⟩ := hsame
        exact ⟨htracked, rfl⟩
      rw [hrecorded, Lock.settle]
      split
      · next hstate =>
        rw [health_record, if_neg fun hlease => hothers ⟨hstate, hlease⟩]
        rfl
      · rfl
  | none =>
    by_cases hlocking : o.locking
    · cases o with
      | register key' lease =>
        change registerStep key' lease H.world a W' at hs
        rw [registerStep] at hs
        split at hs
        · obtain ⟨-, succeeds, rfl⟩ := hs
          exact .inr (hsame htracked rfl ho)
        · split at hs
          · obtain ⟨-, succeeds, rfl⟩ := hs
            exact .inr (hsame htracked rfl ho)
          · obtain ⟨token, -, hnew, rfl⟩ := hs
            change (H.world.lock.active.set key' ⟨lease, token⟩).get? key = some state at htracked
            by_cases hkey : key = key'
            · subst hkey
              cases (Dict.get?_set_self ..).symm.trans htracked
              exact .inl ⟨hnew, List.mem_cons_self .., rfl, Function.update_self ..⟩
            · rw [Dict.get?_set_ne _ _ hkey] at htracked
              have hlease : state.lease ≠ lease := by
                rintro rfl
                cases (haccounted.tracked htracked).1.symm.trans hallowed.2
              exact .inr (hsame htracked (Function.update_of_ne hlease ..) ho)
      | pop key' token =>
        obtain ⟨-, rfl⟩ := hs
        exact .inr (hsame (Lock.tracked_of_pop htracked) (congrFun Lock.pop_health _) ho)
      | setClosed =>
        cases hs
        exact .inr (hsame htracked rfl ho)
      | takeAll =>
        rw [hs.2] at htracked
        cases htracked
      | recordRenewSuccess _ _ | handleRenewFailure _ _ _ => cases ho
      | _ => cases hlocking
    · have hlock := lock_of_step hs (Bool.eq_false_iff.mpr hlocking)
      rw [hlock] at htracked
      exact .inr (hsame htracked (by rw [hlock]) ho)

theorem Recounts.step (hJ : Recounts t W) (h : LeaseRun blobPrefix (t ++ [.op i q o W a W']) P) :
    Recounts (t ++ [.op i q o W a W']) W' := by
  have hmem : .op i q o W a W' ∈ t ++ [.op i q o W a W'] := by simp
  have hs := h.runs.step_of_op hmem
  refine ⟨fun htracked => ?_, fun key state hrecorded => ?_, fun {key state} htracked => ?_⟩
  · rcases h.tracked_step hmem htracked with ⟨-, htoken, -⟩ | ⟨hbefore, -⟩
    · exact htoken
    · exact tokens_of_step hs (hJ.tracked hbefore)
  · rw [recorded_concat] at hrecorded
    refine tokens_of_step hs ?_
    cases hof : recordedOf key state (.op i q o W a W' : LeaseEvent ι) with
    | none =>
      rw [hof] at hrecorded
      exact hJ.drawn key state (by simpa using hrecorded)
    | some x => exact hJ.tracked (tracked_of_recordedOf hof)
  · rw [recorded_concat]
    rcases h.tracked_step hmem htracked with ⟨hnew, -, ho, hhealth⟩ | ⟨hbefore, hhealth⟩
    · have hempty : recorded key state t = [] := by
        by_contra hne
        exact hnew (hJ.drawn key state hne)
      rw [hhealth, hempty, recordedOf_eq_none ho]
      rfl
    · rw [hhealth, hJ.health hbefore]
      cases recordedOf key state (.op i q o W a W' : LeaseEvent ι) with
      | none => simp
      | some x => exact healthAfter_concat.symm

theorem LeaseRun.recounts (h : LeaseRun blobPrefix t P) : Recounts t P.store := by
  induction t using List.reverseRecOn generalizing P with
  | nil =>
    cases h.runs
    exact recounts_fresh
  | append_singleton t e ih =>
    obtain ⟨P₁, h₁, h₂⟩ := h.split
    cases h₂ with
    | cons hstep hrest =>
      cases hrest
      cases hstep with
      | start hnone hstart => exact (ih h₁).quiet fun _ _ => rfl
      | leave hcall => exact (ih h₁).quiet fun _ _ => rfl
      | op hcall hs => exact (ih h₁).step h

theorem LeaseRun.lost_step (h : LeaseRun blobPrefix t P) (hmem : .op i q o W a W' ∈ t) {n : Nat}
    (hlost : (W.lock.health n).lost) : (W'.lock.health n).lost := by
  obtain ⟨H, H', rfl, rfl, haccounted, ⟨hs, -⟩, hallowed⟩ := h.op hmem
  generalize H'.world = W' at hs ⊢
  by_cases ho : o.locking
  · cases o with
    | register key' lease =>
      change registerStep key' lease H.world a W' at hs
      rw [registerStep] at hs
      split at hs
      · obtain ⟨-, succeeds, rfl⟩ := hs
        exact hlost
      · split at hs
        · obtain ⟨-, succeeds, rfl⟩ := hs
          exact hlost
        · obtain ⟨token, -, -, rfl⟩ := hs
          have hlease : n ≠ lease := by
            rintro rfl
            cases (haccounted.acquiring hallowed.2).symm.trans hlost
          change (Function.update H.world.lock.health lease ⟨0, false⟩ n).lost
          rwa [Function.update_of_ne hlease]
    | pop key' token =>
      obtain ⟨-, rfl⟩ := hs
      change ((H.world.lock.pop key' token).2.health n).lost
      rwa [Lock.pop_health]
    | recordRenewSuccess key' state' =>
      cases hs
      exact Lock.recordRenewSuccess_lost hlost
    | handleRenewFailure key' state' exc =>
      cases hs
      exact Lock.handleRenewFailure_lost hlost
    | setClosed =>
      cases hs
      exact hlost
    | takeAll =>
      rw [hs.2]
      exact hlost
    | _ => cases ho
  · rwa [lock_of_step hs (Bool.eq_false_iff.mpr ho)]

end

/-- How leases are declared lost in the run `t`, which has come to `P`. -/
structure DeclaredLost (t : List (LeaseEvent ι)) (P : Threads ι) : Prop where
  lost_iff : ∀ {key state}, P.store.lock.active.get? key = some state →
    ((P.store.lock.health state.lease).lost ↔ Forfeited (recorded key state t))
  kept : ∀ {t₁ i q o W a W' t₂}, t = t₁ ++ .op i q o W a W' :: t₂ → ∀ {n},
    (W.lock.health n).lost → (P.store.lock.health n).lost
  unmixed : ∀ {i q o W a W'}, .op i q o W a W' ∈ t → ∀ {key key' state state' x},
    W.lock.active.get? key = some state → o.recording = some (key', state', x) →
      (key', state') ≠ (key, state) →
        W'.lock.active.get? key = some state ∧ W'.lock.health state.lease = W.lock.health state.lease

section

variable [DecidableEq ι] {blobPrefix : String} {t : List (LeaseEvent ι)} {P : Threads ι}

end

def answerMissing : (o : Op) → World → Option (o.Ans × World)
  | .snapshot, W => some (W.lock.snapshot, W)
  | .renew _, W => some (.error .timeout, W)
  | .handleRenewFailure key state exc, W =>
    some ((), { W with lock := W.lock.handleRenewFailure key state exc })
  | o, W => answer o W

theorem answerMissing_step {o : Op} {W W' : World} {a : o.Ans}
    (h : answerMissing o W = some (a, W')) : service.step o W a W' := by
  cases o with
  | snapshot =>
    cases h
    exact ⟨rfl, rfl⟩
  | renew lease =>
    cases h
    rfl
  | handleRenewFailure key state exc =>
    cases h
    rfl
  | _ => exact answer_step h

def latePass : List (Pool.Move Nat Request) :=
  Pool.Move.calls 5 [(0, .acquire ("g", "t") 0 1)] ++
    [.start 1 (.renewAllOnce false), .op 1, .op 1] ++
    Pool.Move.calls 3 [(0, .release ("g", "t") "")] ++
    Pool.Move.calls 5 [(0, .acquire ("g", "t") 0 1)] ++
    [.op 1, .leave 1] ++
    Pool.Move.calls 3 [(1, .renewAllOnce false), (1, .renewAllOnce false), (1, .renewAllOnce false)]

def rehearseMissing (schedule : List (Pool.Move Nat Request)) :
    List (LeaseEvent Nat) × Threads Nat :=
  Pool.tryPlay (fun _ _ => answerMissing) (Request.program "") schedule (Pool.idle World.fresh)

end LangGraphFunctions.Locks.AzureBlob

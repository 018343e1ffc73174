import LangGraphFunctions.Native.StreamLives

/-! What a true stream tells its consumer and its observer. -/

namespace LangGraphFunctions.Native.TrueStream

open Lib Platform

variable {α β : Type} {graphName runId : String} {maxEvents : Nat} {guarded : Bool}
  {held : Option (String × String)}

inductive Tale
  | event (value : Json.Value)
  | exhausted
  | encoded (value : Json.Value) (serialized : String)
  | frame (frame : SseFrame)
  | failed
  | cleanupFailed
  | settled (error : Option Raised)

def tale : (o : Op) × o.Ans → List Tale
  | ⟨.next, .ok (some value)⟩ => [.event value]
  | ⟨.next, .ok none⟩ => [.exhausted]
  | ⟨.next, .error _⟩ => [.failed]
  | ⟨.encode value, .ok serialized⟩ => [.encoded value serialized]
  | ⟨.encode _, .error _⟩ => [.failed]
  | ⟨.check, .error _⟩ => [.failed]
  | ⟨.frame .done, _⟩ => [.frame .done]
  | ⟨.frame frame, .ok ()⟩ => [.frame frame]
  | ⟨.frame frame, .error _⟩ => [.frame frame, .failed]
  | ⟨.aclose, .error _⟩ => [.cleanupFailed]
  | ⟨.release .., .error _⟩ => [.cleanupFailed]
  | ⟨.completed, _⟩ => [.settled none]
  | ⟨.failed error, _⟩ => [.settled (some error)]
  | _ => []

def Leaves : (o : Op) → o.Ans → Prop
  | .frame _, .error exc => exc.isCancellation
  | _, _ => True

abbrev Tells (p : Stream α) (S : Except Raised α → List Tale → Prop) : Prop :=
  Prog.Writes (I := interface) Leaves tale p S

theorem tells_bind {p : Stream α} {f : α → Stream β} {S : Except Raised α → List Tale → Prop}
    {S' : Except Raised β → List Tale → Prop} (hp : Tells p S)
    (hok : ∀ a u, S (.ok a) u → Tells (f a) fun r v => S' r (u ++ v))
    (herror : ∀ e u, S (.error e) u → S' (.error e) u) : Tells (p >>= f) S' :=
  Prog.writes_bind hp hok herror

inductive Streamed (runId : String) (maxEvents : Nat) :
    Nat → Except Raised (Option Raised) → List Tale → Prop
  | broken (exc : Raised) : Streamed runId maxEvents n (.error exc) [.failed]
  | exhausted : Streamed runId maxEvents n (.ok none) [.exhausted]
  | refused (exc : Raised) : Streamed runId maxEvents n (.error exc) [.exhausted, .failed]
  | capped (value : Json.Value) (error : Raised) : Streamed runId maxEvents 0 (.ok (some error))
      [.event value, .frame (.error (overflow maxEvents) runId)]
  | cut (value : Json.Value) (exc : Raised) : exc.isCancellation →
      Streamed runId maxEvents 0 (.error exc)
        [.event value, .frame (.error (overflow maxEvents) runId), .failed]
  | unencoded (value : Json.Value) (exc : Raised) :
      Streamed runId maxEvents (n + 1) (.error exc) [.event value, .failed]
  | left (value : Json.Value) (serialized : String) (exc : Raised) : exc.isCancellation →
      Streamed runId maxEvents (n + 1) (.error exc)
        [.event value, .encoded value serialized, .frame (.data serialized), .failed]
  | sent (value : Json.Value) (serialized : String) : Streamed runId maxEvents n r u →
      Streamed runId maxEvents (n + 1) r
        (.event value :: .encoded value serialized :: .frame (.data serialized) :: u)

theorem tells_next : Tells next fun r u =>
    (∃ exc, r = .error exc ∧ u = [.failed]) ∨ (r = .ok none ∧ u = [.exhausted]) ∨
      ∃ value, r = .ok (some value) ∧ u = [.event value] := by
  intro answer _
  cases answer with
  | error exc => exact .inl ⟨exc, rfl, rfl⟩
  | ok event =>
    cases event with
    | none => exact .inr (.inl ⟨rfl, rfl⟩)
    | some value => exact .inr (.inr ⟨value, rfl, rfl⟩)

theorem tells_encode (value : Json.Value) : Tells (encode value) fun r u =>
    (∃ exc, r = .error exc ∧ u = [.failed]) ∨
      ∃ serialized, r = .ok serialized ∧ u = [.encoded value serialized] := by
  intro answer _
  cases answer with
  | error exc => exact .inl ⟨exc, rfl, rfl⟩
  | ok serialized => exact .inr ⟨serialized, rfl, rfl⟩

theorem tells_send {frame : SseFrame} (h : frame ≠ .done) : Tells (send frame) fun r u =>
    (∃ exc, exc.isCancellation ∧ r = .error exc ∧ u = [.frame frame, .failed]) ∨
      r = .ok () ∧ u = [.frame frame] := by
  intro answer hanswer
  cases frame with
  | done => exact absurd rfl h
  | _ =>
    cases answer with
    | error exc => exact .inl ⟨exc, hanswer, rfl, rfl⟩
    | ok _ => exact .inr ⟨rfl, rfl⟩

theorem tells_checkOwnershipGuard : Tells (checkOwnershipGuard guarded) fun r u =>
    (∃ exc, r = .error exc ∧ u = [.failed]) ∨ r = .ok () ∧ u = [] := by
  cases guarded with
  | false => exact .inr ⟨rfl, rfl⟩
  | true =>
    intro answer _
    cases answer with
    | error exc => exact .inl ⟨exc, rfl, rfl⟩
    | ok _ => exact .inr ⟨rfl, rfl⟩

theorem tells_exhausted {n : Nat} : Tells (do checkOwnershipGuard guarded; return none)
    fun r u => Streamed runId maxEvents n r (.exhausted :: u) := by
  refine tells_bind tells_checkOwnershipGuard (fun _ u hu => ?_) fun exc u hu => ?_
  · rcases hu with ⟨exc, hr, -⟩ | ⟨-, rfl⟩
    · cases hr
    · exact .exhausted
  · rcases hu with ⟨exc', hr, rfl⟩ | ⟨hr, -⟩
    · exact .refused exc
    · cases hr

theorem tells_streamEvents (remaining : Nat) :
    Tells (streamEvents runId maxEvents guarded remaining)
      (Streamed runId maxEvents remaining) := by
  induction remaining with
  | zero =>
    refine tells_bind tells_next (fun event u hu => ?_) fun exc u hu => ?_
    · rcases hu with ⟨exc, hr, -⟩ | ⟨hr, rfl⟩ | ⟨value, hr, rfl⟩
      · cases hr
      · cases hr
        exact tells_exhausted
      · cases hr
        refine tells_bind (tells_send (by simp)) (fun _ v hv => ?_) fun exc v hv => ?_
        · rcases hv with ⟨exc, -, hr, -⟩ | ⟨-, rfl⟩
          · cases hr
          · exact .capped value _
        · rcases hv with ⟨exc', hcancel, hr, rfl⟩ | ⟨hr, -⟩
          · cases hr
            exact .cut value exc hcancel
          · cases hr
    · rcases hu with ⟨exc', hr, rfl⟩ | ⟨hr, -⟩ | ⟨value, hr, -⟩
      · exact .broken exc
      · cases hr
      · cases hr
  | succ remaining ih =>
    refine tells_bind tells_next (fun event u hu => ?_) fun exc u hu => ?_
    · rcases hu with ⟨exc, hr, -⟩ | ⟨hr, rfl⟩ | ⟨value, hr, rfl⟩
      · cases hr
      · cases hr
        exact tells_exhausted
      · cases hr
        refine tells_bind (tells_encode value) (fun serialized v hv => ?_) fun exc v hv => ?_
        · rcases hv with ⟨exc, hr, -⟩ | ⟨serialized', hr, rfl⟩
          · cases hr
          · cases hr
            refine tells_bind (tells_send (by simp)) (fun _ v hv => ?_) fun exc v hv => ?_
            · rcases hv with ⟨exc, -, hr, -⟩ | ⟨-, rfl⟩
              · cases hr
              · apply ih.mono
                exact fun r u hu => .sent value serialized hu
            · rcases hv with ⟨exc', hcancel, hr, rfl⟩ | ⟨hr, -⟩
              · cases hr
                exact .left value serialized exc hcancel
              · cases hr
        · rcases hv with ⟨exc', hr, rfl⟩ | ⟨serialized, hr, -⟩
          · exact .unencoded value exc
          · cases hr
    · rcases hu with ⟨exc', hr, rfl⟩ | ⟨hr, -⟩ | ⟨value, hr, -⟩
      · exact .broken exc
      · cases hr
      · cases hr

def frames (u : List Tale) : List SseFrame :=
  u.filterMap fun m => match m with
    | .frame frame => some frame
    | _ => none

def events (u : List Tale) : List Json.Value :=
  u.filterMap fun m => match m with
    | .event value => some value
    | _ => none

def encodings (u : List Tale) : List (Json.Value × String) :=
  u.filterMap fun m => match m with
    | .encoded value serialized => some (value, serialized)
    | _ => none

theorem frames_append (u v : List Tale) : frames (u ++ v) = frames u ++ frames v :=
  List.filterMap_append

theorem events_append (u v : List Tale) : events (u ++ v) = events u ++ events v :=
  List.filterMap_append

theorem encodings_append (u v : List Tale) : encodings (u ++ v) = encodings u ++ encodings v :=
  List.filterMap_append

structure Shown (limit : Nat) (errors : List SseFrame) (u : List Tale) : Prop where
  frames : frames u = (encodings u).map (fun p => .data p.2) ++ errors
  encoded : (encodings u).map (·.1) = (events u).take (encodings u).length
  bounded : (encodings u).length ≤ limit

/-- The events came to their end, and nothing failed. -/
def Unbroken (u : List Tale) : Prop := .exhausted ∈ u ∧ .failed ∉ u

inductive Reported (runId : String) : Except Raised (Option Raised) → List SseFrame → Prop
  | ended : Reported runId (.ok none) []
  | broken {exc : Raised} : Reported runId (.error exc) []
  | capped {error : Raised} {text : String} :
      Reported runId (.ok (some error)) [.error text runId]
  | left {exc : Raised} {text : String} : exc.isCancellation →
      Reported runId (.error exc) [.error text runId]

theorem Shown.sent {limit : Nat} {errors : List SseFrame} {u : List Tale} (h : Shown limit errors u)
    (value : Json.Value) (serialized : String) : Shown (limit + 1) errors
      (.event value :: .encoded value serialized :: .frame (.data serialized) :: u) where
  frames := congrArg (SseFrame.data serialized :: ·) h.frames
  encoded := congrArg (value :: ·) h.encoded
  bounded := Nat.succ_le_succ h.bounded

theorem Streamed.complete {n : Nat} {r : Except Raised (Option Raised)} {u : List Tale}
    (h : Streamed runId maxEvents n r u) (hunbroken : Unbroken u) :
    (encodings u).map (·.1) = events u := by
  induction h with
  | @sent n r u value serialized h ih =>
    have hrest : Unbroken u := by simpa [Unbroken] using hunbroken
    exact congrArg (value :: ·) (ih hrest)
  | exhausted => rfl
  | _ => simp [Unbroken] at hunbroken

theorem Streamed.shown {n : Nat} {r : Except Raised (Option Raised)} {u : List Tale}
    (h : Streamed runId maxEvents n r u) :
    (∃ errors, Shown n errors u ∧ Reported runId r errors) ∧ (r = .ok none ↔ Unbroken u) := by
  induction h with
  | broken exc => exact ⟨⟨[], ⟨rfl, rfl, Nat.zero_le _⟩, .broken⟩, by simp [Unbroken]⟩
  | exhausted => exact ⟨⟨[], ⟨rfl, rfl, Nat.zero_le _⟩, .ended⟩, by simp [Unbroken]⟩
  | refused exc => exact ⟨⟨[], ⟨rfl, rfl, Nat.zero_le _⟩, .broken⟩, by simp [Unbroken]⟩
  | capped value error => exact ⟨⟨_, ⟨rfl, rfl, Nat.zero_le _⟩, .capped⟩, by simp [Unbroken]⟩
  | cut value exc hcancel =>
    exact ⟨⟨_, ⟨rfl, rfl, Nat.zero_le _⟩, .left hcancel⟩, by simp [Unbroken]⟩
  | unencoded value exc => exact ⟨⟨[], ⟨rfl, rfl, Nat.zero_le _⟩, .broken⟩, by simp [Unbroken]⟩
  | left value serialized exc hcancel =>
    exact ⟨⟨[], ⟨rfl, rfl, Nat.succ_le_succ (Nat.zero_le _)⟩, .broken⟩, by simp [Unbroken]⟩
  | sent value serialized h ih =>
    obtain ⟨⟨errors, hshown, hreported⟩, hunbroken⟩ := ih
    exact ⟨⟨errors, hshown.sent value serialized, hreported⟩, by simp [hunbroken, Unbroken]⟩

def Quiet (u : List Tale) : Prop := ∀ m ∈ u, m ≠ .cleanupFailed ∧ ∀ error, m ≠ .settled error

theorem Quiet.append {u v : List Tale} (hu : Quiet u) (hv : Quiet v) : Quiet (u ++ v) :=
  List.forall_mem_append.mpr ⟨hu, hv⟩

theorem Streamed.quiet {n : Nat} {r : Except Raised (Option Raised)} {u : List Tale}
    (h : Streamed runId maxEvents n r u) : Quiet u := by
  induction h with
  | sent value serialized h ih =>
    have hsent : Quiet [.event value, .encoded value serialized, .frame (.data serialized)] := by
      simp [Quiet]
    exact hsent.append ih
  | _ => simp [Quiet]

structure Tried (runId : String) (maxEvents : Nat) (primary pending : Option Raised)
    (errors : List SseFrame) (u : List Tale) : Prop where
  shown : Shown maxEvents errors u
  single : errors.length ≤ 1
  named : ∀ f ∈ errors, ∃ text, f = .error text runId
  unbroken : primary = none ↔ Unbroken u
  complete : Unbroken u → (encodings u).map (·.1) = events u
  honest : pending = none → (errors = [] ↔ primary = none)
  quiet : Quiet u

theorem Shown.failed {limit : Nat} {errors : List SseFrame} {u : List Tale}
    (h : Shown limit errors u) : Shown limit errors (u ++ [.failed]) where
  frames := by simpa [TrueStream.frames, encodings] using h.frames
  encoded := by simpa [encodings, events] using h.encoded
  bounded := by simpa [encodings] using h.bounded

theorem Shown.error {limit : Nat} {u : List Tale} (h : Shown limit [] u) (frame : SseFrame) :
    Shown limit [frame] (u ++ [.frame frame]) where
  frames := by
    have hframes := h.frames
    simp only [TrueStream.frames, encodings, List.append_nil] at hframes
    simp [TrueStream.frames, encodings, hframes]
  encoded := by simpa [encodings, events] using h.encoded
  bounded := by simpa [encodings] using h.bounded

theorem tells_primedEvents : Tells (primedEvents runId maxEvents guarded) fun r u =>
    (∃ exc, exc.isCancellation ∧ r = .error exc ∧ u = [.frame .prime, .failed]) ∨
      ∃ v, u = .frame .prime :: v ∧ Streamed runId maxEvents maxEvents r v := by
  refine tells_bind (tells_send (by simp)) (fun _ u hu => ?_) fun exc u hu => ?_
  · rcases hu with ⟨exc, -, hr, -⟩ | ⟨-, rfl⟩
    · cases hr
    · apply (tells_streamEvents maxEvents).mono
      exact fun r v hv => .inr ⟨v, rfl, hv⟩
  · rcases hu with ⟨exc', hcancel, hr, rfl⟩ | ⟨hr, -⟩
    · cases hr
      exact .inl ⟨exc, hcancel, rfl, rfl⟩
    · cases hr

theorem not_exception {exc : Raised} (h : exc.isCancellation) : exc.isException = false := by
  cases exc <;> first | rfl | cases h

theorem tells_tryEvents : Tells (tryEvents runId maxEvents guarded) fun r u =>
    ∃ primary pending errors v, r = .ok (primary, pending) ∧ u = .frame .prime :: v ∧
      Tried runId maxEvents primary pending errors v := by
  have hattempt : Tells (primedEvents runId maxEvents guarded).attempt fun r u =>
      ∃ outcome, r = .ok outcome ∧
        ((∃ exc, exc.isCancellation ∧ outcome = .error exc ∧ u = [.frame .prime, .failed]) ∨
          ∃ v, u = .frame .prime :: v ∧ Streamed runId maxEvents maxEvents outcome v) :=
    Prog.writes_attempt tells_primedEvents fun r u hu => ⟨r, rfl, hu⟩
  refine tells_bind hattempt (fun outcome u hu => ?_) fun exc u hu => ?_
  · obtain ⟨_, ⟨⟩, ⟨exc, hcancel, rfl, rfl⟩ | ⟨v, rfl, hstreamed⟩⟩ := hu
    · dsimp only
      rw [not_exception hcancel]
      refine ⟨some exc, some exc, [], [.failed], rfl, rfl, ⟨rfl, rfl, Nat.zero_le _⟩,
        ?_, ?_, ?_, ?_, ?_, ?_⟩
      · exact Nat.zero_le _
      · exact List.forall_mem_nil _
      · simp [Unbroken]
      · simp [Unbroken]
      · simp
      · simp [Quiet]
    · have hquiet := hstreamed.quiet
      have hcomplete := hstreamed.complete
      obtain ⟨⟨errors, hshown, hreported⟩, hunbroken⟩ := hstreamed.shown
      cases hreported with
      | ended =>
        refine ⟨none, none, [], v, rfl, by simp, hshown, Nat.zero_le _, List.forall_mem_nil _,
          ?_, hcomplete, ?_, ?_⟩
        · simpa using hunbroken
        · simp
        · exact hquiet
      | @capped error text =>
        refine ⟨some error, none, [.error text runId], v, rfl, by simp, hshown, Nat.le_refl _,
          List.forall_mem_singleton.mpr ⟨text, rfl⟩, ?_, hcomplete, ?_, ?_⟩
        · simpa using hunbroken
        · simp
        · exact hquiet
      | @left exc text hcancel =>
        dsimp only
        rw [not_exception hcancel]
        refine ⟨some exc, some exc, [.error text runId], v, rfl, by simp, hshown, Nat.le_refl _,
          List.forall_mem_singleton.mpr ⟨text, rfl⟩, ?_, hcomplete, ?_, ?_⟩
        · simpa using hunbroken
        · simp
        · exact hquiet
      | @broken exc =>
        have hnot : ¬ Unbroken v := fun h => by cases hunbroken.mpr h
        dsimp only
        split
        · have hsend : Tells (send (.error "stream processing failed" runId)).attempt fun r u =>
              ∃ answer, r = .ok answer ∧
                ((∃ exc, answer = .error exc ∧
                  u = [.frame (.error "stream processing failed" runId), .failed]) ∨ answer = .ok () ∧
                  u = [.frame (.error "stream processing failed" runId)]) := by
            apply Prog.writes_attempt (tells_send (by simp))
            rintro r u (⟨exc, -, rfl, rfl⟩ | ⟨rfl, rfl⟩)
            · exact ⟨_, rfl, .inl ⟨exc, rfl, rfl⟩⟩
            · exact ⟨_, rfl, .inr ⟨rfl, rfl⟩⟩
          refine tells_bind hsend (fun answer u hu => ?_) fun exc u hu => ?_
          · obtain ⟨_, ⟨⟩, ⟨raised, rfl, rfl⟩ | ⟨rfl, rfl⟩⟩ := hu
            · refine ⟨some exc, some raised, [.error "stream processing failed" runId],
                v ++ [.frame (.error "stream processing failed" runId)] ++ [.failed], rfl, by simp,
                (hshown.error _).failed, Nat.le_refl _,
                List.forall_mem_singleton.mpr ⟨_, rfl⟩, ?_, ?_, ?_, ?_⟩
              · simp [Unbroken]
              · simp [Unbroken]
              · simp
              · exact (hquiet.append (by simp [Quiet])).append (by simp [Quiet])
            · refine ⟨some exc, none, [.error "stream processing failed" runId],
                v ++ [.frame (.error "stream processing failed" runId)], rfl, by simp,
                hshown.error _, Nat.le_refl _, List.forall_mem_singleton.mpr ⟨_, rfl⟩, ?_, ?_, ?_, ?_⟩
              · simpa [Unbroken] using hnot
              · exact fun h => absurd (by simpa [Unbroken] using h) hnot
              · simp
              · exact hquiet.append (by simp [Quiet])
          · obtain ⟨answer, hr, -⟩ := hu
            cases hr
        · refine ⟨some exc, some exc, [], v, rfl, by simp, hshown, Nat.zero_le _,
            List.forall_mem_nil _, ?_, hcomplete, ?_, ?_⟩
          · simpa using hnot
          · simp
          · exact hquiet
  · obtain ⟨outcome, hr, -⟩ := hu
    cases hr

theorem closed_error (primary : Option Raised) (exc : Raised) :
    (Cleanup.closed primary (.error exc)).streamError.isSome := by
  rw [Cleanup.closed]
  split
  · cases primary <;> rfl
  · dsimp only
    cases primary <;> rfl

theorem released_error (cleanup : Cleanup) (exc : Raised) :
    (cleanup.released none (.error exc)).streamError.isSome := by
  obtain ⟨streamError, cancellation, raised⟩ := cleanup
  rw [Cleanup.released]
  split
  · cases streamError <;> rfl
  · cases streamError <;> rfl

def Cleaned (primary : Option Raised) (cleanup : Cleanup) (u : List Tale) : Prop :=
  (∀ m ∈ u, m = .cleanupFailed) ∧ (primary = none → (cleanup.streamError = none ↔ u = []))

theorem tells_closeEvents (primary : Option Raised) : Tells (closeEvents primary) fun r u =>
    ∃ cleanup, r = .ok cleanup ∧ Cleaned primary cleanup u := by
  intro answer _
  refine ⟨_, rfl, ?_⟩
  cases answer with
  | ok _ => exact ⟨List.forall_mem_nil _, fun h => by simp [h, Cleanup.closed, tale]⟩
  | error exc =>
    refine ⟨List.forall_mem_singleton.mpr rfl, fun _ => ?_⟩
    have hsome := closed_error primary exc
    constructor
    · intro hnone
      rw [hnone] at hsome
      cases hsome
    · intro hnil
      cases hnil

theorem tells_releaseLock {primary : Option Raised} {cleanup : Cleanup} {u : List Tale}
    (h : Cleaned primary cleanup u) : Tells (releaseLock graphName primary cleanup held)
      fun r v => ∃ cleanup', r = .ok cleanup' ∧ Cleaned primary cleanup' (u ++ v) := by
  cases held with
  | none => exact ⟨cleanup, rfl, by rwa [List.append_nil]⟩
  | some lock =>
    intro answer _
    refine ⟨_, rfl, ?_⟩
    cases answer with
    | ok _ =>
      change Cleaned primary cleanup (u ++ [])
      rwa [List.append_nil]
    | error exc =>
      refine ⟨?_, ?_⟩
      · exact List.forall_mem_append.mpr ⟨h.1, List.forall_mem_singleton.mpr rfl⟩
      · rintro rfl
        have hsome := released_error cleanup exc
        constructor
        · intro hnone
          rw [hnone] at hsome
          cases hsome
        · intro hnil
          simp [tale] at hnil

theorem tells_observeEnd (error : Option Raised) : Tells (observeEnd error) fun r u =>
    u = [.settled error] ∧ r = .ok () := by
  cases error <;> exact fun _ _ => ⟨rfl, rfl⟩

/-- What a stream has told when it is over. -/
structure Told (runId : String) (maxEvents : Nat) (r : Except Raised Unit) (u : List Tale) :
    Prop where
  frames : ∃ errors ending,
    frames u = .prime :: ((encodings u).map fun p => .data p.2) ++ errors ++ ending ∧
    errors.length ≤ 1 ∧ (∀ f ∈ errors, ∃ text, f = .error text runId) ∧
    (ending = [] ∨ ending = [.done]) ∧ (r = .ok () → ending = [.done]) ∧
    (ending = [.done] → (errors = [] ↔ Unbroken u))
  encoded : (encodings u).map (·.1) = (events u).take (encodings u).length
  complete : Unbroken u → (encodings u).map (·.1) = events u
  bounded : (encodings u).length ≤ maxEvents
  settled : ∃ error, (∀ error', .settled error' ∈ u ↔ error' = error) ∧
    (error = none ↔ Unbroken u ∧ .cleanupFailed ∉ u)

section

variable {u cleaned : List Tale} (hcleaned : ∀ m ∈ cleaned, m = .cleanupFailed)
include hcleaned

theorem frames_cleaned : frames cleaned = [] := by
  apply List.filterMap_eq_nil_iff.mpr
  intro m hm
  rw [hcleaned m hm]

theorem encodings_cleaned : encodings cleaned = [] := by
  apply List.filterMap_eq_nil_iff.mpr
  intro m hm
  rw [hcleaned m hm]

theorem events_cleaned : events cleaned = [] := by
  apply List.filterMap_eq_nil_iff.mpr
  intro m hm
  rw [hcleaned m hm]

theorem mem_cleaned {m : Tale} (h : m ≠ .cleanupFailed) : m ∉ cleaned :=
  fun hm => h (hcleaned m hm)

theorem cleanupFailed_mem_cleaned : .cleanupFailed ∈ cleaned ↔ cleaned ≠ [] := by
  cases cleaned with
  | nil => simp
  | cons m cleaned => simp [hcleaned m List.mem_cons_self]

end

theorem orElse_eq_none {primary error : Option Raised} :
    (primary <|> error) = none ↔ primary = none ∧ error = none := by
  cases primary <;> simp

theorem told_of {primary pending : Option Raised} {errors ending : List SseFrame}
    {v cleaned : List Tale} {cleanup : Cleanup} {r : Except Raised Unit}
    (htried : Tried runId maxEvents primary pending errors v)
    (hcleaned : Cleaned primary cleanup cleaned) (hending : ending = [] ∨ ending = [.done])
    (hreturned : r = .ok () → ending = [.done]) (hpending : ending = [.done] → pending = none) :
    Told runId maxEvents r (.frame .prime :: v ++ (cleaned ++
      (.settled (primary <|> cleanup.streamError) :: ending.map .frame))) := by
  obtain ⟨hmarks, hkept⟩ := hcleaned
  have hexhausted := mem_cleaned hmarks (m := .exhausted) (by simp)
  have hfailed := mem_cleaned hmarks (m := .failed) (by simp)
  have hsettled (error : Option Raised) := mem_cleaned hmarks (m := .settled error) (by simp)
  have hquiet : .cleanupFailed ∉ v := fun h => (htried.quiet _ h).1 rfl
  have hunsettled (error : Option Raised) : .settled error ∉ v :=
    fun h => (htried.quiet _ h).2 error rfl
  have hunbroken : Unbroken (.frame .prime :: v ++ (cleaned ++
      (.settled (primary <|> cleanup.streamError) :: ending.map .frame))) ↔ Unbroken v := by
    simp [Unbroken, hexhausted, hfailed]
  have hframes : frames (.frame .prime :: v ++ (cleaned ++
      (.settled (primary <|> cleanup.streamError) :: ending.map .frame))) =
      .prime :: (frames v ++ ending) := by
    have hlast : frames (.settled (primary <|> cleanup.streamError) :: ending.map .frame) =
        ending := by
      rcases hending with rfl | rfl <;> rfl
    rw [frames_append, frames_append, frames_cleaned hmarks, hlast]
    rfl
  have hencodings : encodings (.frame .prime :: v ++ (cleaned ++
      (.settled (primary <|> cleanup.streamError) :: ending.map .frame))) = encodings v := by
    have hlast : encodings (.settled (primary <|> cleanup.streamError) :: ending.map .frame) =
        [] := by
      rcases hending with rfl | rfl <;> rfl
    rw [encodings_append, encodings_append, encodings_cleaned hmarks, hlast, List.append_nil,
      List.append_nil]
    rfl
  have hevents : events (.frame .prime :: v ++ (cleaned ++
      (.settled (primary <|> cleanup.streamError) :: ending.map .frame))) = events v := by
    have hlast : events (.settled (primary <|> cleanup.streamError) :: ending.map .frame) = [] := by
      rcases hending with rfl | rfl <;> rfl
    rw [events_append, events_append, events_cleaned hmarks, hlast, List.append_nil,
      List.append_nil]
    rfl
  constructor
  · refine ⟨errors, ending, ?_, htried.single, htried.named, hending, hreturned, fun h => ?_⟩
    · rw [hframes, hencodings, htried.shown.frames]
      simp
    · rw [hunbroken, ← htried.unbroken]
      exact htried.honest (hpending h)
  · rw [hencodings, hevents]
    exact htried.shown.encoded
  · rw [hencodings, hevents, hunbroken]
    exact htried.complete
  · rw [hencodings]
    exact htried.shown.bounded
  · refine ⟨primary <|> cleanup.streamError, fun error' => ?_, ?_⟩
    · simp [hsettled, hunsettled]
    · have hmem : .cleanupFailed ∉ (.frame .prime :: v ++ (cleaned ++
          (.settled (primary <|> cleanup.streamError) :: ending.map .frame))) ↔ cleaned = [] := by
        have hcleanup := cleanupFailed_mem_cleaned hmarks
        simp [hquiet, hcleanup]
      rw [hmem, hunbroken, ← htried.unbroken, orElse_eq_none]
      constructor
      · rintro ⟨hprimary, hcleanup⟩
        exact ⟨hprimary, (hkept hprimary).mp hcleanup⟩
      · rintro ⟨hprimary, hnil⟩
        exact ⟨hprimary, (hkept hprimary).mpr hnil⟩

theorem tells_sseEventStream : Tells (sseEventStream graphName runId maxEvents guarded held)
    (Told runId maxEvents) := by
  refine tells_bind tells_tryEvents (fun outcome u hu => ?_) fun e u hu => ?_
  · obtain ⟨primary, pending, errors, v, ⟨⟩, rfl, htried⟩ := hu
    refine tells_bind (tells_closeEvents primary) (fun cleanup u hu => ?_) fun e u hu => ?_
    · obtain ⟨_, ⟨⟩, hclosed⟩ := hu
      refine tells_bind (tells_releaseLock hclosed) (fun cleanup v' hu => ?_) fun e v' hu => ?_
      · obtain ⟨_, ⟨⟩, hcleaned⟩ := hu
        refine tells_bind (tells_observeEnd (primary <|> cleanup.streamError))
          (fun _ u' hu => ?_) fun e u' hu => ?_
        · obtain ⟨rfl, -⟩ := hu
          cases hraised : cleanup.raised <|> pending with
          | some exc =>
            have htold := told_of (r := .error exc) htried hcleaned (.inl rfl) (by simp) (by simp)
            change Told runId maxEvents (.error exc) (_ ++ (_ ++ (_ ++ ([_] ++ []))))
            simpa only [List.append_nil, List.append_assoc, List.map_nil, List.cons_append,
              List.nil_append] using htold
          | none =>
            have hpending : pending = none := (orElse_eq_none.mp hraised).2
            intro answer _
            have htold (r : Except Raised Unit) := told_of (r := r) htried hcleaned (.inr rfl)
              (fun _ => rfl) (fun _ => hpending)
            cases answer with
            | ok _ =>
              change Told runId maxEvents (.ok ())
                (_ ++ (_ ++ (_ ++ ([_] ++ ([.frame .done] ++ [])))))
              simpa only [List.append_nil, List.append_assoc, List.map_cons, List.map_nil,
                List.cons_append, List.nil_append] using htold (.ok ())
            | error exc =>
              change Told runId maxEvents (.error exc)
                (_ ++ (_ ++ (_ ++ ([_] ++ ([.frame .done] ++ [])))))
              simpa only [List.append_nil, List.append_assoc, List.map_cons, List.map_nil,
                List.cons_append, List.nil_append] using htold (.error exc)
        · cases hu.2
      · obtain ⟨cleanup', hr, -⟩ := hu
        cases hr
    · obtain ⟨cleanup', hr, -⟩ := hu
      cases hr
  · obtain ⟨primary, pending, errors, v, hr, -⟩ := hu
    cases hr

/-- However the graph, the encoder, the guard and the lock behave, and wherever the consumer leaves:
the frames are those of the first events, then at most one error, then the end; the run counts as
completed where the events came to their end and nothing failed. -/
theorem stream_tells {w : Transcript interface} {r : Except Raised Unit}
    (h : (sseEventStream graphName runId maxEvents guarded held).Plays Leaves w (.ofExcept r)) :
    Told runId maxEvents r (w.flatMap tale) := h.writes tells_sseEventStream

theorem stream_tells_endless : Told "r" 1 (.ok ())
    [.frame .prime, .event (.dict []), .encoded (.dict []) "\x7b\x7d", .frame (.data "\x7b\x7d"),
      .event (.dict []), .frame (.error (overflow 1) "r"),
      .settled (some (.exception (.runtimeError (overflow 1)))), .frame .done] := by
  have hleaves : ∀ o (a : Op.Ans o), endless o = some a → Leaves o a := by
    intro o a ha
    cases o with
    | frame =>
      cases ha
      trivial
    | _ => trivial
  have hplays : ∃ w : Transcript interface,
      (sseEventStream "g" "r" 1 true (some ("t", "k"))).Plays Leaves w (.ofExcept (.ok ())) ∧
      w.flatMap tale = [.frame .prime, .event (.dict []), .encoded (.dict []) "\x7b\x7d",
        .frame (.data "\x7b\x7d"), .event (.dict []), .frame (.error (overflow 1) "r"),
        .settled (some (.exception (.runtimeError (overflow 1)))), .frame .done] :=
    ⟨_, Prog.plays_answered hleaves rfl, rfl⟩
  obtain ⟨w, hw, htold⟩ := hplays
  rw [← htold]
  exact stream_tells hw

end LangGraphFunctions.Native.TrueStream

import LangGraphFunctions.Lib.Frames
import LangGraphFunctions.Lib.JsonLaws
import LangGraphFunctions.Native.Handlers

/-! The bodies of the native streams, read back frame by frame. -/

namespace LangGraphFunctions.Native

open Lib Platform

variable {γ α β : Type}

inductive StreamMark
  | yielded (event : Json.Value)
  | exhausted
  | failed

def streamMark : (o : Host.Op γ) × o.Ans → List StreamMark
  | ⟨.next, .ok (some event)⟩ => [.yielded event]
  | ⟨.next, .ok none⟩ => [.exhausted]
  | ⟨.next, .error _⟩ => [.failed]
  | ⟨.stream _, .error _⟩ => [.failed]
  | ⟨.dumps _, .error _⟩ => [.failed]
  | ⟨.ownershipGuard .., .error _⟩ => [.failed]
  | ⟨.check _, .error _⟩ => [.failed]
  | _ => []

def Encodes : (o : Host.Op γ) → o.Ans → Prop
  | .dumps value, .ok text => dumps value false = .ok text ∧ '\n' ∉ text.toList
  | _, _ => True

def events (u : List StreamMark) : List Json.Value :=
  u.filterMap fun mark => match mark with
    | .yielded event => some event
    | _ => none

def Unbroken (u : List StreamMark) : Prop := .exhausted ∈ u ∧ .failed ∉ u

/-- Frames of a first part of the events, and an error frame where something was lost. -/
structure Told (head : List Frame) (event : String) (encode : Json.Value → Json.Value) (cap : Nat)
    (u : List StreamMark) (texts : List String) (errors : List Frame) : Prop where
  encoded : List.Forall₂ (fun v text => dumps (encode v) false = .ok text)
    ((events u).take texts.length) texts
  single : errors.length ≤ 1
  named : ∀ f ∈ errors, f.event = "error"
  honest : errors = [] ↔ Unbroken u ∧ texts.length = (events u).length
  capped : texts ≠ [] →
    ((head ++ texts.map (Frame.mk event)).map fun f => f.text.utf8ByteSize).sum ≤ cap

/-- The body holds these frames and nothing else. -/
def WellFramed (head : List Frame) (event : String) (encode : Json.Value → Json.Value)
    (ending : Frame) (cap : Nat) (u : List StreamMark) (body : String) : Prop :=
  ∃ texts errors, Frame.ofBody body =
      some (head ++ texts.map (Frame.mk event) ++ errors ++ [ending]) ∧
    Told head event encode cap u texts errors

variable {u : List StreamMark} {event : String} {encode : Json.Value → Json.Value} {cap start : Nat}
  {texts : List String} {ended : Host.Result Bool} {v : Json.Value} {text : String}

def dataSize (event text : String) : Nat := (Frame.mk event text).text.utf8ByteSize

structure Collected (event : String) (encode : Json.Value → Json.Value) (cap start : Nat)
    (u : List StreamMark) (texts : List String) (ended : Host.Result Bool) : Prop where
  encoded : List.Forall₂ (fun v text => dumps (encode v) false = .ok text)
    ((events u).take texts.length) texts
  clean : ∀ text ∈ texts, '\n' ∉ text.toList
  capped : texts ≠ [] → start + (texts.map (dataSize event)).sum ≤ cap
  honest : ended = .ok true ↔ Unbroken u ∧ texts.length = (events u).length

namespace Collected

theorem exhausted : Collected event encode cap start [.exhausted] [] (.ok true) :=
  ⟨.nil, fun _ h => (by cases h), fun h => absurd rfl h, by simp [Unbroken, events]⟩

theorem broken (e : Raised Exn) : Collected event encode cap start [.failed] [] (.error e) :=
  ⟨.nil, fun _ h => (by cases h), fun h => absurd rfl h, by simp [Unbroken]⟩

theorem unencodable (v : Json.Value) (e : Raised Exn) :
    Collected event encode cap start [.yielded v, .failed] [] (.error e) :=
  ⟨.nil, fun _ h => (by cases h), fun h => absurd rfl h, by simp [Unbroken]⟩

theorem full (v : Json.Value) : Collected event encode cap start [.yielded v] [] (.ok false) :=
  ⟨.nil, fun _ h => (by cases h), fun h => absurd rfl h, by simp [Unbroken]⟩

theorem cons (h : Collected event encode cap (start + dataSize event text) u texts ended)
    (htext : dumps (encode v) false = .ok text) (hclean : '\n' ∉ text.toList)
    (hfits : start + dataSize event text ≤ cap) :
    Collected event encode cap start (.yielded v :: u) (text :: texts) ended := by
  refine ⟨.cons htext h.encoded, List.forall_mem_cons.mpr ⟨hclean, h.clean⟩, fun _ => ?_, ?_⟩
  · rw [List.map_cons, List.sum_cons]
    cases texts with
    | nil => simpa using hfits
    | cons text' texts =>
      have hcapped := h.capped (by simp)
      omega
  · rw [h.honest]
    have hunbroken : Unbroken (.yielded v :: u) ↔ Unbroken u := by simp [Unbroken]
    have hevents : events (.yielded v :: u) = v :: events u := rfl
    rw [hunbroken, hevents, List.length_cons, List.length_cons, Nat.add_right_cancel_iff]

end Collected

def errorPayload (error runId : String) : String :=
  jsonText .spaced (.dict [(.str "error", .str error), (.str "request_id", .str runId)])

theorem errorFrame_eq (error runId : String) :
    errorFrame error runId = (Frame.mk "error" (errorPayload error runId)).text :=
  Frame.text_eq _ (by decide)

theorem dataFrame_eq (text : String) : dataFrame text = (Frame.mk "data" text).text :=
  Frame.text_eq _ (by decide)

theorem endFrame_eq : endFrame = (Frame.mk "end" "\x7b\x7d").text := by decide

def overflowMessage (cap : Nat) : String :=
  s!"stream response exceeded max buffered size ({cap} bytes)"

def cutFrames (cap : Nat) (runId : String) : Host.Result Bool → List Frame
  | .ok false => [⟨"error", errorPayload (overflowMessage cap) runId⟩]
  | _ => []

theorem collect_collected (cap : Nat) (runId : String) (fuel : Nat) (buffer : Buffer) :
    (collect cap runId fuel buffer : Host γ _).Writes Encodes streamMark fun r u =>
      ∃ texts ended bytes, Collected "data" id cap buffer.bytes u texts ended ∧
        r = .ok (⟨buffer.chunks ++ (texts.map (Frame.mk "data") ++
          cutFrames cap runId ended).map Frame.text, bytes⟩, ended) := by
  induction fuel generalizing buffer with
  | zero => exact fun a _ => a.elim
  | succ fuel ih =>
    intro a ha
    cases a with
    | error e =>
      exact ⟨[], .error e, buffer.bytes, .broken e, by simp [cutFrames]⟩
    | ok a =>
      cases a with
      | none => exact ⟨[], .ok true, buffer.bytes, .exhausted, by simp [cutFrames]⟩
      | some v =>
        intro b hb
        cases b with
        | error e => exact ⟨[], .error e, buffer.bytes, .unencodable v e, by simp [cutFrames]⟩
        | ok text =>
          obtain ⟨htext, hclean⟩ := hb
          by_cases hfull : cap < buffer.bytes + (dataFrame text).utf8ByteSize
          · have happend : appendChunk cap runId buffer (dataFrame text) =
                (false, { buffer with
                  chunks := buffer.chunks ++ [errorFrame (overflowMessage cap) runId] }) :=
              if_pos hfull
            dsimp only [Prog.bind]
            rw [happend]
            refine ⟨[], .ok false, buffer.bytes, .full v, ?_⟩
            rw [errorFrame_eq]
            rfl
          · have happend : appendChunk cap runId buffer (dataFrame text) =
                (true, ⟨buffer.chunks ++ [dataFrame text],
                  buffer.bytes + (dataFrame text).utf8ByteSize⟩) := if_neg hfull
            dsimp only [Prog.bind]
            rw [happend]
            refine (ih _).mono ?_
            rintro r u ⟨texts, ended, bytes, hcollected, rfl⟩
            rw [dataFrame_eq] at hfull hcollected
            refine ⟨text :: texts, ended, bytes, hcollected.cons htext hclean (Nat.not_lt.mp hfull),
              ?_⟩
            rw [dataFrame_eq]
            simp

theorem not_mem_jsonText {style : Json.Style} {v : Json.Value} (h : Json.IsJson v) :
    '\n' ∉ (jsonText style v).toList := by
  rw [jsonText, Json.dumps]
  cases htext : Json.emit style true v with
  | error e => exact fun hmem => (by cases hmem)
  | ok text =>
    change '\n' ∉ (String.ofList text).toList
    rw [String.toList_ofList]
    exact fun hmem => absurd (Json.printable_emit h htext _ hmem) (by decide)

theorem not_mem_errorPayload (error runId : String) : '\n' ∉ (errorPayload error runId).toList := by
  refine not_mem_jsonText (.dict (by simp) (by simp) ?_)
  simp only [List.forall_mem_cons]
  exact ⟨.str, .str, List.forall_mem_nil _⟩

theorem events_append (u u' : List StreamMark) : events (u ++ u') = events u ++ events u' :=
  List.filterMap_append

def Silent (r : Host.Result α) (u : List StreamMark) : Prop :=
  (∃ e, r = .error e ∧ u = [.failed]) ∨ ∃ a, r = .ok a ∧ u = []

theorem silent_perform {o : Host.Op γ} {f : o.Ans → Host.Result α}
    (h : ∀ a, Encodes o a → Silent (f a) (streamMark ⟨o, a⟩)) :
    ((Host.perform o).bind fun a => .ofExcept (f a)).Writes Encodes streamMark Silent := by
  intro a ha
  refine Prog.writes_ofExcept ?_
  rw [List.append_nil]
  exact h a ha

theorem guardRunConfig_silent {graphName : String} {threadId : Option Json.Value}
    {token : Option String} {config : Option (RunConfig γ)} :
    (Host.guardRunConfig graphName threadId token config).Writes Encodes streamMark Silent := by
  have hnone {guard : Option γ} : (Prog.ret guard : Host γ _).Writes Encodes streamMark Silent :=
    .inr ⟨_, rfl, rfl⟩
  have hguard : (Host.ownershipGuardFor (γ := γ) graphName threadId token).Writes Encodes streamMark
      Silent := by
    cases threadId with
    | none => exact hnone
    | some threadId =>
      cases token with
      | none => exact hnone
      | some token =>
        rw [Host.ownershipGuardFor]
        split
        · exact hnone
        · refine silent_perform fun a _ => ?_
          cases a with
          | error e => exact .inl ⟨e, rfl, rfl⟩
          | ok guard => exact .inr ⟨guard, rfl, rfl⟩
  refine Prog.writes_bind hguard (fun guard u hu => ?_) fun e u hu => ?_
  · obtain ⟨_, ⟨⟩, -⟩ | ⟨_, -, rfl⟩ := hu
    exact .inr ⟨_, rfl, rfl⟩
  · obtain ⟨_, -, rfl⟩ | ⟨_, ⟨⟩, -⟩ := hu
    exact .inl ⟨e, rfl, rfl⟩

theorem checkOwnershipGuard_silent {guard : Option γ} :
    (Host.checkOwnershipGuard guard).Writes Encodes streamMark Silent := by
  cases guard with
  | none => exact .inr ⟨(), rfl, rfl⟩
  | some guard =>
    refine silent_perform fun a _ => ?_
    cases a with
    | error e => exact .inl ⟨e, rfl, rfl⟩
    | ok => exact .inr ⟨(), rfl, rfl⟩

structure Gathered (cap : Nat) (u : List StreamMark) (texts : List String) (errors : List Frame)
    (outcome : Host.Result (Option Exn)) : Prop where
  encoded : List.Forall₂ (fun v text => dumps v false = .ok text)
    ((events u).take texts.length) texts
  clean : ∀ text ∈ texts, '\n' ∉ text.toList
  capped : texts ≠ [] → (texts.map (dataSize "data")).sum ≤ cap
  honest : outcome = .ok none ↔ Unbroken u ∧ texts.length = (events u).length
  whole : (∀ exc, outcome ≠ .ok (some exc)) → errors = []
  cut : ∀ exc, outcome = .ok (some exc) → ∃ payload, errors = [⟨"error", payload⟩] ∧
    '\n' ∉ payload.toList

theorem Gathered.unopened (cap : Nat) (e : Raised Exn) : Gathered cap [.failed] [] [] (.error e) :=
  ⟨.nil, fun _ h => (by cases h), fun h => absurd rfl h, by simp [Unbroken], fun _ => rfl,
    fun _ h => (by cases h)⟩

theorem Collected.gathered {u' : List StreamMark} {errors : List Frame}
    {outcome : Host.Result (Option Exn)} (h : Collected "data" id cap 0 u texts ended)
    (hu : events u' = []) (honest : outcome = .ok none ↔ Unbroken (u ++ u') ∧
      texts.length = (events u).length) (whole : (∀ exc, outcome ≠ .ok (some exc)) → errors = [])
    (cut : ∀ exc, outcome = .ok (some exc) → ∃ payload, errors = [⟨"error", payload⟩] ∧
      '\n' ∉ payload.toList) : Gathered cap (u ++ u') texts errors outcome := by
  have hevents : events (u ++ u') = events u := by rw [events_append, hu, List.append_nil]
  refine ⟨hevents ▸ h.encoded, h.clean, fun htexts => ?_, hevents ▸ honest, whole, cut⟩
  have hcapped := h.capped htexts
  rwa [Nat.zero_add] at hcapped

theorem Collected.not_honest (h : Collected event encode cap start u texts ended)
    (hne : ended ≠ .ok true) : ¬(Unbroken (u ++ []) ∧ texts.length = (events u).length) := by
  rw [List.append_nil]
  exact fun hhonest => hne (h.honest.mpr hhonest)

theorem streamEvents_gathered (fuel : Nat) (env : Env) (reg : Registration) (run : Ready)
    (threadId : Option Json.Value) (lockToken : Option String) :
    (streamEvents fuel env reg run threadId lockToken : Host γ _).Writes Encodes streamMark
      fun r u => ∃ texts errors bytes opened outcome,
        r = .ok ⟨⟨(texts.map (Frame.mk "data") ++ errors).map Frame.text, bytes⟩, opened, outcome⟩ ∧
          Gathered env.limits.maxStreamResponseBytes u texts errors outcome := by
  refine Prog.writes_bind (Prog.writes_attempt (S := Silent) guardRunConfig_silent
    (T := fun r u => ∃ r', r = .ok r' ∧ Silent r' u) fun r u h => ⟨r, rfl, h⟩) ?_ ?_
  · rintro guarded u ⟨_, ⟨⟩, hu⟩
    obtain ⟨e, rfl, rfl⟩ | ⟨⟨runConfig, guard⟩, rfl, rfl⟩ := hu
    · exact ⟨[], [], 0, false, .error e, rfl, .unopened _ e⟩
    · intro answer _
      cases answer with
      | error e => exact ⟨[], [], 0, false, .error e, rfl, .unopened _ e⟩
      | ok =>
        change (Prog.bind (collect env.limits.maxStreamResponseBytes run.ctx.runId fuel ⟨[], 0⟩)
          _).Writes Encodes streamMark _
        refine Prog.writes_bind (collect_collected _ _ fuel ⟨[], 0⟩) ?_ ?_
        · rintro collected u ⟨texts, ended, bytes, hcollected, ⟨⟩⟩
          cases ended with
          | error e =>
            refine ⟨texts, [], bytes, true, .error e, rfl, hcollected.gathered rfl ?_ (fun _ => rfl)
              fun _ h => (by cases h)⟩
            exact ⟨fun h => (by cases h), fun h => absurd h (hcollected.not_honest (by simp))⟩
          | ok finished =>
            cases finished with
            | false =>
              refine ⟨texts, cutFrames _ run.ctx.runId (.ok false), bytes, true, .ok (some _), rfl,
                hcollected.gathered rfl ?_ (fun h => absurd rfl (h _)) fun _ _ =>
                  ⟨_, rfl, not_mem_errorPayload _ _⟩⟩
              exact ⟨fun h => (by cases h), fun h => absurd h (hcollected.not_honest (by simp))⟩
            | true =>
              refine Prog.writes_bind (Prog.writes_attempt (S := Silent) checkOwnershipGuard_silent
                (T := fun r u => ∃ r', r = .ok r' ∧ Silent r' u) fun r u h => ⟨r, rfl, h⟩) ?_ ?_
              · rintro checked u' ⟨_, ⟨⟩, hu'⟩
                obtain ⟨e, rfl, rfl⟩ | ⟨_, rfl, rfl⟩ := hu'
                · refine ⟨texts, [], bytes, true, .error e, rfl, hcollected.gathered rfl ?_
                    (fun _ => rfl) fun _ h => (by cases h)⟩
                  refine ⟨fun h => (by cases h), fun h => absurd ?_ h.1.2⟩
                  exact List.mem_append_right _ (List.mem_singleton_self _)
                · refine ⟨texts, [], bytes, true, .ok none, rfl, hcollected.gathered rfl ?_
                    (fun _ => rfl) fun _ h => (by cases h)⟩
                  exact ⟨fun _ => (List.append_nil u).symm ▸ hcollected.honest.mp rfl, fun _ => rfl⟩
              · rintro e u ⟨_, ⟨⟩, -⟩
        · rintro e u ⟨_, _, _, _, ⟨⟩⟩
  · rintro e u ⟨_, ⟨⟩, -⟩

theorem exceptStream_told {env : Env} {ctx : RunContext} {errors : List Frame}
    {outcome : Host.Result (Option Exn)} {bytes : Nat} {opened : Bool} {out : Buffer × Option Exn}
    (h : Gathered env.limits.maxStreamResponseBytes u texts errors outcome)
    (hout : exceptStream env ctx ⟨⟨(texts.map (Frame.mk "data") ++ errors).map Frame.text, bytes⟩,
      opened, outcome⟩ = .ok out) :
    ∃ errors, out.1.chunks = (texts.map (Frame.mk "data") ++ errors).map Frame.text ∧
      (∀ f ∈ errors, f.Clean) ∧
        Told [] "data" id env.limits.maxStreamResponseBytes u texts errors := by
  have hcapped (htexts : texts ≠ []) :
      (([] ++ texts.map (Frame.mk "data")).map fun f : Frame => f.text.utf8ByteSize).sum ≤
        env.limits.maxStreamResponseBytes := by
    rw [List.nil_append, List.map_map]
    exact h.capped htexts
  have hone {payload : String} (hpayload : '\n' ∉ payload.toList)
      (hhonest : ¬(Unbroken u ∧ texts.length = (events u).length)) :
      (∀ f ∈ [Frame.mk "error" payload], f.Clean) ∧
        Told [] "data" id env.limits.maxStreamResponseBytes u texts [Frame.mk "error" payload] := by
    refine ⟨?_, h.encoded, Nat.le_refl 1, ?_, ⟨fun h => (by cases h), fun h => absurd h hhonest⟩,
      hcapped⟩
    · intro f hf
      cases List.mem_singleton.mp hf
      exact ⟨(by decide : '\n' ∉ "error".toList), hpayload⟩
    · intro f hf
      cases List.mem_singleton.mp hf
      rfl
  cases outcome with
  | ok streamError =>
    cases hout
    cases streamError with
    | none =>
      obtain rfl := h.whole fun _ h => (by cases h)
      exact ⟨[], rfl, List.forall_mem_nil _, h.encoded, Nat.zero_le 1, List.forall_mem_nil _,
        ⟨fun _ => h.honest.mp rfl, fun _ => rfl⟩, hcapped⟩
    | some exc =>
      obtain ⟨payload, rfl, hpayload⟩ := h.cut exc rfl
      obtain ⟨hclean, htold⟩ := hone hpayload fun hhonest => (by cases h.honest.mpr hhonest)
      exact ⟨_, rfl, hclean, htold⟩
  | error e =>
    obtain rfl := h.whole fun _ h => (by cases h)
    cases e with
    | exception exc =>
      cases hout
      have hnot : ¬(Unbroken u ∧ texts.length = (events u).length) := fun hhonest =>
        (by cases h.honest.mpr hhonest)
      rw [List.append_nil]
      dsimp only [appendChunk]
      split
      · obtain ⟨hclean, htold⟩ := hone (not_mem_errorPayload (overflowMessage
          env.limits.maxStreamResponseBytes) ctx.runId) hnot
        refine ⟨_, ?_, hclean, htold⟩
        rw [List.map_append, List.map_singleton, ← errorFrame_eq]
        rfl
      · obtain ⟨hclean, htold⟩ := hone (not_mem_errorPayload "stream processing failed" ctx.runId) hnot
        refine ⟨_, ?_, hclean, htold⟩
        rw [List.map_append, List.map_singleton, ← errorFrame_eq]
    | _ => cases hout

def endOfStream : Frame := ⟨"end", "\x7b\x7d"⟩

theorem wellFramed_streamResponse {ctx : RunContext} {buffer : Buffer} {errors : List Frame}
    (hchunks : buffer.chunks = (texts.map (Frame.mk "data") ++ errors).map Frame.text)
    (htexts : ∀ text ∈ texts, '\n' ∉ text.toList) (herrors : ∀ f ∈ errors, f.Clean)
    (h : Told [] "data" id cap u texts errors) :
    WellFramed [] "data" id endOfStream cap u (streamResponse ctx buffer).body := by
  refine ⟨texts, errors, ?_, h⟩
  have hbody : (streamResponse ctx buffer).body = String.join
      (([] ++ texts.map (Frame.mk "data") ++ errors ++ [endOfStream]).map Frame.text) := by
    change String.join (buffer.chunks ++ [endFrame]) = _
    rw [List.nil_append, List.map_append, List.map_singleton, hchunks, endFrame_eq]
    rfl
  rw [hbody]
  refine Frame.ofBody_join fun f hf => ?_
  rw [List.nil_append, List.mem_append, List.mem_append, List.mem_map, List.mem_singleton] at hf
  obtain (⟨text, htext, rfl⟩ | hf) | rfl := hf
  · exact ⟨(by decide : '\n' ∉ "data".toList), htexts text htext⟩
  · exact herrors f hf
  · exact ⟨by decide, by decide⟩

variable {env : Env} {reg : Registration} {req : HttpRequest} {run : Ready}

def Quiet (p : Host γ α) : Prop := p.Writes Encodes streamMark fun _ u => u = []

theorem quiet_ret (a : α) : Quiet (.ret a : Host γ α) := rfl

theorem quiet_perform {o : Host.Op γ} (h : ∀ a, streamMark ⟨o, a⟩ = []) : Quiet (Host.perform o) := by
  intro a _
  change streamMark ⟨o, a⟩ ++ [] = []
  rw [h, List.append_nil]

theorem quiet_bind {p : Host γ α} {f : α → Host γ β} {T : Host.Result β → List StreamMark → Prop}
    (hp : Quiet p) (hf : ∀ a, (f a).Writes Encodes streamMark T) (herror : ∀ e, T (.error e) []) :
    (p.bind f).Writes Encodes streamMark T := by
  refine Prog.writes_bind hp (fun a u hu => ?_) fun e u hu => ?_
  · subst hu
    exact hf a
  · subst hu
    exact herror e

theorem quiet_raised {o : Host.Op γ} {f : o.Ans → Host.Result α} (h : ∀ a, streamMark ⟨o, a⟩ = []) :
    Quiet ((Host.perform o).bind fun a => .ofExcept (f a)) :=
  quiet_bind (quiet_perform h) (fun _ => Prog.writes_ofExcept rfl) fun _ => rfl

theorem quiet_observe (event : RunEvent) : Quiet (Host.observe event : Host γ Unit) :=
  quiet_perform fun _ => rfl

theorem quiet_acquire (graphName : String) (threadId : Json.Value) (timeout : Rat) :
    Quiet (Host.acquire graphName threadId timeout : Host γ _) :=
  quiet_raised fun _ => rfl

theorem quiet_release (graphName : String) (threadId : Json.Value) (token : String) :
    Quiet (Host.release graphName threadId token : Host γ _) :=
  quiet_raised fun _ => rfl

theorem quiet_requestIdFromHeaders : Quiet (requestIdFromHeaders req : Host γ _) := by
  rw [requestIdFromHeaders]
  split
  · split
    · exact quiet_ret _
    · exact quiet_perform fun _ => rfl
  · exact quiet_perform fun _ => rfl

def Answered (cap : Nat) (r : Host.Result HttpResponse) (u : List StreamMark) : Prop :=
  ∀ response, r = .ok response → response.mimetype = "text/event-stream" →
    WellFramed [] "data" id endOfStream cap u response.body

theorem Answered.error (cap : Nat) (e : Raised Exn) : Answered cap (.error e) u :=
  fun _ h => (by cases h)

theorem Answered.json {response : HttpResponse} (h : response.mimetype = "application/json") :
    Answered cap (.ok response) u := by
  rintro _ ⟨⟩ hstream
  exact absurd (h.symm.trans hstream) (by decide)

def Refused (P : β → List StreamMark → Prop) (r : Host.Result (HttpResponse ⊕ β))
    (u : List StreamMark) : Prop :=
  (∀ response, r = .ok (.inl response) → response.mimetype = "application/json") ∧
    ∀ out, r = .ok (.inr out) → P out u

theorem reject_refused {ctx : RunContext} {reason : RunRejectedReason} {response : ErrorResponse}
    (P : β → List StreamMark → Prop) :
    (.inl <$> reject ctx reason response : Host γ (HttpResponse ⊕ β)).Writes Encodes streamMark
      (Refused P) := by
  intro a _
  refine ⟨fun response h => ?_, fun out h => (by cases h)⟩
  cases h
  rfl

theorem reject_answered {ctx : RunContext} {reason : RunRejectedReason} {response : ErrorResponse} :
    (reject ctx reason response : Host γ _).Writes Encodes streamMark (Answered cap) :=
  fun _ _ => Answered.json rfl

theorem quiet_authorizationStatus {method : Method} {authorize : Bool} {threadId : Option String} :
    Quiet (method.authorizationStatus authorize reg threadId : Host γ _) := by
  have hask (status : Host.Result Verdict → Host.Result (Option Nat)) :
      Quiet (askAuthorizer status authorize reg threadId : Host γ _) := by
    rw [askAuthorizer]
    split
    · exact fun _ _ => Prog.writes_ofExcept rfl
    · exact quiet_ret _
  cases method <;> exact hask _

theorem preflight_refused (method : Method) (withStreamMode : Bool) (ctx : RunContext) :
    (preflight env reg req method withStreamMode ctx : Host γ _).Writes Encodes streamMark
      (Refused fun _ u => u = []) := by
  rw [preflight]
  split
  · exact reject_refused _
  · dsimp only
    split
    · exact reject_refused _
    · refine quiet_bind quiet_authorizationStatus (fun status => ?_)
        fun _ => ⟨fun _ h => (by cases h), fun _ h => (by cases h)⟩
      rw [proceed.eq_def]
      cases status with
      | some status => exact reject_refused _
      | none =>
        dsimp only
        split
        · exact reject_refused _
        · exact ⟨fun _ h => (by cases h), fun _ _ => rfl⟩

theorem answered_preflight {method : Method} {withStreamMode : Bool} {ctx : RunContext}
    {f : HttpResponse ⊕ Ready → Host γ HttpResponse}
    (hinl : ∀ response, f (.inl response) = .ret response)
    (hinr : ∀ run, (f (.inr run)).Writes Encodes streamMark (Answered cap)) :
    ((preflight env reg req method withStreamMode ctx).bind f).Writes Encodes streamMark
      (Answered cap) := by
  refine Prog.writes_bind (preflight_refused method withStreamMode ctx) (fun outcome u hu => ?_)
    fun e u _ => Answered.error cap e
  cases outcome with
  | inl response =>
    rw [hinl]
    exact Answered.json (hu.1 response rfl)
  | inr run =>
    rw [hu.2 run rfl]
    exact hinr run

def Final (cap : Nat) (out : Buffer × Option Exn) (u : List StreamMark) : Prop :=
  ∃ texts errors, out.1.chunks = (texts.map (Frame.mk "data") ++ errors).map Frame.text ∧
    (∀ text ∈ texts, '\n' ∉ text.toList) ∧ (∀ f ∈ errors, f.Clean) ∧
      Told [] "data" id cap u texts errors

theorem finishStream_answered {ctx : RunContext} {out : Buffer × Option Exn} (h : Final cap out u) :
    (finishStream ctx (.inr out) : Host γ _).Writes Encodes streamMark
      fun r v => Answered cap r (u ++ v) := by
  obtain ⟨texts, errors, hchunks, htexts, herrors, htold⟩ := h
  obtain ⟨buffer, streamError⟩ := out
  have hanswered : Answered cap (.ok (streamResponse ctx buffer)) (u ++ []) := by
    rintro _ ⟨⟩ -
    rw [List.append_nil]
    exact wellFramed_streamResponse hchunks htexts herrors htold
  cases streamError <;> exact fun _ _ => hanswered

theorem streamEvents_final (fuel : Nat) (env : Env) (reg : Registration) (run : Ready)
    (threadId : Option Json.Value) (lockToken : Option String) :
    (streamEvents fuel env reg run threadId lockToken : Host γ _).Writes Encodes streamMark
      fun r u => ∀ streamed, r = .ok streamed → ∀ out,
        exceptStream env run.ctx streamed = .ok out →
          Final env.limits.maxStreamResponseBytes out u := by
  refine (streamEvents_gathered fuel env reg run threadId lockToken).mono ?_
  rintro r u ⟨texts, errors, bytes, opened, outcome, rfl, hgathered⟩ streamed hstreamed out hout
  cases hstreamed
  obtain ⟨errors, hchunks, herrors, htold⟩ := exceptStream_told hgathered hout
  exact ⟨texts, errors, hchunks, hgathered.clean, herrors, htold⟩

theorem ofExcept_final {env : Env} {ctx : RunContext} {streamed : Streamed}
    (h : ∀ out, exceptStream env ctx streamed = .ok out →
      Final env.limits.maxStreamResponseBytes out u) :
    (Prog.ofExcept (exceptStream env ctx streamed) : Host γ _).Writes Encodes streamMark
      fun r v => ∀ out, r = .ok out → Final env.limits.maxStreamResponseBytes out (u ++ v) := by
  refine Prog.writes_ofExcept fun out hout => ?_
  rw [List.append_nil]
  exact h out hout

theorem quiet_releaseSync {threadId lockToken : Option String} :
    Quiet (releaseSync reg threadId lockToken : Host γ _) := by
  cases lockToken with
  | none => cases threadId <;> exact quiet_ret _
  | some lockToken =>
    cases threadId with
    | none => exact quiet_ret _
    | some threadId => exact quiet_release _ _ _

theorem quiet_acquireSync {threadId : Option String} :
    Quiet (acquireSync reg threadId : Host γ _) := by
  cases threadId with
  | none => exact quiet_ret _
  | some threadId =>
    rw [acquireSync]
    split
    · exact quiet_acquire _ _ _
    · exact quiet_ret _

theorem writes_andFinally_quiet {p : Host γ α} {cleanup : Host γ Unit}
    {P : α → List StreamMark → Prop}
    (hp : p.Writes Encodes streamMark fun r u => ∀ a, r = .ok a → P a u) (hc : Quiet cleanup) :
    (p.andFinally cleanup).Writes Encodes streamMark fun r u => ∀ a, r = .ok a → P a u := by
  refine Prog.writes_andFinally hp hc (fun r u v hu hv a ha => ?_) fun r e u v _ _ a ha => (by cases ha)
  have hv : v = [] := hv
  rw [hv, List.append_nil]
  exact hu a ha

theorem handleStream_answered (fuel : Nat) (env : Env) (reg : Registration) (req : HttpRequest) :
    (handleStream fuel env reg req : Host γ _).Writes Encodes streamMark
      (Answered env.limits.maxStreamResponseBytes) := by
  refine quiet_bind quiet_requestIdFromHeaders (fun runId => ?_) (Answered.error _)
  dsimp only
  split
  · exact reject_answered
  split
  · exact reject_answered
  refine answered_preflight (fun _ => rfl) fun run => ?_
  refine quiet_bind quiet_acquireSync (fun lockToken => ?_) (Answered.error _)
  split
  · exact reject_answered
  refine quiet_bind (quiet_observe _) (fun _ => ?_) (Answered.error _)
  have hblock : (do
      let streamed ← streamEvents fuel env reg run (run.threadId.map .str) lockToken
      .ofExcept (exceptStream env run.ctx streamed) : Host γ _).Writes Encodes streamMark
        fun r u => ∀ out, r = .ok out → Final env.limits.maxStreamResponseBytes out u :=
    Prog.writes_bind (streamEvents_final fuel env reg run (run.threadId.map .str) lockToken)
      (fun streamed u hu => ofExcept_final (hu streamed rfl)) fun e u _ out h => (by cases h)
  refine Prog.writes_bind (writes_andFinally_quiet hblock quiet_releaseSync) (fun out u hu => ?_)
    fun e u _ => Answered.error _ e
  exact finishStream_answered (hu out rfl)

theorem streamLocked_refused (fuel : Nat) (env : Env) (reg : Registration) (run : Ready)
    (lockThreadId : Option Json.Value) (lockToken : Option String) :
    (streamLocked fuel env reg run lockThreadId lockToken : Host γ _).Writes Encodes streamMark
      (Refused (Final env.limits.maxStreamResponseBytes)) := by
  have herror (e : Raised Exn) (u : List StreamMark) :
      Refused (Final env.limits.maxStreamResponseBytes) (.error e) u :=
    ⟨fun _ h => (by cases h), fun _ h => (by cases h)⟩
  rw [streamLocked]
  split
  · exact reject_refused _
  refine quiet_bind (quiet_observe _) (fun _ => ?_) fun e => herror e _
  refine Prog.writes_bind (streamEvents_final fuel env reg run lockThreadId lockToken)
    (fun streamed u hu => ?_) fun e u _ => herror e u
  have hfinal : (.inr <$> Prog.ofExcept (exceptStream env run.ctx streamed) : Host γ _).Writes Encodes
      streamMark fun r v => Refused (Final env.limits.maxStreamResponseBytes) r (u ++ v) := by
    refine Prog.writes_bind (ofExcept_final (hu streamed rfl)) (fun out v hv => ?_)
      fun e v _ => herror e _
    refine ⟨fun _ h => (by cases h), fun out' h => ?_⟩
    cases h
    rw [List.append_nil]
    exact hv out rfl
  split
  · refine quiet_bind (quiet_raised fun _ => rfl) (fun _ => hfinal) fun e => herror e _
  · exact hfinal

theorem asyncThreadLock_refused {P : β → List StreamMark → Prop} (graphName : String)
    (threadId : Option Json.Value) (timeout : Rat)
    {body : Option String → Host γ (HttpResponse ⊕ β)}
    (h : ∀ token, (body token).Writes Encodes streamMark (Refused P)) :
    (Host.asyncThreadLock graphName threadId timeout body).Writes Encodes streamMark (Refused P) := by
  have herror (e : Raised Exn) (u : List StreamMark) : Refused P (.error e) u :=
    ⟨fun _ h => (by cases h), fun _ h => (by cases h)⟩
  cases threadId with
  | none => exact h none
  | some threadId =>
    refine quiet_bind (quiet_acquire _ _ _) (fun token => ?_) fun e => herror e _
    have hfinally {cleanup : Host γ Unit} (hc : Quiet cleanup) :
        ((body token).andFinally cleanup).Writes Encodes streamMark (Refused P) := by
      refine Prog.writes_andFinally (h token) hc (fun r u v hu hv => ?_) fun r e u v _ _ =>
        herror e _
      have hv : v = [] := hv
      rwa [hv, List.append_nil]
    cases token with
    | none => exact hfinally (quiet_ret _)
    | some token => exact hfinally (quiet_release _ _ _)

theorem handleStreamAsync_answered (fuel : Nat) (env : Env) (reg : Registration)
    (req : HttpRequest) : (handleStreamAsync fuel env reg req : Host γ _).Writes Encodes streamMark
      (Answered env.limits.maxStreamResponseBytes) := by
  refine quiet_bind quiet_requestIdFromHeaders (fun runId => ?_) (Answered.error _)
  dsimp only
  split
  · exact reject_answered
  split
  · exact reject_answered
  refine answered_preflight (fun _ => rfl) fun run => ?_
  refine Prog.writes_bind (asyncThreadLock_refused _ _ _ fun token =>
    streamLocked_refused fuel env reg run _ token) (fun outcome u hu => ?_)
    fun e u _ => Answered.error _ e
  cases outcome with
  | inl response => exact Answered.json (hu.1 response rfl)
  | inr out => exact finishStream_answered (hu.2 out rfl)

end LangGraphFunctions.Native

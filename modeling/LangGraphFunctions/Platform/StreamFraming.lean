import LangGraphFunctions.Native.Framing
import LangGraphFunctions.Native.Parity
import LangGraphFunctions.Platform.Streams

/-! The bodies of every stream, read back frame by frame. -/

namespace LangGraphFunctions.Platform

open Lib Native

variable {γ α : Type} {u : List StreamMark} {maxBytes : Nat} {run : StreamRun}

def metadataFrame (runId : String) : Frame :=
  ⟨"metadata", jsonText .spaced (.dict [(.str "run_id", .str runId)])⟩

def errorEvent (message : String) (requestId : Option String) : Frame :=
  ⟨"error", jsonText .spaced (errorData message requestId)⟩

def endEvent : Frame := ⟨"end", "null"⟩

theorem formatMetadataEvent_eq (runId : String) :
    formatMetadataEvent runId = (metadataFrame runId).text := Frame.text_eq _ (by decide)

theorem formatErrorEvent_eq (message : String) (requestId : Option String) :
    formatErrorEvent message requestId = (errorEvent message requestId).text :=
  Frame.text_eq _ (by decide)

theorem formatDataEvent_eq (streamMode text : String) :
    formatDataEvent streamMode text = (Frame.mk streamMode text).text := by
  refine @Frame.text_eq ("event: " ++ streamMode ++ "\ndata: ") streamMode text ?_
  have hevent : "event: ".toList = Frame.eventMarker := by decide
  have hdata : "\ndata: ".toList = '\n' :: Frame.dataMarker := by decide
  rw [String.toList_append, String.toList_append, hevent, hdata]

theorem formatEndEvent_eq : formatEndEvent = endEvent.text := by decide

theorem clean_metadataFrame (runId : String) : (metadataFrame runId).Clean := by
  refine ⟨(by decide : '\n' ∉ "metadata".toList), not_mem_jsonText (.dict (by simp) (by simp) ?_)⟩
  simp only [List.forall_mem_cons]
  exact ⟨.str, List.forall_mem_nil _⟩

theorem clean_errorEvent (message : String) (requestId : Option String) :
    (errorEvent message requestId).Clean := by
  refine ⟨(by decide : '\n' ∉ "error".toList), not_mem_jsonText ?_⟩
  cases requestId with
  | none =>
    refine .dict (by simp) (by simp) ?_
    simp only [List.forall_mem_cons]
    exact ⟨.str, List.forall_mem_nil _⟩
  | some requestId =>
    refine .dict (by simp) (by simp) ?_
    simp only [List.forall_mem_cons]
    exact ⟨.str, .str, List.forall_mem_nil _⟩

theorem clean_streamMode {streamMode : String} (h : streamMode ∈ streamModes) :
    '\n' ∉ streamMode.toList := by
  have hall : streamModes.all (fun mode => !mode.toList.elem '\n') = true := by decide
  intro hmem
  have hmode := List.all_eq_true.mp hall streamMode h
  rw [List.elem_eq_true_of_mem hmem] at hmode
  cases hmode

def cutEvents (maxBytes : Nat) : Host.Result Bool → List Frame
  | .ok false => [errorEvent (overflowError maxBytes) none, endEvent]
  | _ => []

theorem checkStreamOverflow_full {buffer : Buffer} {chunkBytes : Nat}
    (h : maxBytes < buffer.bytes + chunkBytes) : checkStreamOverflow buffer chunkBytes maxBytes =
      (true, ⟨buffer.chunks ++ (cutEvents maxBytes (.ok false)).map Frame.text, buffer.bytes⟩) := by
  rw [checkStreamOverflow, if_pos h, formatErrorEvent_eq, formatEndEvent_eq]
  rfl

theorem checkStreamOverflow_fits {buffer : Buffer} {chunkBytes : Nat}
    (h : ¬maxBytes < buffer.bytes + chunkBytes) :
    checkStreamOverflow buffer chunkBytes maxBytes = (false, buffer) := if_neg h

theorem bufferEvents_collected (maxBytes : Nat) (streamMode : String) (fuel : Nat)
    (buffer : Buffer) :
    (bufferEvents maxBytes streamMode fuel buffer : Host γ _).Writes Encodes streamMark fun r u =>
      ∃ texts ended bytes, Collected streamMode dataPayload maxBytes buffer.bytes u texts ended ∧
        r = .ok (⟨buffer.chunks ++ (texts.map (Frame.mk streamMode) ++
          cutEvents maxBytes ended).map Frame.text, bytes⟩, ended) := by
  induction fuel generalizing buffer with
  | zero => exact fun a _ => a.elim
  | succ fuel ih =>
    intro a ha
    cases a with
    | error e => exact ⟨[], .error e, buffer.bytes, .broken e, by simp [cutEvents]⟩
    | ok a =>
      cases a with
      | none => exact ⟨[], .ok true, buffer.bytes, .exhausted, by simp [cutEvents]⟩
      | some v =>
        intro b hb
        cases b with
        | error e => exact ⟨[], .error e, buffer.bytes, .unencodable v e, by simp [cutEvents]⟩
        | ok text =>
          obtain ⟨htext, hclean⟩ := hb
          dsimp only [Prog.bind]
          by_cases hfull : maxBytes <
              buffer.bytes + (formatDataEvent streamMode text).utf8ByteSize
          · rw [checkStreamOverflow_full hfull]
            exact ⟨[], .ok false, buffer.bytes, .full v, rfl⟩
          · rw [checkStreamOverflow_fits hfull]
            refine (ih _).mono ?_
            rintro r u ⟨texts, ended, bytes, hcollected, rfl⟩
            rw [formatDataEvent_eq] at hfull hcollected
            refine ⟨text :: texts, ended, bytes, hcollected.cons htext hclean (Nat.not_lt.mp hfull),
              ?_⟩
            rw [formatDataEvent_eq]
            simp

variable {streamMode : String} {texts : List String} {ended : Host.Result Bool} {start : Nat}

def closing (maxBytes : Nat) : Host.Result Bool → List Frame
  | .ok true => [endEvent]
  | ended => cutEvents maxBytes ended

theorem collected_lost (h : Collected streamMode dataPayload maxBytes start u texts ended)
    (e : Raised Exn) :
    Collected streamMode dataPayload maxBytes start (u ++ [.failed]) texts (.error e) := by
  have hevents : events (u ++ [.failed]) = events u := by
    rw [events_append]
    exact List.append_nil _
  refine ⟨hevents ▸ h.encoded, h.clean, h.capped, fun h => (by cases h), fun h => absurd ?_ h.1.2⟩
  exact List.mem_append_right _ (List.mem_singleton_self _)

theorem collected_full : Collected streamMode dataPayload maxBytes start [] [] (.ok false) :=
  ⟨.nil, fun _ h => (by cases h), fun h => absurd rfl h, by simp [Unbroken]⟩

def headSize (run : StreamRun) : Nat := (metadataFrame run.ctx.runId).text.utf8ByteSize

def headBuffer (run : StreamRun) : Buffer := ⟨[(metadataFrame run.ctx.runId).text], headSize run⟩

theorem streamChunks_collected (fuel maxBytes : Nat) (run : StreamRun)
    (config : Option (RunConfig γ)) (guard : Option γ) :
    (streamChunks fuel maxBytes run config guard).Writes Encodes streamMark fun r u =>
      ∃ texts ended bytes,
        Collected run.streamMode dataPayload maxBytes (headSize run) u texts ended ∧
          r = .ok (⟨([metadataFrame run.ctx.runId] ++ texts.map (Frame.mk run.streamMode) ++
            closing maxBytes ended).map Frame.text, bytes⟩, ended) := by
  intro _ _
  rw [formatMetadataEvent_eq]
  have hhead : checkStreamOverflow ⟨[(metadataFrame run.ctx.runId).text],
      (metadataFrame run.ctx.runId).text.utf8ByteSize⟩ 0 maxBytes =
        checkStreamOverflow (headBuffer run) 0 maxBytes := rfl
  rw [hhead]
  by_cases hfull : maxBytes < (headBuffer run).bytes + 0
  · rw [checkStreamOverflow_full hfull]
    exact ⟨[], .ok false, _, collected_full, rfl⟩
  · rw [checkStreamOverflow_fits hfull]
    intro answer _
    cases answer with
    | error e => exact ⟨[], .error e, _, .broken e, rfl⟩
    | ok =>
      change (Prog.bind (bufferEvents maxBytes run.streamMode fuel (headBuffer run)) _).Writes
        Encodes streamMark _
      refine Prog.writes_bind (bufferEvents_collected _ _ fuel _) ?_ ?_
      · rintro buffered u ⟨texts, ended, bytes, hcollected, ⟨⟩⟩
        cases ended with
        | error e => exact ⟨texts, .error e, bytes, (List.append_nil u).symm ▸ hcollected, rfl⟩
        | ok finished =>
          cases finished with
          | false => exact ⟨texts, .ok false, bytes, (List.append_nil u).symm ▸ hcollected, rfl⟩
          | true =>
            refine Prog.writes_bind (Prog.writes_attempt (S := Silent) checkOwnershipGuard_silent
              (T := fun r u => ∃ r', r = .ok r' ∧ Silent r' u) fun r u h => ⟨r, rfl, h⟩) ?_ ?_
            · rintro checked u' ⟨_, ⟨⟩, hu'⟩
              obtain ⟨e, rfl, rfl⟩ | ⟨_, rfl, rfl⟩ := hu'
              · exact ⟨texts, .error e, bytes, collected_lost hcollected e, rfl⟩
              · refine ⟨texts, .ok true, bytes, (List.append_nil u).symm ▸ hcollected, ?_⟩
                simp [closing, cutEvents, formatEndEvent_eq, headBuffer]
            · rintro e u ⟨_, ⟨⟩, -⟩
      · rintro e u ⟨_, _, _, _, ⟨⟩⟩

def Framed (maxBytes : Nat) (run : StreamRun) (r : Host.Result HttpResponse)
    (u : List StreamMark) : Prop :=
  ∀ response, r = .ok response → response.mimetype = "text/event-stream" →
    WellFramed [metadataFrame run.ctx.runId] run.streamMode dataPayload endEvent maxBytes u
      response.body

theorem framed_json {response : HttpResponse} (h : response.mimetype = "application/json") :
    Framed maxBytes run (.ok response) u := by
  rintro _ ⟨⟩ hstream
  exact absurd (h.symm.trans hstream) (by decide)

theorem framed_buildSseResponse {errors : List Frame} {contentLocation : String}
    (hmode : run.streamMode ∈ streamModes)
    (h : Collected run.streamMode dataPayload maxBytes (headSize run) u texts ended)
    (herrors : ∀ f ∈ errors, f.Clean ∧ f.event = "error") (hsingle : errors.length ≤ 1)
    (hhonest : errors = [] ↔ ended = .ok true) :
    Framed maxBytes run (.ok (buildSseResponse (([metadataFrame run.ctx.runId] ++
      texts.map (Frame.mk run.streamMode) ++ errors ++ [endEvent]).map Frame.text)
        contentLocation)) u := by
  rintro _ ⟨⟩ -
  refine ⟨texts, errors, Frame.ofBody_join fun f hf => ?_, h.encoded, hsingle,
    fun f hf => (herrors f hf).2, hhonest.trans h.honest, fun htexts => ?_⟩
  · rw [List.mem_append, List.mem_append, List.mem_append, List.mem_singleton, List.mem_map,
      List.mem_singleton] at hf
    obtain ((rfl | ⟨text, htext, rfl⟩) | hf) | rfl := hf
    · exact clean_metadataFrame _
    · exact ⟨clean_streamMode hmode, h.clean text htext⟩
    · exact (herrors f hf).1
    · exact ⟨by decide, by decide⟩
  · have hcapped := h.capped htexts
    rw [List.map_append, List.sum_append, List.map_map]
    exact hcapped

theorem finishRun_framed {released : Option Exn} {bytes : Nat} (hmode : run.streamMode ∈ streamModes)
    (h : Collected run.streamMode dataPayload maxBytes (headSize run) u texts ended) :
    (finishRun run released (⟨([metadataFrame run.ctx.runId] ++
        texts.map (Frame.mk run.streamMode) ++ closing maxBytes ended).map Frame.text, bytes⟩,
      ended) : Host γ _).Writes Encodes streamMark fun r v => Framed maxBytes run r (u ++ v) := by
  have hone (message : String) (requestId : Option String) :
      ∀ f ∈ [errorEvent message requestId], f.Clean ∧ f.event = "error" := by
    intro f hf
    cases List.mem_singleton.mp hf
    exact ⟨clean_errorEvent message requestId, rfl⟩
  -- Each exit that builds a stream ends it with these frames.
  have hsse {chunks : List String} (errors : List Frame)
      (hchunks : chunks = ([metadataFrame run.ctx.runId] ++ texts.map (Frame.mk run.streamMode) ++
        errors ++ [endEvent]).map Frame.text) (herrors : ∀ f ∈ errors, f.Clean ∧ f.event = "error")
      (hsingle : errors.length ≤ 1) (hhonest : errors = [] ↔ ended = .ok true) :
      Framed maxBytes run (.ok (buildSseResponse chunks run.contentLocation)) (u ++ []) := by
    rw [hchunks, List.append_nil]
    exact framed_buildSseResponse hmode h herrors hsingle hhonest
  cases ended with
  | error e =>
    cases e with
    | exception exc =>
      intro _ _
      cases released with
      | some _ => exact framed_json rfl
      | none =>
        refine hsse [errorEvent "stream processing failed" (some run.ctx.runId)] ?_ (hone _ _)
          (Nat.le_refl 1) ⟨fun h => (by cases h), fun h => (by cases h)⟩
        rw [formatErrorEvent_eq, formatEndEvent_eq]
        simp [closing, cutEvents]
    | _ => exact fun _ h => (by cases h)
  | ok finished =>
    cases finished with
    | false =>
      intro _ _
      cases released with
      | some _ => exact framed_json rfl
      | none =>
        refine hsse [errorEvent (overflowError maxBytes) none] ?_ (hone _ _) (Nat.le_refl 1)
          ⟨fun h => (by cases h), fun h => (by cases h)⟩
        simp [closing, cutEvents]
    | true =>
      cases released with
      | some _ =>
        intro _ _
        exact framed_json rfl
      | none =>
        intro _ _
        refine hsse [] ?_ (List.forall_mem_nil _) (Nat.zero_le 1) ⟨fun _ => rfl, fun _ => rfl⟩
        simp [closing]

def Accepted : PlatformRefusal ⊕ StreamRun → Prop
  | .inl _ => True
  | .inr run => run.streamMode ∈ streamModes

/-- The frames of a stream are those of its run. -/
def RunFramed (maxBytes : Nat) (resolved : PlatformRefusal ⊕ StreamRun)
    (r : Host.Result HttpResponse) (u : List StreamMark) : Prop :=
  match resolved with
  | .inl _ => ∀ response, r = .ok response → response.mimetype = "application/json"
  | .inr run => Framed maxBytes run r u

theorem runsStream_framed (fuel maxBytes : Nat) {resolved : PlatformRefusal ⊕ StreamRun}
    (h : Accepted resolved) (prepared : Host.Result (Option (RunConfig γ) × Option γ))
    (released : Option Exn) :
    (runsStream fuel maxBytes resolved prepared released).Writes Encodes streamMark
      (RunFramed maxBytes resolved) := by
  cases resolved with
  | inl err =>
    intro response hresponse
    cases hresponse
    rfl
  | inr run =>
    cases prepared with
    | error e =>
      cases e with
      | exception exc =>
        intro _ _
        exact framed_json rfl
      | _ => exact fun _ h => (by cases h)
    | ok prepared =>
      obtain ⟨config, guard⟩ := prepared
      refine Prog.writes_bind (streamChunks_collected fuel maxBytes run config guard) ?_ ?_
      · rintro streamed u ⟨texts, ended, bytes, hcollected, ⟨⟩⟩
        exact finishRun_framed h hcollected
      · rintro e u ⟨_, _, _, _, ⟨⟩⟩

def valuesRun : StreamRun := ⟨newContext ⟨"agent", false, false, true, true, true, [], fun _ => false⟩
  .stream "in_process" "r", .dict [], "values", "/api/runs/r"⟩

def endless : (o : Host.Op Unit) → Option o.Ans
  | .observe _ => some ()
  | .stream _ => some (.ok ())
  | .next => some (.ok (some (.dict [])))
  | .dumps (.dict []) => some (.ok "\x7b\x7d")
  | _ => none

theorem encodes_endless (o : Host.Op Unit) (a : o.Ans) (h : endless o = some a) : Encodes o a := by
  unfold endless at h
  split at h
  · trivial
  · trivial
  · trivial
  · cases h
    exact ⟨rfl, by decide⟩
  · cases h

end LangGraphFunctions.Platform

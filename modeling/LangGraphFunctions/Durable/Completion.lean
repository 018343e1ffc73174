import LangGraphFunctions.Durable.Activity
import LangGraphFunctions.Lib.JsonLaws

/-! When the activity ends with a normalized result. -/

namespace LangGraphFunctions.Durable

open Lib Platform Prog

variable {γ : Type}

def Behaved : (o : Host.Op γ) → o.Ans → Prop
  | .acquire .., a => ∃ token, a = .ok token
  | .release .., a => a = .ok ()
  | .ownershipGuard .., .error e => e.isException
  | .check _, .error e => e.isException
  | .invoke _, .error e => e.isException
  | .dumps _, .error e => e.isException
  | o, a => Host.Answers o a

inductive Outcome
  | refused
  | raised (exc : Exn)

def outcome : (o : Host.Op γ) × o.Ans → List Outcome
  | ⟨.acquire .., .ok none⟩ => [.refused]
  | ⟨.ownershipGuard .., .error (.exception exc)⟩ => [.raised exc]
  | ⟨.check _, .error (.exception exc)⟩ => [.raised exc]
  | ⟨.invoke _, .error (.exception exc)⟩ => [.raised exc]
  | _ => []

def outcomes (w : Transcript (Host.interface γ)) : List Outcome := w.flatMap outcome

def DurableRunPayload.Buildable (payload : DurableRunPayload) : Prop :=
  payload.threadId = .null ∨
    ∀ v, payload.config.get? configurableKey = some v → ∃ items, v = .dict items

def Printable (exc : Exn) : Prop := ∃ text, exc.str = .ok text

def Serializable (v : Json.Value) : Prop := ∃ text, Json.dumps .spaced true v = .ok text

/-- The run ends with a result exactly where the config can be put together, and what the graph
raised has a text. -/
def Completes (buildable : Prop) (r : Host.Result DurableRunResult) (u : List Outcome) : Prop :=
  (∃ result, r = .ok result ∧ Serializable result.toDict) ↔
    (.refused ∈ u ∨ buildable) ∧ ∀ exc, .raised exc ∈ u → Printable exc

theorem runConfigOf_buildable {payload : DurableRunPayload} (h : payload.Buildable) :
    ∃ config, runConfigOf (γ := γ) payload = .ok config := by
  rw [runConfigOf]
  cases hid : payload.threadId with
  | null => exact ⟨_, rfl⟩
  | _ =>
    have hconfigurable := h.resolve_left (by rw [hid]; intro h; cases h)
    simp only [spreadConfigurable]
    cases hv : payload.config.get? configurableKey with
    | none => exact ⟨_, rfl⟩
    | some v =>
      obtain ⟨items, rfl⟩ := hconfigurable v hv
      exact ⟨_, rfl⟩

theorem buildable_of_runConfigOf {payload : DurableRunPayload} {config : Option (RunConfig γ)}
    (h : runConfigOf payload = .ok config) : payload.Buildable := by
  rw [runConfigOf] at h
  split at h
  · next hid => exact .inl hid
  · refine .inr fun v hv => ?_
    rw [spreadConfigurable, hv] at h
    cases v with
    | dict items => exact ⟨items, rfl⟩
    | _ => exact nomatch h

theorem isPlain_toDict {result : DurableRunResult} (h : Json.IsPlain result.result) :
    Json.IsPlain result.toDict := by
  refine .dict (by simp) ?_
  simp only [List.forall_mem_cons, List.not_mem_nil, false_imp_iff, implies_true, and_true]
  refine ⟨.str, .str, h, ?_⟩
  cases result.error with
  | none => exact .null
  | some e =>
    refine .dict (by simp) ?_
    simp only [List.forall_mem_cons, List.not_mem_nil, false_imp_iff, implies_true, and_true]
    exact ⟨.str, .str⟩

theorem serializable_toDict {result : DurableRunResult} (h : Json.IsPlain result.result) :
    Serializable result.toDict := by
  obtain ⟨cs, hcs⟩ := Json.emit_isPlain (isPlain_toDict h) .spaced
  exact ⟨_, by rw [Json.dumps, hcs]; rfl⟩

def GraphEnds : Host.Result Json.Value → List Outcome → Prop
  | .ok v, u => u = [] ∧ Json.IsPlain v
  | .error (.exception exc), u => u = [.raised exc] ∨ u = [] ∧ exc = .outputSerializationError
  | .error _, _ => False

abbrev Ends {α : Type} (p : Host γ α) (S : Host.Result α → List Outcome → Prop) : Prop :=
  p.Writes Behaved outcome S

def Step {α : Type} : Host.Result α → List Outcome → Prop
  | .ok _, u => u = []
  | .error (.exception exc), u => u = [.raised exc]
  | .error _, _ => False

theorem guardRunConfig_ends {graphName : String} {threadId : Option Json.Value}
    {token : Option String} {config : Option (RunConfig γ)} :
    Ends (Host.guardRunConfig graphName threadId token config) Step := by
  refine writes_bind (S := Step) ?_ (fun _ u hu => hu.symm ▸ rfl) fun e u hu => ?_
  · cases threadId with
    | none => rfl
    | some threadId =>
      cases token with
      | none => rfl
      | some token =>
        rw [Host.ownershipGuardFor]
        split
        · rfl
        · rintro (exc | _) ha
          · cases exc <;> first | rfl | exact nomatch ha
          · rfl
  · cases e <;> exact hu

theorem checkOwnershipGuard_ends {guard : Option γ} :
    Ends (Host.checkOwnershipGuard guard) Step := by
  cases guard with
  | none => rfl
  | some guard =>
    rintro (exc | _) ha
    · cases exc <;> first | rfl | exact nomatch ha
    · rfl

theorem invoke_ends {call : GraphCall γ} : Ends (Host.invoke call) Step := by
  rintro (exc | _) ha
  · cases exc <;> first | rfl | exact nomatch ha
  · rfl

theorem output_ends {value : Json.Value} : Ends (Host.exceptException (γ := γ)
    (do
      let text ← Host.dumps value
      .ofExcept ((loads text).mapError .exception))
    fun _ => .raise (.exception .outputSerializationError)) GraphEnds := by
  rintro (exc | text) ha
  · cases exc with
    | exception exc => exact .inr ⟨rfl, rfl⟩
    | _ => exact nomatch ha
  · change Ends (Prog.handle (.ofExcept ((loads text).mapError .exception)) _) _
    rw [loads]
    cases hv : Json.loads text with
    | none => exact .inr ⟨rfl, rfl⟩
    | some v => exact ⟨rfl, Json.isPlain_loads hv⟩

theorem runGraph_ends {reg : Registration} {payload : DurableRunPayload}
    {lockThreadId : Option Json.Value} {lockToken : Option String}
    {config : Option (RunConfig γ)} :
    Ends (runGraph reg payload lockThreadId lockToken config) GraphEnds := by
  have herror : ∀ {α : Type} (e : Raised Exn) (u : List Outcome),
      Step (.error e : Host.Result α) u → GraphEnds (.error e) u := by
    intro α e u hu
    cases e with
    | exception exc => exact .inl hu
    | _ => exact hu
  refine writes_bind guardRunConfig_ends (fun _ u hu => ?_) herror
  cases hu
  refine writes_bind invoke_ends (fun _ u hu => ?_) herror
  cases hu
  refine writes_bind checkOwnershipGuard_ends (fun _ u hu => ?_) herror
  cases hu
  exact output_ends

theorem failure_completes {runId : String} {exc : Exn} {u : List Outcome}
    (hu : u = [.raised exc] ∨ u = [] ∧ Printable exc) {buildable : Prop} (hb : buildable) :
    Completes buildable ((DurableRunResult.failure runId exc).mapError .exception) u := by
  have hraised : (∀ exc', .raised exc' ∈ u → Printable exc') ↔ Printable exc := by
    obtain rfl | ⟨rfl, hprintable⟩ := hu
    · simp
    · simp [hprintable]
  rw [Completes, hraised, DurableRunResult.failure, serializeError]
  cases hstr : exc.str with
  | error e => simp [Printable, hstr, Bind.bind, Except.bind, Except.mapError]
  | ok text =>
    refine iff_of_true ⟨_, rfl, serializable_toDict .null⟩ ⟨.inr hb, text, hstr⟩

theorem executeLocked_ends {reg : Registration} {payload : DurableRunPayload} {ctx : RunContext}
    {lockThreadId : Option Json.Value} {lockToken : Option String}
    (h : ¬(lockThreadId.isSome && lockToken.isNone)) :
    Ends (executeLocked (γ := γ) reg payload ctx lockThreadId lockToken)
      (Completes payload.Buildable) := by
  rw [executeLocked, if_neg h]
  cases hconfig : runConfigOf (γ := γ) payload with
  | error e =>
    refine iff_of_false ?_ ?_
    · rintro ⟨_, h, -⟩
      exact nomatch h
    · rintro ⟨h, -⟩
      obtain ⟨config, hok⟩ := runConfigOf_buildable (γ := γ) (h.resolve_left List.not_mem_nil)
      exact nomatch hconfig.symm.trans hok
  | ok config =>
    have hbuildable := buildable_of_runConfigOf hconfig
    intro _ _
    refine writes_bind (S := fun r u => ∃ r', r = .ok r' ∧ GraphEnds r' u)
      (writes_attempt runGraph_ends fun r u hr => ⟨r, rfl, hr⟩) ?_ ?_
    · rintro r u ⟨_, ⟨⟩, hr⟩
      cases r with
      | ok v =>
        obtain ⟨rfl, hv⟩ := hr
        refine fun _ _ => iff_of_true ⟨_, rfl, serializable_toDict hv⟩ ⟨.inr hbuildable, ?_⟩
        exact fun _ h => nomatch h
      | error e =>
        cases e with
        | exception exc =>
          refine fun _ _ => writes_ofExcept ?_
          rw [List.append_nil]
          change Completes _ _ ([] ++ (u ++ []))
          rw [List.nil_append, List.append_nil]
          refine failure_completes (hr.imp id ?_) hbuildable
          rintro ⟨rfl, rfl⟩
          exact ⟨rfl, _, rfl⟩
        | _ => exact hr.elim
    · rintro e u ⟨_, h, -⟩
      exact nomatch h

theorem executeLocked_refused {reg : Registration} {payload : DurableRunPayload} {ctx : RunContext}
    {threadId : Json.Value} :
    Ends (executeLocked (γ := γ) reg payload ctx (some threadId) none)
      fun r u => u = [] ∧ ∃ result, r = .ok result ∧ Serializable result.toDict :=
  fun _ _ => ⟨rfl, _, rfl, serializable_toDict .null⟩

theorem release_ends {graphName : String} {threadId : Json.Value} {token : String} :
    Ends (γ := γ) (Host.release graphName threadId token) fun r u => r = .ok () ∧ u = [] := by
  rintro _ rfl
  exact ⟨rfl, rfl⟩

theorem asyncThreadLock_ends {reg : Registration} {payload : DurableRunPayload} {ctx : RunContext}
    {lockThreadId : Option Json.Value} :
    Ends (γ := γ) (Host.asyncThreadLock reg.name lockThreadId 0
      (executeLocked reg payload ctx lockThreadId)) (Completes payload.Buildable) := by
  cases lockThreadId with
  | none => exact executeLocked_ends fun h => nomatch h
  | some threadId =>
    rintro _ ⟨token, rfl⟩
    cases token with
    | none =>
      refine writes_andFinally executeLocked_refused (U := fun r u => r = .ok () ∧ u = [])
        ⟨rfl, rfl⟩ ?_ fun _ _ _ _ _ h => nomatch h.1
      rintro r u v ⟨rfl, hr⟩ ⟨-, rfl⟩
      exact iff_of_true hr ⟨.inl (List.mem_cons_self ..), by simp [outcome]⟩
    | some token =>
      refine writes_andFinally (executeLocked_ends (by simp)) release_ends ?_
        fun _ _ _ _ _ h => nomatch h.1
      rintro r u v hr ⟨-, rfl⟩
      rw [List.append_nil]
      exact hr

theorem executeLanggraphRunImpl_ends {registry : Registry} {lockBackend : String}
    {payload : DurableRunPayload} (hreg : (registry payload.graphName).isSome) :
    Ends (γ := γ) (executeLanggraphRunImpl registry lockBackend payload)
      (Completes payload.Buildable) := by
  obtain ⟨reg, hreg⟩ := Option.isSome_iff_exists.mp hreg
  rw [executeLanggraphRunImpl, hreg]
  refine writes_bind (S := fun r u => (∃ ctx, r = .ok ctx) ∧ u = []) ?_ ?_ ?_
  · rw [Host.newRunContext]
    split
    · exact fun _ _ => ⟨⟨_, rfl⟩, rfl⟩
    · exact ⟨⟨_, rfl⟩, rfl⟩
  · rintro ctx u ⟨-, rfl⟩
    exact asyncThreadLock_ends
  · rintro e u ⟨⟨_, h⟩, -⟩
    exact nomatch h

theorem graphName_of_accepted {registry : Registry} {graphName raw uuid : String} {maxBytes : Nat}
    {payload : DurableRunPayload}
    (h : createRunHttp registry graphName raw uuid maxBytes = .ok (.accepted payload)) :
    payload.graphName = graphName ∧ (registry graphName).isSome := by
  rw [createRunHttp] at h
  cases hreg : registry graphName with
  | none =>
    rw [hreg] at h
    exact nomatch h
  | some reg =>
    rw [hreg] at h
    cases hbody : parseBody raw maxBytes with
    | error e =>
      rw [hbody] at h
      exact nomatch h
    | ok body =>
      rw [hbody] at h
      obtain ⟨payload', hcreate, ⟨⟩⟩ := bind_eq_ok.mp h
      obtain ⟨config, -, ⟨⟩⟩ := bind_eq_ok.mp hcreate
      exact ⟨rfl, rfl⟩

/-- An accepted run ends with a normalized result exactly where the lock was refused or its config
can be put together, and each exception of the graph's run has a text. -/
theorem completes_iff {registry : Registry} {graphName raw uuid lockBackend : String}
    {maxBytes : Nat} {payload : DurableRunPayload}
    (haccepted : createRunHttp registry graphName raw uuid maxBytes = .ok (.accepted payload))
    {w : Transcript (Host.interface γ)} {r : Host.Result Json.Value}
    (hrun : (executeLanggraphRun registry lockBackend payload.toDict).Plays Behaved w
      (.ofExcept r)) :
    (∃ result : DurableRunResult, r = .ok result.toDict ∧ Serializable result.toDict) ↔
      (.refused ∈ outcomes w ∨ payload.Buildable) ∧
        ∀ exc, .raised exc ∈ outcomes w → Printable exc := by
  obtain ⟨hname, hreg⟩ := graphName_of_accepted haccepted
  have hends : Ends (γ := γ) (executeLanggraphRun registry lockBackend payload.toDict) fun r u =>
      (∃ result : DurableRunResult, r = .ok result.toDict ∧ Serializable result.toDict) ↔
        (.refused ∈ u ∨ payload.Buildable) ∧ ∀ exc, .raised exc ∈ u → Printable exc := by
    rw [executeLanggraphRun, DurableRunPayload.fromDict_toDict]
    change Ends ((executeLanggraphRunImpl registry lockBackend payload).bind _) _
    refine writes_bind (executeLanggraphRunImpl_ends (hname ▸ hreg)) (fun result u hu => ?_)
      fun e u hu => ?_
    · change _ ↔ _ at hu
      simp only [Except.ok.injEq, exists_eq_left'] at hu
      change _ ↔ (.refused ∈ u ++ [] ∨ _) ∧ ∀ exc, .raised exc ∈ u ++ [] → _
      rw [List.append_nil, ← hu]
      constructor
      · rintro ⟨result', hr, hs⟩
        rwa [Except.ok.inj hr]
      · exact fun hs => ⟨result, rfl, hs⟩
    · refine Iff.trans ?_ hu
      constructor
      · rintro ⟨_, h, -⟩
        exact nomatch h
      · rintro ⟨_, h, -⟩
        exact nomatch h
  exact hrun.writes hends

def agentOnly : Registry := fun name => if name = "agent" then some ⟨"agent", false⟩ else none

def emptyPayload : DurableRunPayload where
  runId := "r"
  graphName := "agent"
  input := .null
  threadId := .null
  config := ∅
  assistantId := .null
  correlationId := .null

def returnsNone : (o : Host.Op Unit) → Option o.Ans
  | .observe _ => some ()
  | .invoke _ => some (.ok ⟨.null, false, false⟩)
  | .dumps .null => some (.ok "null")
  | _ => none

theorem returnsNone_behaved (o : Host.Op Unit) (a : o.Ans) (h : returnsNone o = some a) :
    Behaved o a := by
  unfold returnsNone at h
  split at h
  · trivial
  · cases h
    trivial
  · cases h
    exact rfl
  · exact nomatch h

theorem completes_iff_empty :
    ∃ (w : Transcript (Host.interface Unit)) (r : Host.Result Json.Value),
      (executeLanggraphRun agentOnly "lock" emptyPayload.toDict).Plays Behaved w (.ofExcept r) ∧
        ∃ result : DurableRunResult, r = .ok result.toDict ∧ Serializable result.toDict := by
  have haccepted : createRunHttp agentOnly "agent" "" "r" 1024 = .ok (.accepted emptyPayload) := rfl
  obtain ⟨w, r, hrun, hw⟩ : ∃ w r,
      (executeLanggraphRun agentOnly "lock" emptyPayload.toDict).answered returnsNone = some (w, r) ∧
        outcomes w = [] := ⟨_, _, rfl, rfl⟩
  have hplays := plays_answered returnsNone_behaved hrun
  exact ⟨w, r, hplays, (completes_iff haccepted hplays).mpr ⟨.inr (.inl rfl), by simp [hw]⟩⟩

def nullConfigurable : String :=
  "\x7b\"thread_id\":\"t\",\"config\":\x7b\"configurable\":null\x7d\x7d"

def nullPayload : DurableRunPayload :=
  { emptyPayload with
    threadId := .str "t"
    config := Dict.ofList [(configurableKey, .null)] }

/-- With a thread id and a `configurable` that is null, the activity raises. -/
theorem not_completes_nullConfigurable :
    ¬∀ (registry : Registry) (graphName raw uuid lockBackend : String) (maxBytes : Nat)
      (payload : DurableRunPayload) (w : Transcript (Host.interface Unit))
      (r : Host.Result Json.Value),
      createRunHttp registry graphName raw uuid maxBytes = .ok (.accepted payload) →
      (executeLanggraphRun registry lockBackend payload.toDict).Plays Behaved w (.ofExcept r) →
      ∃ result : DurableRunResult, r = .ok result.toDict ∧ Serializable result.toDict := by
  intro h
  obtain ⟨result, hr, -⟩ := h agentOnly "agent" nullConfigurable "r" "lock" 1024 nullPayload []
    (.error (.exception (.typeError "object is not a mapping"))) rfl (plays_nil _)
  exact nomatch hr

end LangGraphFunctions.Durable

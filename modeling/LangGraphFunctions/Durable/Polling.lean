import LangGraphFunctions.Durable.State
import LangGraphFunctions.Lib.Decimal

/-! Polling a durable run: the normalized status, and what a client sees of a run that failed. -/

namespace LangGraphFunctions.Durable

open Lib Platform

inductive RuntimeStatus
  | named (name : String)
  | text (s : String)

def IsMapping : Json.Value → Prop
  | .dict _ => True
  | _ => False

inductive Output
  | mapping (o : JsonObject)
  | other (v : Json.Value) (h : ¬IsMapping v)

def Output.toValue : Output → Json.Value
  | .mapping o => o.toValue
  | .other v _ => v

def Output.mapping? : Output → Option JsonObject
  | .mapping o => some o
  | .other .. => none

structure OrchestrationStatus where
  runtimeStatus : Option RuntimeStatus
  output : Output

def runtimeStatusStr (status : Option OrchestrationStatus) : Option String :=
  (status.bind OrchestrationStatus.runtimeStatus).map fun raw =>
    match raw with
    | .named name => name
    | .text s => s

inductive DurableRunStatus
  | pending
  | running
  | success
  | error
  | cancelled
  deriving DecidableEq

def DurableRunStatus.text : DurableRunStatus → String
  | pending => "pending"
  | running => "running"
  | success => "success"
  | error => "error"
  | cancelled => "cancelled"

def errorKey : Json.Key := .str "error"

/-- `activity_status in ("error", "rejected")`. -/
def activityFailed (output : Option JsonObject) : Bool :=
  match output.bind fun o => o.get? (.str "activity_status") with
  | some (.str s) => s == "error" || s == "rejected"
  | _ => false

def normalizeStatus (runtimeStatus : Option String) (output : Option JsonObject) :
    DurableRunStatus :=
  let status := String.ofList (Decimal.strip (runtimeStatus.getD "").toList)
  if status ∈ ["", "Pending"] then if status = "Pending" then .pending else .running
  else if status = "Running" then .running
  else if status ∈ ["Suspended", "ContinuedAsNew"] then .running
  else if status = "Completed" then if activityFailed output then .error else .success
  else if status = "Failed" then .error
  else if status ∈ ["Terminated", "Canceled", "Cancelled"] then .cancelled
  else .running

def failureBody : Json.Value :=
  .dict [(.str "code", .str "run_failed"), (.str "message", .str "The run failed.")]

def redacted (output : Output) : Output :=
  match output with
  | .mapping o =>
    match o.get? errorKey with
    | some (.dict _) => .mapping (o.set errorKey failureBody)
    | _ => .mapping o
  | .other v h => .other v h

def getRunImpl (status : Option OrchestrationStatus) (runId : String) : Nat × JsonObject :=
  match runtimeStatusStr status, status with
  | some runtime, some status =>
    let normalized := normalizeStatus (some runtime) status.output.mapping?
    let output := if normalized = .error then redacted status.output else status.output
    (200, Dict.ofList [(.str "run_id", .str runId), (.str "status", .str normalized.text),
      (.str "output", output.toValue)])
  | _, _ => (404, Dict.ofList [(.str "run_id", .str runId), (.str "error", .str "run not found")])

variable {o o' : JsonObject} {out out' : Output}

theorem redacted_of_dict {items : List (Json.Key × Json.Value)}
    (h : o.get? errorKey = some (.dict items)) :
    redacted (.mapping o) = .mapping (o.set errorKey failureBody) := by
  rw [redacted, h]

theorem redacted_of_not_dict (h : ∀ items, o.get? errorKey ≠ some (.dict items)) :
    redacted (.mapping o) = .mapping o := by
  rw [redacted]
  split
  · next items hdict => exact absurd hdict (h items)
  · rfl

def ErrorsAreMappings (out out' : Output) : Prop :=
  ∃ (o : JsonObject) (items items' : List (Json.Key × Json.Value)),
    out = .mapping (o.set errorKey (.dict items)) ∧ out' = .mapping (o.set errorKey (.dict items'))

theorem redacted_set (o : JsonObject) (items : List (Json.Key × Json.Value)) :
    redacted (.mapping (o.set errorKey (.dict items))) = .mapping (o.set errorKey failureBody) := by
  rw [redacted_of_dict (Dict.get?_set_self ..), Dict.set_set]

theorem redacted_cases (out : Output) : redacted out = out ∨
    ∃ (o : JsonObject) (items : List (Json.Key × Json.Value)),
      out = .mapping (o.set errorKey (.dict items)) := by
  cases out with
  | other v h => exact .inl rfl
  | mapping o =>
    by_cases h : ∃ items, o.get? errorKey = some (.dict items)
    · obtain ⟨items, hitems⟩ := h
      exact .inr ⟨o, items, by rw [Dict.set_of_get? hitems]⟩
    · left
      apply redacted_of_not_dict
      intro items hitems
      exact h ⟨items, hitems⟩

theorem errorsAreMappings_of_eq (items : List (Json.Key × Json.Value))
    (h : .mapping (o.set errorKey failureBody) = out) :
    ErrorsAreMappings (.mapping (o.set errorKey (.dict items))) out :=
  ⟨o, items, _, rfl, h.symm⟩

theorem ErrorsAreMappings.symm (h : ErrorsAreMappings out out') : ErrorsAreMappings out' out := by
  obtain ⟨o, items, items', hout, hout'⟩ := h
  exact ⟨o, items', items, hout', hout⟩

theorem redacted_eq_iff : redacted out = redacted out' ↔ out = out' ∨ ErrorsAreMappings out out' := by
  constructor
  · intro h
    cases redacted_cases out with
    | inl hout =>
      cases redacted_cases out' with
      | inl hout' => exact .inl (by rw [← hout, h, hout'])
      | inr hout' =>
        obtain ⟨o, items, rfl⟩ := hout'
        rw [redacted_set, hout] at h
        exact .inr (errorsAreMappings_of_eq items h.symm).symm
    | inr hout =>
      obtain ⟨o, items, rfl⟩ := hout
      rw [redacted_set] at h
      right
      cases redacted_cases out' with
      | inl hout' =>
        rw [hout'] at h
        exact errorsAreMappings_of_eq items h
      | inr hout' =>
        obtain ⟨o', items', rfl⟩ := hout'
        rw [redacted_set] at h
        refine ⟨o, items, items', rfl, ?_⟩
        rw [← Dict.set_set o' errorKey failureBody, ← Dict.set_set o errorKey failureBody]
        rw [Output.mapping.inj h]
  · rintro (rfl | ⟨o, items, items', rfl, rfl⟩)
    · rfl
    · rw [redacted_set, redacted_set]

theorem toValue_injective (h : out.toValue = out'.toValue) : out = out' := by
  cases out with
  | mapping o =>
    cases out' with
    | mapping o' =>
      congr 1
      apply Dict.ext
      apply Json.Value.dict.inj h
    | other v hv =>
      cases h
      exact absurd trivial hv
  | other v hv =>
    cases out' with
    | mapping o =>
      cases h
      exact absurd trivial hv
    | other v' hv' =>
      cases h
      rfl

def OrchestrationStatus.normalized (status : OrchestrationStatus) : DurableRunStatus :=
  normalizeStatus (runtimeStatusStr (some status)) status.output.mapping?

theorem getRunImpl_of_error {status : OrchestrationStatus} (h : status.normalized = .error)
    (runId : String) : getRunImpl (some status) runId =
      (200, Dict.ofList [(.str "run_id", .str runId), (.str "status", .str "error"),
        (.str "output", (redacted status.output).toValue)]) := by
  rw [OrchestrationStatus.normalized] at h
  cases hruntime : runtimeStatusStr (some status) with
  | none =>
    rw [hruntime] at h
    cases h
  | some runtime =>
    rw [hruntime] at h
    simp only [getRunImpl, hruntime, h, if_true]
    rfl

/-- Two failed runs are told apart exactly where their outputs differ and are not one result
mapping with mappings as its error entries. -/
theorem get_run_same_iff (runId : String) (status status' : OrchestrationStatus)
    (h : status.normalized = .error) (h' : status'.normalized = .error) :
    getRunImpl (some status) runId = getRunImpl (some status') runId ↔
      status.output = status'.output ∨ ErrorsAreMappings status.output status'.output := by
  rw [getRunImpl_of_error h, getRunImpl_of_error h', ← redacted_eq_iff]
  constructor
  · intro heq
    apply toValue_injective
    have houtput := congrArg (fun r => r.2.get? (.str "output")) heq
    exact Option.some.inj houtput
  · intro heq
    rw [heq]

/-- Statuses of one failure in two tellings: the error entry of a result mapping, or whatever a
failed instance has as its output. -/
inductive DifferInDetail (runtime : Option RuntimeStatus) : Output → Output → Prop
  | errorEntry (o : JsonObject) (v v' : Json.Value) :
    DifferInDetail runtime (.mapping (o.set errorKey v)) (.mapping (o.set errorKey v'))
  | failed (out out' : Output) : runtime = some (.named "Failed") → DifferInDetail runtime out out'

def failedStatus (output : Output) : OrchestrationStatus := ⟨some (.named "Failed"), output⟩

def completedStatus (error : Json.Value) : OrchestrationStatus :=
  ⟨some (.named "Completed"), .mapping (Dict.ofList [(.str "run_id", .str "r"),
    (.str "activity_status", .str "error"), (.str "result", .null), (errorKey, error)])⟩

def failureText (s : String) : Output := .other (.str s) (fun h => h)

theorem get_run_same_iff_redacted :
    getRunImpl (some (completedStatus (.dict [(.str "type", .str "ValueError")]))) "r" =
        getRunImpl (some (completedStatus (.dict [(.str "type", .str "KeyError")]))) "r" ↔
      (completedStatus (.dict [(.str "type", .str "ValueError")])).output =
          (completedStatus (.dict [(.str "type", .str "KeyError")])).output ∨
        ErrorsAreMappings (completedStatus (.dict [(.str "type", .str "ValueError")])).output
          (completedStatus (.dict [(.str "type", .str "KeyError")])).output :=
  get_run_same_iff "r" (completedStatus (.dict [(.str "type", .str "ValueError")]))
    (completedStatus (.dict [(.str "type", .str "KeyError")])) (by decide) (by decide)

/-- The text of a failed instance is shown, and so is an error entry that is a text. -/
theorem get_run_shows_text :
    (¬∀ (runId : String) (status status' : OrchestrationStatus),
      status.runtimeStatus = status'.runtimeStatus → status.normalized = .error →
      status'.normalized = .error →
      DifferInDetail status.runtimeStatus status.output status'.output →
        getRunImpl (some status) runId = getRunImpl (some status') runId) ∧
    getRunImpl (some (completedStatus (.str "a"))) "r" ≠
      getRunImpl (some (completedStatus (.str "b"))) "r" := by
  constructor
  · intro h
    have heq := h "r" (failedStatus (failureText "a")) (failedStatus (failureText "b")) rfl
      (by decide) (by decide) (.failed _ _ rfl)
    have houtput : some (Json.Value.str "a") = some (.str "b") :=
      congrArg (fun r => r.2.get? (.str "output")) heq
    simp at houtput
  · intro heq
    rw [getRunImpl_of_error (by decide), getRunImpl_of_error (by decide)] at heq
    have houtput : (completedStatus (.str "a")).output = (completedStatus (.str "b")).output :=
      toValue_injective (Option.some.inj (congrArg (fun r => r.2.get? (.str "output")) heq))
    have hentry : some (Json.Value.str "a") = some (.str "b") :=
      congrArg (fun o => o.get? errorKey) (Output.mapping.inj houtput)
    simp at hentry

end LangGraphFunctions.Durable

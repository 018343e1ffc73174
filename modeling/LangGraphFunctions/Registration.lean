import LangGraphFunctions.Errors
import LangGraphFunctions.Lib.Names
import LangGraphFunctions.Validation

/-! The registration of graphs and triggers, and the names of the functions that the app is built
with. -/

namespace LangGraphFunctions.Registration

open Lib Platform

structure GraphObject where
  typeName : String
  hasInvoke : Bool
  hasAinvoke : Bool
  isStateful : Bool

inductive ModelArg
  | none
  | model
  | other (repr : String)

inductive LockTimeout
  | finite (seconds : Rat)
  | notFinite

structure GraphRegistration where
  graph : GraphObject
  name : String
  streamEnabled : Bool
  asyncMode : Bool

structure ServiceBusRegistration where
  graph : GraphObject
  name : String
  queueName : Option String
  topicName : Option String
  subscriptionName : Option String
  asyncMode : Bool
  lockTimeout : LockTimeout
  bindingKwargs : JsonObject
  session : Bool
  sessionExclusive : Bool

structure LangGraphApp where
  platformCompat : Bool
  asyncRuns : Bool
  readinessChecks : Bool
  registrations : Dict String GraphRegistration
  sbRegistrations : Dict String ServiceBusRegistration

structure RegisterCall where
  graph : GraphObject
  name : String
  stream : Bool
  asyncMode : Bool
  requestModel : ModelArg
  responseModel : ModelArg

structure RegisterServiceBusCall where
  graph : GraphObject
  name : String
  queueName : Option String
  topicName : Option String
  subscriptionName : Option String
  asyncMode : Bool
  lockTimeout : LockTimeout
  bindingKwargs : JsonObject
  session : Bool
  sessionExclusive : Bool

def raiseIf (b : Bool) (exc : Exn) : Except Exn Unit := if b then .error exc else .ok ()

def validateGraphObject (graph : GraphObject) (asyncMode : Bool) : Except Exn Unit := do
  raiseIf (asyncMode && !graph.hasAinvoke)
    (.typeError s!"async_mode=True requires an ainvoke() method. Got {graph.typeName}")
  raiseIf (!graph.hasInvoke && !graph.hasAinvoke)
    (.typeError s!"Graph must have an invoke() or ainvoke() method. Got {graph.typeName}")

def validateOptionalModel (label : String) : ModelArg → Except Exn Unit
  | .other repr =>
    .error (.typeError s!"{label} must be a Pydantic BaseModel subclass, got {repr}")
  | _ => .ok ()

def validateName (name : String) : Except Exn Unit :=
  match Validation.validateGraphName name with
  | some err => .error (.valueError err)
  | none => .ok ()

namespace LangGraphApp

def sessionExclusive (app : LangGraphApp) : Bool :=
  app.sbRegistrations.items.any fun p => p.2.sessionExclusive

def register (app : LangGraphApp) (call : RegisterCall) : Except Exn LangGraphApp := do
  validateGraphObject call.graph call.asyncMode
  raiseIf (app.platformCompat && call.graph.hasAinvoke && !call.graph.hasInvoke)
    (.typeError s!"Graph {reprStr call.name} exposes only async methods (ainvoke/astream), but platform_compat=True. LangGraph Platform-compatible runs (/runs/wait, /runs/stream, /threads/\x7bid\x7d/runs/*) execute graphs through synchronous invoke()/stream() calls, so an async-only graph cannot be served on the Platform surface. Provide a graph that also exposes invoke()/stream() (e.g. a standard compiled LangGraph graph), or register it on a LangGraphApp without platform_compat=True to use the native async endpoints.")
  validateOptionalModel "request_model" call.requestModel
  validateOptionalModel "response_model" call.responseModel
  validateName call.name
  raiseIf (app.registrations.contains call.name)
    (.valueError s!"Graph {reprStr call.name} is already registered")
  raiseIf app.sessionExclusive
    (.valueError "session-exclusive execution cannot expose HTTP graph routes")
  return { app with
    registrations := app.registrations.set call.name
      ⟨call.graph, call.name, call.stream, call.asyncMode⟩ }

end LangGraphApp

def validateBinding (call : RegisterServiceBusCall) : Except Exn Unit := do
  let isQueue := call.queueName.isSome
  let isTopic := call.topicName.isSome || call.subscriptionName.isSome
  raiseIf (isQueue && isTopic)
    (.valueError "Provide either queue_name or (topic_name + subscription_name), not both")
  raiseIf (!isQueue && !isTopic)
    (.valueError "Provide queue_name for a queue trigger, or both topic_name and subscription_name for a topic-subscription trigger")
  raiseIf (isTopic && (call.topicName.isNone || call.subscriptionName.isNone))
    (.valueError "A topic trigger requires both topic_name and subscription_name")

def validateLockTimeout : LockTimeout → Except Exn Unit
  | .finite seconds =>
    raiseIf (decide (seconds < 0)) (.valueError "lock_timeout must be finite and non-negative")
  | .notFinite => .error (.valueError "lock_timeout must be finite and non-negative")

def isOne : Json.Value → Bool
  | .str s => s == "one"
  | _ => false

def requireSessionExclusiveTopology (session isolated : Bool) (binding : JsonObject) :
    Except Exn Unit := do
  raiseIf (!session || !isolated)
    (.valueError "session-exclusive execution requires session=True and an app with only one Service Bus registration, no HTTP graphs, Platform routes or Durable runs")
  raiseIf (!isOne ((binding.get? (.str "cardinality")).getD (.str "one")))
    (.valueError "session-exclusive execution requires single-message cardinality")

def isSessionsEnabledKey : Json.Key := .str "is_sessions_enabled"

def isFalse : Json.Value → Bool
  | .bool b => !b
  | _ => false

namespace LangGraphApp

def isolated (app : LangGraphApp) : Bool :=
  app.registrations.items.isEmpty && app.sbRegistrations.items.isEmpty && !app.platformCompat &&
    !app.asyncRuns

def registerServiceBus (app : LangGraphApp) (call : RegisterServiceBusCall) :
    Except Exn LangGraphApp := do
  validateGraphObject call.graph call.asyncMode
  validateName call.name
  raiseIf (app.sbRegistrations.contains call.name)
    (.valueError s!"Service Bus trigger {reprStr call.name} is already registered")
  validateBinding call
  validateLockTimeout call.lockTimeout
  raiseIf app.sessionExclusive
    (.valueError "session-exclusive execution cannot register another entity")
  (if call.sessionExclusive then
    requireSessionExclusiveTopology call.session app.isolated call.bindingKwargs else .ok ())
  raiseIf (call.session && (call.bindingKwargs.get? isSessionsEnabledKey).any isFalse)
    (.valueError "session=True conflicts with is_sessions_enabled=False")
  let effectiveBinding := if call.session then
    call.bindingKwargs.set isSessionsEnabledKey (.bool true) else call.bindingKwargs
  return { app with
    sbRegistrations := app.sbRegistrations.set call.name {
      graph := call.graph
      name := call.name
      queueName := call.queueName
      topicName := call.topicName
      subscriptionName := call.subscriptionName
      asyncMode := call.asyncMode || !call.graph.hasInvoke
      lockTimeout := call.lockTimeout
      bindingKwargs := effectiveBinding
      session := call.session
      sessionExclusive := call.sessionExclusive } }

end LangGraphApp

inductive Call
  | register (call : RegisterCall)
  | registerServiceBus (call : RegisterServiceBusCall)

def LangGraphApp.apply (app : LangGraphApp) : Call → Except Exn LangGraphApp
  | .register call => app.register call
  | .registerServiceBus call => app.registerServiceBus call

def LangGraphApp.applyAll (app : LangGraphApp) : List Call → Except Exn LangGraphApp
  | [] => .ok app
  | call :: calls => do
    let app ← app.apply call
    app.applyAll calls

def healthNames (app : LangGraphApp) : List String :=
  ["aflg_health", "aflg_health_details"] ++
    if app.readinessChecks then ["aflg_health_ready"] else []

def endpointsOf (reg : GraphRegistration) : List String :=
  ["invoke"] ++ (if reg.streamEnabled then ["stream"] else []) ++
    (if reg.graph.isStateful then ["state"] else [])

def routeName (name endpoint : String) : String := "aflg_" ++ name ++ "_" ++ endpoint

def serviceBusName (name : String) : String := "aflg_sb_" ++ name

def platformNames : List String :=
  ["aflg_platform_assistants_search", "aflg_platform_assistants_count",
    "aflg_platform_assistants_get", "aflg_platform_threads_create", "aflg_platform_threads_get",
    "aflg_platform_threads_update", "aflg_platform_threads_delete", "aflg_platform_threads_search",
    "aflg_platform_threads_count", "aflg_platform_threads_state_get",
    "aflg_platform_threads_state_update", "aflg_platform_threads_history",
    "aflg_platform_runs_wait", "aflg_platform_runs_stream", "aflg_platform_runs_wait_threadless",
    "aflg_platform_runs_stream_threadless"]

def durableNames : List String :=
  ["langgraph_durable_run_orchestrator", "execute_langgraph_run", "aflg_durable_create_run",
    "aflg_durable_get_run", "aflg_durable_cancel_run"]

def graphNames (app : LangGraphApp) : List String :=
  app.registrations.items.flatMap fun p => (endpointsOf p.2).map (routeName p.2.name)

def sbNames (app : LangGraphApp) : List String :=
  app.sbRegistrations.items.map fun p => serviceBusName p.2.name

def functionNames (app : LangGraphApp) : List String :=
  healthNames app ++ graphNames app ++ sbNames app ++
    (if app.platformCompat then platformNames else []) ++ if app.asyncRuns then durableNames else []

variable {app app' : LangGraphApp} {exc : Exn} {b : Bool}

structure Named (app : LangGraphApp) : Prop where
  graphs : ∀ p ∈ app.registrations.items, p.2.name = p.1
  triggers : ∀ p ∈ app.sbRegistrations.items, p.2.name = p.1

theorem register_eq_ok {call : RegisterCall} (h : app.register call = .ok app') :
    app' = { app with
      registrations := app.registrations.set call.name
        ⟨call.graph, call.name, call.stream, call.asyncMode⟩ } := by
  simp only [LangGraphApp.register, bind_eq_ok] at h
  obtain ⟨-, -, -, -, -, -, -, -, -, -, -, -, -, -, ⟨⟩⟩ := h
  rfl

theorem registerServiceBus_eq_ok {call : RegisterServiceBusCall}
    (h : app.registerServiceBus call = .ok app') :
    ∃ reg : ServiceBusRegistration, reg.name = call.name ∧
      app' = { app with sbRegistrations := app.sbRegistrations.set call.name reg } := by
  simp only [LangGraphApp.registerServiceBus, bind_eq_ok] at h
  obtain ⟨-, -, -, -, -, -, -, -, -, -, -, -, -, -, -, -, ⟨⟩⟩ := h
  exact ⟨_, rfl, rfl⟩

theorem Named.apply {call : Call} (h : Named app) (happly : app.apply call = .ok app') :
    Named app' := by
  cases call with
  | register call =>
    rw [register_eq_ok happly]
    refine ⟨?_, h.triggers⟩
    intro p hp
    cases Dict.mem_setItems hp with
    | inl hp => rw [hp]
    | inr hp => exact h.graphs p hp
  | registerServiceBus call =>
    obtain ⟨reg, hname, rfl⟩ := registerServiceBus_eq_ok happly
    refine ⟨h.graphs, ?_⟩
    intro p hp
    cases Dict.mem_setItems hp with
    | inl hp => rw [hp, hname]
    | inr hp => exact h.triggers p hp

theorem Named.applyAll {calls : List Call} (h : Named app)
    (happly : app.applyAll calls = .ok app') : Named app' := by
  induction calls generalizing app with
  | nil =>
    cases happly
    exact h
  | cons call calls ih =>
    obtain ⟨next, hnext, hrest⟩ := bind_eq_ok.mp happly
    apply ih (h.apply hnext) hrest

def words (s : String) : List String := Names.split '_' s

theorem routeName_eq (name endpoint : String) : routeName name endpoint =
    "aflg" ++ String.singleton '_' ++ (name ++ String.singleton '_' ++ endpoint) := by
  apply String.toList_injective
  simp [routeName]

theorem words_routeName {endpoint : String} (h : '_' ∉ endpoint.toList) (name : String) :
    words (routeName name endpoint) = "aflg" :: (words name ++ [endpoint]) := by
  have hhead : Names.split '_' "aflg" = ["aflg"] := Names.split_of_plain (by decide)
  rw [words, routeName_eq, Names.split_append, Names.split_append, Names.split_of_plain h, hhead]
  rfl

theorem words_injective {s t : String} (h : words s = words t) : s = t := by
  rw [← Names.join_split s (c := '_'), ← Names.join_split t (c := '_')]
  exact congrArg _ h

def endpoints : List String := ["invoke", "stream", "state"]

theorem not_mem_of_endpoint {endpoint : String} (h : endpoint ∈ endpoints) :
    '_' ∉ endpoint.toList := by
  have hall : endpoints.all (fun e => !e.toList.contains '_') = true := by decide +kernel
  simpa using List.all_eq_true.mp hall endpoint h

theorem mem_endpoints {reg : GraphRegistration} {endpoint : String} (h : endpoint ∈ endpointsOf reg) :
    endpoint ∈ endpoints := by
  simp only [endpointsOf, List.mem_append] at h
  obtain (h | h) | h := h
  · exact List.mem_append_left _ h
  · split at h
    · rw [List.mem_singleton.mp h]
      decide
    · cases h
  · split at h
    · rw [List.mem_singleton.mp h]
      decide
    · cases h

theorem routeName_injective {m n d e : String} (hd : d ∈ endpoints) (he : e ∈ endpoints)
    (h : routeName m d = routeName n e) : m = n ∧ d = e := by
  have hwords := congrArg words h
  rw [words_routeName (not_mem_of_endpoint hd), words_routeName (not_mem_of_endpoint he)] at hwords
  obtain ⟨hname, hlast⟩ := List.append_inj' (List.cons.inj hwords).2 rfl
  exact ⟨words_injective hname, List.singleton_inj.mp hlast⟩

def fixedNames : List String :=
  ["aflg_health", "aflg_health_details", "aflg_health_ready"] ++ platformNames ++ durableNames

theorem routeName_eq_fixed {name endpoint : String} (he : endpoint ∈ endpoints)
    (h : routeName name endpoint ∈ fixedNames) :
    name = "platform_runs" ∧ endpoint = "stream" := by
  have hall : fixedNames.all (fun s => s == routeName "platform_runs" "stream" ||
      !endpoints.contains ((words s).getLast?.getD "")) = true := by decide +kernel
  have hname := List.all_eq_true.mp hall _ h
  rw [words_routeName (not_mem_of_endpoint he), ← List.cons_append, List.getLast?_concat,
    Option.getD_some, List.contains_iff_mem.mpr he, Bool.not_true, Bool.or_false, beq_iff_eq] at hname
  apply routeName_injective he (by decide) hname

theorem serviceBusName_not_fixed (name : String) : serviceBusName name ∉ fixedNames := by
  have hall : fixedNames.all (fun s => !Names.startswith s "aflg_sb_") = true := by decide +kernel
  intro h
  have hname := List.all_eq_true.mp hall _ h
  have hstart : Names.startswith (serviceBusName name) "aflg_sb_" :=
    Names.startswith_iff.mpr ⟨name, rfl⟩
  rw [hstart] at hname
  cases hname

theorem serviceBusName_injective {m n : String} (h : serviceBusName m = serviceBusName n) : m = n := by
  apply String.toList_injective
  have htext := congrArg String.toList h
  rw [serviceBusName, serviceBusName, String.toList_append, String.toList_append] at htext
  exact List.append_cancel_left htext

/-- The route `endpoint` of the graph `name` reads as the trigger `trigger`. -/
def Clash (name endpoint trigger : String) : Prop :=
  (name = "sb" ∧ trigger = endpoint) ∨ ∃ y, name = "sb_" ++ y ∧ trigger = y ++ "_" ++ endpoint

theorem clash_of_append {n e x : List Char} (h : n ++ '_' :: e = ['s', 'b', '_'] ++ x) :
    (n = ['s', 'b'] ∧ x = e) ∨ ∃ y, n = ['s', 'b', '_'] ++ y ∧ x = y ++ '_' :: e := by
  cases n with
  | nil => simp at h
  | cons a n =>
    cases n with
    | nil => simp at h
    | cons b n =>
      cases n with
      | nil =>
        left
        simp only [List.cons_append, List.nil_append, List.cons.injEq, true_and] at h
        obtain ⟨rfl, rfl, rfl⟩ := h
        exact ⟨rfl, rfl⟩
      | cons c y =>
        right
        simp only [List.cons_append, List.nil_append, List.cons.injEq] at h
        obtain ⟨rfl, rfl, rfl, rfl⟩ := h
        exact ⟨y, rfl, rfl⟩

theorem toList_routeName (name endpoint : String) : (routeName name endpoint).toList =
    "aflg_".toList ++ (name.toList ++ '_' :: endpoint.toList) := by
  simp [routeName]

theorem toList_serviceBusName (trigger : String) : (serviceBusName trigger).toList =
    "aflg_".toList ++ (['s', 'b', '_'] ++ trigger.toList) := by
  simp [serviceBusName]

theorem routeName_eq_serviceBusName_iff {name endpoint trigger : String} :
    routeName name endpoint = serviceBusName trigger ↔ Clash name endpoint trigger := by
  rw [← String.toList_inj, toList_routeName, toList_serviceBusName, List.append_cancel_left_eq]
  constructor
  · intro h
    cases clash_of_append h with
    | inl h => exact .inl ⟨String.toList_injective h.1, String.toList_injective h.2⟩
    | inr h =>
      obtain ⟨y, hname, htrigger⟩ := h
      refine .inr ⟨String.ofList y, String.toList_injective ?_, String.toList_injective ?_⟩
      · simp [hname]
      · simp [htrigger]
  · rintro (⟨rfl, rfl⟩ | ⟨y, rfl, rfl⟩)
    · simp
    · simp

/-- What keeps the names apart: no graph route reads as a Service Bus trigger, and none as the
streaming route of the platform. -/
structure Apart (app : LangGraphApp) : Prop where
  triggers : ∀ name reg trigger sb, app.registrations.get? name = some reg →
    app.sbRegistrations.get? trigger = some sb → ∀ endpoint ∈ endpointsOf reg,
      ¬Clash name endpoint trigger
  platform : app.platformCompat → ∀ reg, app.registrations.get? "platform_runs" = some reg →
    reg.streamEnabled = false

theorem nodup_endpointsOf (reg : GraphRegistration) : (endpointsOf reg).Nodup := by
  rw [endpointsOf]
  split <;> split <;> decide

theorem Named.mem_graphNames (h : Named app) {s : String} : s ∈ graphNames app ↔
    ∃ name reg, app.registrations.get? name = some reg ∧
      ∃ endpoint ∈ endpointsOf reg, s = routeName name endpoint := by
  simp only [graphNames, List.mem_flatMap, List.mem_map]
  constructor
  · rintro ⟨p, hp, endpoint, he, rfl⟩
    exact ⟨p.1, p.2, Dict.get?_eq_some_iff.mpr hp, endpoint, he, by rw [h.graphs p hp]⟩
  · rintro ⟨name, reg, hget, endpoint, he, rfl⟩
    have hmem := Dict.get?_eq_some_iff.mp hget
    exact ⟨_, hmem, endpoint, he, by rw [h.graphs _ hmem]⟩

theorem Named.mem_sbNames (h : Named app) {s : String} : s ∈ sbNames app ↔
    ∃ trigger sb, app.sbRegistrations.get? trigger = some sb ∧ s = serviceBusName trigger := by
  simp only [sbNames, List.mem_map]
  constructor
  · rintro ⟨p, hp, rfl⟩
    exact ⟨p.1, p.2, Dict.get?_eq_some_iff.mpr hp, by rw [h.triggers p hp]⟩
  · rintro ⟨trigger, sb, hget, rfl⟩
    have hmem := Dict.get?_eq_some_iff.mp hget
    exact ⟨_, hmem, by rw [h.triggers _ hmem]⟩

theorem Named.graphNames_nodup (h : Named app) : (graphNames app).Nodup := by
  rw [graphNames, List.nodup_flatMap]
  constructor
  · intro p hp
    apply List.Nodup.map_on _ (nodup_endpointsOf p.2)
    intro d hd e he heq
    apply (routeName_injective (mem_endpoints hd) (mem_endpoints he) heq).2
  · apply (List.pairwise_map.mp app.registrations.nodup).imp_of_mem
    intro p q hp hq hne s hs ht
    obtain ⟨d, hd, rfl⟩ := List.mem_map.mp hs
    obtain ⟨e, he, heq⟩ := List.mem_map.mp ht
    have hname := (routeName_injective (mem_endpoints he) (mem_endpoints hd) heq).1
    rw [h.graphs p hp, h.graphs q hq] at hname
    exact hne hname.symm

theorem Named.sbNames_nodup (h : Named app) : (sbNames app).Nodup := by
  have hkeys : sbNames app = (app.sbRegistrations.items.map Prod.fst).map serviceBusName := by
    rw [sbNames, List.map_map]
    apply List.map_congr_left
    intro p hp
    rw [h.triggers p hp]
    rfl
  rw [hkeys]
  apply app.sbRegistrations.nodup.map
  intro m n heq
  apply serviceBusName_injective heq

def fixedOf (app : LangGraphApp) : List String :=
  healthNames app ++ (if app.platformCompat then platformNames else []) ++
    if app.asyncRuns then durableNames else []

theorem functionNames_perm (app : LangGraphApp) :
    (functionNames app).Perm (graphNames app ++ sbNames app ++ fixedOf app) := by
  rw [functionNames, fixedOf, List.append_assoc (healthNames app), ← List.append_assoc _ _ (ite ..)]
  apply List.Perm.append_right
  rw [← List.append_assoc (graphNames app ++ sbNames app)]
  apply List.Perm.append_right
  apply List.perm_append_comm

theorem ite_sublist (b : Bool) (l : List String) : (if b then l else []).Sublist l := by
  split
  · exact List.Sublist.refl l
  · exact List.nil_sublist l

theorem fixedOf_sublist (app : LangGraphApp) : (fixedOf app).Sublist fixedNames := by
  apply List.Sublist.append
  · apply List.Sublist.append
    · apply List.Sublist.append_left (ite_sublist _ ["aflg_health_ready"])
    · apply ite_sublist
  · apply ite_sublist

theorem stream_mem_fixedOf_iff (app : LangGraphApp) :
    routeName "platform_runs" "stream" ∈ fixedOf app ↔ app.platformCompat := by
  rw [fixedOf, healthNames]
  cases app.readinessChecks <;> cases app.platformCompat <;> cases app.asyncRuns <;> decide +kernel

theorem Named.nodup_iff (h : Named app) : (functionNames app).Nodup ↔ Apart app := by
  have hfixed : (fixedOf app).Nodup := (fixedOf_sublist app).nodup (by decide +kernel)
  rw [(functionNames_perm app).nodup_iff, List.nodup_append, List.nodup_append]
  constructor
  · rintro ⟨⟨-, -, hroutes⟩, -, hapart⟩
    constructor
    · intro name reg trigger sb hreg hsb endpoint he hclash
      apply hroutes _ (h.mem_graphNames.mpr ⟨name, reg, hreg, endpoint, he, rfl⟩) _
        (h.mem_sbNames.mpr ⟨trigger, sb, hsb, rfl⟩)
      exact routeName_eq_serviceBusName_iff.mpr hclash
    · intro hplatform reg hreg
      cases hstream : reg.streamEnabled with
      | false => rfl
      | true =>
        have hmem : "stream" ∈ endpointsOf reg := by simp [endpointsOf, hstream]
        exact absurd rfl (hapart _ (List.mem_append_left _
          (h.mem_graphNames.mpr ⟨_, reg, hreg, _, hmem, rfl⟩)) _
          ((stream_mem_fixedOf_iff app).mpr hplatform))
  · intro hapart
    refine ⟨⟨h.graphNames_nodup, h.sbNames_nodup, ?_⟩, hfixed, ?_⟩
    · intro s hs t ht heq
      obtain ⟨name, reg, hreg, endpoint, he, rfl⟩ := h.mem_graphNames.mp hs
      obtain ⟨trigger, sb, hsb, rfl⟩ := h.mem_sbNames.mp ht
      exact hapart.triggers name reg trigger sb hreg hsb endpoint he
        (routeName_eq_serviceBusName_iff.mp heq)
    · intro s hs t ht heq
      subst heq
      have hmem := (fixedOf_sublist app).subset ht
      cases List.mem_append.mp hs with
      | inl hs =>
        obtain ⟨name, reg, hreg, endpoint, he, rfl⟩ := h.mem_graphNames.mp hs
        obtain ⟨rfl, rfl⟩ := routeName_eq_fixed (mem_endpoints he) hmem
        have hstream := hapart.platform ((stream_mem_fixedOf_iff app).mp ht) reg hreg
        simp [endpointsOf, hstream] at he
      | inr hs =>
        obtain ⟨trigger, sb, hsb, rfl⟩ := h.mem_sbNames.mp hs
        exact serviceBusName_not_fixed trigger hmem

def LangGraphApp.new (platformCompat asyncRuns readinessChecks : Bool) : LangGraphApp :=
  ⟨platformCompat, asyncRuns, readinessChecks, ∅, ∅⟩

theorem named_new (platformCompat asyncRuns readinessChecks : Bool) :
    Named (.new platformCompat asyncRuns readinessChecks) where
  graphs := by
    intro p hp
    cases hp
  triggers := by
    intro p hp
    cases hp

/-- Whatever calls were accepted, the app is built with distinct names exactly where no graph route
reads as a trigger, or as the streaming route of the platform. -/
theorem function_names_distinct_iff (platformCompat asyncRuns readinessChecks : Bool)
    (calls : List Call) (app : LangGraphApp)
    (h : (LangGraphApp.new platformCompat asyncRuns readinessChecks).applyAll calls = .ok app) :
    (functionNames app).Nodup ↔ Apart app :=
  ((named_new ..).applyAll h).nodup_iff

def syncGraph : GraphObject := ⟨"CompiledStateGraph", true, true, true⟩

def graphCall (name : String) : Call := .register ⟨syncGraph, name, true, false, .none, .none⟩

def queueCall (name : String) : Call :=
  .registerServiceBus ⟨syncGraph, name, some "jobs", none, none, false, .finite 5, ∅, false, false⟩

theorem function_names_distinct_iff_jobs :
    ∃ app, (LangGraphApp.new true true true).applyAll [graphCall "agent", queueCall "jobs"] =
      .ok app ∧ ((functionNames app).Nodup ↔ Apart app) :=
  ⟨_, rfl, function_names_distinct_iff true true true [graphCall "agent", queueCall "jobs"] _ rfl⟩

/-- The graph `sb_x` and the trigger `x_invoke` are both accepted, and share a name. -/
theorem names_meet :
    ¬∀ (platformCompat asyncRuns readinessChecks : Bool) (calls : List Call) (app : LangGraphApp),
      (LangGraphApp.new platformCompat asyncRuns readinessChecks).applyAll calls = .ok app →
        (functionNames app).Nodup := by
  intro h
  have hnodup := h false false false [graphCall "sb_x", queueCall "x_invoke"] _ rfl
  revert hnodup
  decide +kernel

end LangGraphFunctions.Registration

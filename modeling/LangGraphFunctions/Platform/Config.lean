import LangGraphFunctions.Platform.Contracts

/-! The config of a run: what the client sends, what the routes make of it, and what the graph's
checkpointer finds in it. -/

namespace LangGraphFunctions.Platform

open Lib

structure PlatformError where
  statusCode : Nat
  detail : String

def configurableKey : Json.Key := .str "configurable"
def threadIdKey : Json.Key := .str "thread_id"
def ownershipGuardConfigKey : Json.Key := .str "__pregel_azfunc_ownership_guard"

structure ClientConfig where
  entries : JsonObject
  configurable : ∀ v, entries.get? configurableKey = some v → v = .null ∨ ∃ items, v = .dict items

variable {γ : Type}

/-- A value in the configurable map: the client's JSON or the guard of the lock that the run holds. -/
inductive Setting (γ : Type)
  | json (v : Json.Value)
  | guard (g : γ)

inductive Entry (γ : Type)
  | json (v : Json.Value)
  | settings (d : Dict Json.Key (Setting γ))

abbrev RunConfig (γ : Type) := Dict Json.Key (Entry γ)

def settingsOfJson (o : JsonObject) : Dict Json.Key (Setting γ) := o.mapValues .json

/-- `user_config.pop("configurable", {}) or {}`. -/
def ClientConfig.userConfigurable (config : ClientConfig) : JsonObject :=
  match config.entries.get? configurableKey with
  | some (.dict items) => Dict.ofList items
  | _ => ∅

def ClientConfig.userConfig (config : ClientConfig) : RunConfig γ :=
  (config.entries.erase configurableKey).mapValues .json

def nonempty (config : Option ClientConfig) : Option ClientConfig :=
  config.filter fun config => !config.entries.items.isEmpty

def buildThreadedConfig (config : Option ClientConfig) (threadId : String) : RunConfig γ :=
  let pinned : Dict Json.Key (Setting γ) := Dict.ofList [(threadIdKey, .json (.str threadId))]
  match nonempty config with
  | none => Dict.ofList [(configurableKey, .settings pinned)]
  | some config =>
    let configurable := pinned.update (settingsOfJson config.userConfigurable)
    let configurable := configurable.set threadIdKey (.json (.str threadId))
    (Dict.ofList [(configurableKey, Entry.settings configurable)]).update config.userConfig

def Setting.isNone : Setting γ → Bool
  | .json .null => true
  | _ => false

def Entry.settings? : Entry γ → Option (Dict Json.Key (Setting γ))
  | .settings d => some d
  | .json (.dict items) => some (settingsOfJson (Dict.ofList items))
  | .json _ => none

def configurableOf (config : RunConfig γ) : Option (Dict Json.Key (Setting γ)) :=
  (config.get? configurableKey).bind Entry.settings?

def threadlessConfig (config : Option ClientConfig) : RunConfig γ :=
  match nonempty config with
  | none => ∅
  | some config =>
    (Dict.ofList [(configurableKey, .settings (settingsOfJson config.userConfigurable))]).update
      config.userConfig

def buildThreadlessConfig (config : Option ClientConfig) : Except PlatformError (RunConfig γ) :=
  let config := threadlessConfig config
  match ((configurableOf config).getD ∅).get? threadIdKey with
  | none => .ok config
  | some s =>
    if s.isNone then .ok config
    else .error ⟨422, "thread_id is not allowed on threadless runs"⟩

def withoutGuardKey {α : Type} (d : Dict Json.Key α) : Dict Json.Key α :=
  d.filterKeys fun key => key != ownershipGuardConfigKey

def configWithOwnershipGuard (config : RunConfig γ) (guard : Option γ) : RunConfig γ :=
  let configurableMap := configurableOf config
  let hasStrayKey := config.contains ownershipGuardConfigKey ||
    configurableMap.any fun d => d.contains ownershipGuardConfigKey
  if guard.isNone && !hasStrayKey then config
  else
    let result := withoutGuardKey config
    let cleaned := withoutGuardKey (configurableMap.getD ∅)
    match guard, configurableMap with
    | some g, _ =>
      result.set configurableKey (.settings (cleaned.set ownershipGuardConfigKey (.guard g)))
    | none, some _ => result.set configurableKey (.settings cleaned)
    | none, none => result

/-- The configurable map that reaches the checkpointer: top-level entries that `moved` picks are put
over those already there. -/
def effectiveConfigurable (moved : Json.Key → Json.Value → Bool) (config : RunConfig γ) :
    Dict Json.Key (Setting γ) :=
  ((configurableOf config).getD ∅).update (config.filterMap fun key entry =>
    match entry with
    | .json v => if moved key v then some (.json v) else none
    | .settings _ => none)

def topThreadId (config : Option ClientConfig) : Option Json.Value :=
  (nonempty config).bind fun config => config.entries.get? threadIdKey

def configurableThreadId (config : Option ClientConfig) : Option Json.Value :=
  (nonempty config).bind fun config => config.userConfigurable.get? threadIdKey

variable {moved : Json.Key → Json.Value → Bool} {config : Option ClientConfig} {threadId : String}

theorem get?_effectiveConfigurable (c : RunConfig γ) {top : Option Json.Value}
    (h : c.get? threadIdKey = top.map .json) :
    (effectiveConfigurable moved c).get? threadIdKey =
      ((top.filter (moved threadIdKey)).map .json).or (((configurableOf c).getD ∅).get? threadIdKey) := by
  rw [effectiveConfigurable, Dict.get?_update, Dict.get?_filterMap, h]
  cases top with
  | none => rfl
  | some v =>
    cases hv : moved threadIdKey v with
    | true => simp [hv, Option.filter]
    | false => simp [hv, Option.filter]

@[simp] theorem get?_withoutGuardKey {α : Type} (d : Dict Json.Key α) {key : Json.Key}
    (h : key ≠ ownershipGuardConfigKey) : (withoutGuardKey d).get? key = d.get? key := by
  rw [withoutGuardKey, Dict.get?_filterKeys, if_pos (bne_iff_ne.mpr h)]

theorem configurableOf_set (c : RunConfig γ) (d : Dict Json.Key (Setting γ)) :
    configurableOf (c.set configurableKey (.settings d)) = some d := by
  rw [configurableOf, Dict.get?_set_self]
  rfl

theorem get?_configWithOwnershipGuard (c : RunConfig γ) (guard : Option γ) {key : Json.Key}
    (hguard : key ≠ ownershipGuardConfigKey) (hkey : key ≠ configurableKey) :
    (configWithOwnershipGuard c guard).get? key = c.get? key := by
  rw [configWithOwnershipGuard]
  split
  · rfl
  · split
    · rw [Dict.get?_set_ne _ _ hkey, get?_withoutGuardKey _ hguard]
    · rw [Dict.get?_set_ne _ _ hkey, get?_withoutGuardKey _ hguard]
    · rw [get?_withoutGuardKey _ hguard]

theorem configurableOf_configWithOwnershipGuard (c : RunConfig γ) (guard : Option γ) {key : Json.Key}
    (hguard : key ≠ ownershipGuardConfigKey) :
    ((configurableOf (configWithOwnershipGuard c guard)).getD ∅).get? key =
      ((configurableOf c).getD ∅).get? key := by
  rw [configWithOwnershipGuard]
  split
  · rfl
  · split
    · rw [configurableOf_set, Option.getD_some, Dict.get?_set_ne _ _ hguard,
        get?_withoutGuardKey _ hguard]
    · rw [configurableOf_set, Option.getD_some, get?_withoutGuardKey _ hguard]
    · next hnone =>
      rw [configurableOf, get?_withoutGuardKey _ (by decide)]
      rfl

theorem get?_userConfig (config : ClientConfig) {key : Json.Key} (h : key ≠ configurableKey) :
    (config.userConfig (γ := γ)).get? key = (config.entries.get? key).map .json := by
  rw [ClientConfig.userConfig, Dict.get?_mapValues, Dict.get?_erase, if_neg h]

theorem configurableOf_update_userConfig (config : ClientConfig) (d : Dict Json.Key (Setting γ)) :
    configurableOf ((Dict.ofList [(configurableKey, Entry.settings d)]).update config.userConfig) =
      some d := by
  rw [configurableOf, Dict.get?_update, ClientConfig.userConfig, Dict.get?_mapValues,
    Dict.get?_erase, if_pos rfl]
  rfl

theorem get?_update_userConfig (config : ClientConfig) (d : Dict Json.Key (Setting γ)) :
    ((Dict.ofList [(configurableKey, Entry.settings d)]).update config.userConfig).get? threadIdKey =
      (config.entries.get? threadIdKey).map .json := by
  rw [Dict.get?_update, get?_userConfig config (by decide)]
  cases config.entries.get? threadIdKey <;> rfl

theorem get?_buildThreadedConfig :
    (buildThreadedConfig (γ := γ) config threadId).get? threadIdKey =
      (topThreadId config).map .json := by
  rw [buildThreadedConfig, topThreadId]
  cases nonempty config with
  | none => rfl
  | some config => exact get?_update_userConfig config _

theorem configurableOf_buildThreadedConfig :
    ((configurableOf (buildThreadedConfig (γ := γ) config threadId)).getD ∅).get? threadIdKey =
      some (.json (.str threadId)) := by
  rw [buildThreadedConfig]
  cases nonempty config with
  | none => rfl
  | some config =>
    change ((configurableOf (Dict.update _ _)).getD ∅).get? threadIdKey = _
    rw [configurableOf_update_userConfig, Option.getD_some, Dict.get?_set_self]

theorem get?_threadlessConfig :
    (threadlessConfig (γ := γ) config).get? threadIdKey = (topThreadId config).map .json := by
  rw [threadlessConfig, topThreadId]
  cases nonempty config with
  | none => rfl
  | some config => exact get?_update_userConfig config _

theorem configurableOf_threadlessConfig :
    ((configurableOf (threadlessConfig (γ := γ) config)).getD ∅).get? threadIdKey =
      (configurableThreadId config).map .json := by
  rw [threadlessConfig, configurableThreadId]
  cases nonempty config with
  | none => rfl
  | some config =>
    change ((configurableOf (Dict.update _ _)).getD ∅).get? threadIdKey = _
    rw [configurableOf_update_userConfig, Option.getD_some, settingsOfJson, Dict.get?_mapValues]
    rfl

theorem isNone_json {v : Json.Value} : (Setting.json v : Setting γ).isNone ↔ v = .null := by
  cases v <;> simp [Setting.isNone]

theorem buildThreadlessConfig_eq_ok {c : RunConfig γ} :
    buildThreadlessConfig config = .ok c ↔
      c = threadlessConfig config ∧ ∀ v, configurableThreadId config = some v → v = .null := by
  rw [buildThreadlessConfig]
  change (match ((configurableOf (threadlessConfig (γ := γ) config)).getD ∅).get? threadIdKey with
    | none => Except.ok (threadlessConfig config)
    | some s => if s.isNone then .ok (threadlessConfig config) else .error _) = .ok c ↔ _
  rw [configurableOf_threadlessConfig]
  cases configurableThreadId config with
  | none => simp [eq_comm]
  | some v =>
    simp only [Option.map_some, Option.some.injEq, forall_eq']
    split
    · next hv => simp [isNone_json.mp hv, eq_comm]
    · next hv => simp [mt isNone_json.mpr hv]

def effectiveThreadId (moved : Json.Key → Json.Value → Bool) (c : RunConfig γ) :
    Option (Setting γ) :=
  ((effectiveConfigurable moved c).get? threadIdKey).filter fun s => !s.isNone

theorem effective_threaded_iff (guard : Option γ) :
    (effectiveConfigurable moved (configWithOwnershipGuard (buildThreadedConfig config threadId)
        guard)).get? threadIdKey = some (.json (.str threadId)) ↔
      ∀ v, topThreadId config = some v → moved threadIdKey v → v = .str threadId := by
  have htop : (configWithOwnershipGuard (buildThreadedConfig config threadId) guard).get? threadIdKey =
      (topThreadId config).map .json := by
    rw [get?_configWithOwnershipGuard _ _ (by decide) (by decide), get?_buildThreadedConfig]
  rw [get?_effectiveConfigurable _ htop, configurableOf_configWithOwnershipGuard _ _ (by decide),
    configurableOf_buildThreadedConfig]
  cases topThreadId config with
  | none => simp
  | some v =>
    cases hv : moved threadIdKey v with
    | true => simp [Option.filter, hv]
    | false => simp [Option.filter, hv]

theorem effective_threadless_iff :
    (∀ c : RunConfig γ, buildThreadlessConfig config = .ok c → effectiveThreadId moved c = none) ↔
      (∃ v, configurableThreadId config = some v ∧ v ≠ .null) ∨
        ∀ v, topThreadId config = some v → moved threadIdKey v → v = .null := by
  simp only [buildThreadlessConfig_eq_ok, and_imp, forall_eq, effectiveThreadId,
    get?_effectiveConfigurable _ get?_threadlessConfig, configurableOf_threadlessConfig]
  have hmoved : ∀ rest : Option Json.Value, (∀ v, rest = some v → v = .null) →
      (((((topThreadId config).filter (moved threadIdKey)).map (Setting.json (γ := γ))).or
          (rest.map .json)).filter (fun s => !s.isNone) = none ↔
        ∀ v, topThreadId config = some v → moved threadIdKey v → v = .null) := by
    intro rest hrest
    have hkept : (rest.map (Setting.json (γ := γ))).filter (fun s => !s.isNone) = none := by
      cases rest with
      | none => rfl
      | some u => simp [Option.filter, isNone_json, hrest u rfl]
    cases topThreadId config with
    | none => simpa using hkept
    | some v =>
      cases hv : moved threadIdKey v with
      | true => simp [Option.filter, hv, isNone_json]
      | false => simpa [Option.filter, hv] using hkept
  cases hc : configurableThreadId config with
  | none =>
    have hnone : ∀ v : Json.Value, none = some v → v = .null := by simp
    simpa using hmoved none hnone
  | some u =>
    by_cases hu : u = .null
    · subst hu
      simpa using hmoved (some .null) fun v h => (Option.some.inj h).symm
    · simp [hu]

/-- A run works on the thread of its path, and a threadless run on none, exactly where the client
wrote no other `thread_id` at the top level for LangGraph to move. -/
theorem effective_thread_id_iff (moved : Json.Key → Json.Value → Bool) (guard : Option γ)
    (config : Option ClientConfig) (threadId : String) :
    ((effectiveConfigurable moved (configWithOwnershipGuard (buildThreadedConfig config threadId)
          guard)).get? threadIdKey = some (.json (.str threadId)) ↔
        ∀ v, topThreadId config = some v → moved threadIdKey v → v = .str threadId) ∧
      ((∀ c : RunConfig γ, buildThreadlessConfig config = .ok c → effectiveThreadId moved c = none) ↔
        (∃ v, configurableThreadId config = some v ∧ v ≠ .null) ∨
          ∀ v, topThreadId config = some v → moved threadIdKey v → v = .null) :=
  ⟨effective_threaded_iff guard, effective_threadless_iff⟩

def knownKeys : List Json.Key :=
  [.str "tags", .str "metadata", .str "callbacks", .str "run_name", .str "max_concurrency",
    .str "recursion_limit", configurableKey, .str "run_id"]

def movesUnknown (key : Json.Key) : Json.Value → Bool
  | .null => false
  | _ => !knownKeys.contains key

def victimConfig : ClientConfig :=
  ⟨Dict.ofList [(threadIdKey, .str "victim")], fun _ h => nomatch h⟩

theorem not_pinned_victim :
    (¬∀ config threadId, (effectiveConfigurable movesUnknown (configWithOwnershipGuard
        (buildThreadedConfig config threadId) (none : Option Unit))).get? threadIdKey =
      some (.json (.str threadId))) ∧
    ¬∀ config (c : RunConfig Unit), buildThreadlessConfig config = .ok c →
      effectiveThreadId movesUnknown c = none := by
  constructor
  · intro h
    have hmine : some (Setting.json (.str "victim")) = some (.json (.str "mine")) :=
      h (some victimConfig) "mine"
    simp at hmine
  · intro h
    have hnone : some (Setting.json (.str "victim")) = none := h (some victimConfig) _ rfl
    exact nomatch hnone

end LangGraphFunctions.Platform

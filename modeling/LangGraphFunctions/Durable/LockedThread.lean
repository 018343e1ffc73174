import LangGraphFunctions.Durable.Activity

/-! Which thread lock the activity holds while the graph runs. -/

namespace LangGraphFunctions.Durable

open Lib Platform Prog

variable {γ : Type}

/-- LangGraph can read a `configurable` that is absent, null or an object. -/
def Derivable (config : RunConfig γ) : Bool :=
  match config.get? configurableKey with
  | none => true
  | some (.json .null) => true
  | some entry => entry.settings?.isSome

def settingText : Setting γ → Option String
  | .json v => some (Builtins.str v)
  | .guard _ => none

/-- The thread the saver works on, where LangGraph derives one from the config. -/
def threadOf (moved : Json.Key → Json.Value → Bool) (config : Option (RunConfig γ)) :
    Option String :=
  config.bind fun config =>
    if Derivable config then (effectiveThreadId moved config).bind settingText else none

def Holding (graphName threadId : String) (w : Transcript (Host.interface γ)) : Prop :=
  ∃ timeout token, ⟨.acquire graphName (.str threadId) timeout, .ok (some token)⟩ ∈ w ∧
    ∀ a, ⟨.release graphName (.str threadId) token, a⟩ ∉ w

/-- The graph is invoked under the lock of the thread that its checkpointer will use. -/
def LockedThread (moved : Json.Key → Json.Value → Bool) :
    Host.Op γ → Transcript (Host.interface γ) → Prop
  | .invoke graphCall, w =>
    ∀ t, threadOf moved graphCall.config = some t → Holding graphCall.graphName t w
  | _, _ => True

def DurableRunPayload.effectiveId (moved : Json.Key → Json.Value → Bool)
    (payload : DurableRunPayload) : Json.Value :=
  ((payload.config.get? threadIdKey).filter (moved threadIdKey)).getD payload.threadId

def DurableRunPayload.Reaches (payload : DurableRunPayload) : Prop :=
  ∀ v, payload.config.get? configurableKey = some v →
    (∃ items, v = .dict items) ∨ payload.threadId = .null ∧ v = .null

/-- The thread id in the end is none, or it is the text that is locked. -/
def DurableRunPayload.LockMatches (moved : Json.Key → Json.Value → Bool)
    (payload : DurableRunPayload) : Prop :=
  payload.Reaches → payload.effectiveId moved = .null ∨
    ∃ s, s ≠ "" ∧ payload.threadId = .str s ∧ Builtins.str (payload.effectiveId moved) = s

variable {moved : Json.Key → Json.Value → Bool} {payload : DurableRunPayload}

theorem get?_effectiveConfigurable_guarded (config : RunConfig γ) (guard : Option γ)
    {top : Option Json.Value} (h : config.get? threadIdKey = top.map .json) :
    (effectiveConfigurable moved (Platform.configWithOwnershipGuard config guard)).get? threadIdKey =
      ((top.filter (moved threadIdKey)).map .json).or
        (((configurableOf config).getD ∅).get? threadIdKey) := by
  have htop : (Platform.configWithOwnershipGuard config guard).get? threadIdKey = top.map .json := by
    rw [get?_configWithOwnershipGuard _ _ (by decide) (by decide), h]
  rw [get?_effectiveConfigurable _ htop, configurableOf_configWithOwnershipGuard _ _ (by decide)]

theorem derivable_configWithOwnershipGuard {config : RunConfig γ} {guard : Option γ}
    (h : guard = none ∨ Derivable config) :
    Derivable (Platform.configWithOwnershipGuard config guard) = Derivable config := by
  rw [Platform.configWithOwnershipGuard]
  split
  · rfl
  · cases guard with
    | some g =>
      simp only [Derivable, Dict.get?_set_self]
      exact (h.resolve_left (Option.some_ne_none g)).symm
    | none =>
      cases hmap : configurableOf config with
      | none =>
        simp only [Derivable]
        rw [get?_withoutGuardKey _ (by decide)]
      | some d =>
        obtain ⟨entry, hentry, hsettings⟩ := Option.bind_eq_some_iff.mp hmap
        simp only [Derivable, Dict.get?_set_self, hentry]
        cases entry with
        | settings d => rfl
        | json v => cases v <;> first | rfl | cases hsettings

theorem settingText_eq_some {top conf : Option Json.Value} {t : String} :
    ((((top.map .json).or (conf.map .json) : Option (Setting γ)).filter fun s => !s.isNone).bind
        settingText) = some t ↔
      (top.or conf).getD .null ≠ .null ∧ Builtins.str ((top.or conf).getD .null) = t := by
  have hone : ∀ v : Json.Value, (((some (.json v) : Option (Setting γ)).filter fun s => !s.isNone).bind
      settingText) = some t ↔ v ≠ .null ∧ Builtins.str v = t := by
    intro v
    cases v <;> simp [Option.filter, Setting.isNone, settingText]
  cases top with
  | some v => exact hone v
  | none =>
    cases conf with
    | some v => exact hone v
    | none => simp [Option.filter]

def DurableRunPayload.NamesThread (payload : DurableRunPayload) : Prop :=
  payload.threadId = .null → ∀ items, payload.config.get? configurableKey = some (.dict items) →
    ((Dict.ofList items).get? threadIdKey).getD .null = .null

theorem createRunImpl_namesThread {body : JsonObject} {graphName uuid : String}
    (h : createRunImpl body graphName uuid = .ok payload) : payload.NamesThread := by
  obtain ⟨config, -, ⟨⟩⟩ := bind_eq_ok.mp h
  intro hnull items hitems
  change config.get? configurableKey = some (.dict items) at hitems
  cases hid : DurableRunPayload.get body "thread_id" with
  | null => simpa only [hid, hitems] using hnull
  | _ =>
    simp only [hid, hitems] at hnull
    cases hnull

theorem threadOf_some {config : RunConfig γ} {guard : Option γ} {top conf : Option Json.Value}
    {t : String} (htop : config.get? threadIdKey = top.map .json)
    (hconf : ((configurableOf config).getD ∅).get? threadIdKey = conf.map .json)
    (hguard : guard = none ∨ Derivable config) :
    threadOf moved (Host.configWithOwnershipGuard (some config) guard) = some t ↔
      Derivable config ∧ ((top.filter (moved threadIdKey)).or conf).getD .null ≠ .null ∧
        Builtins.str (((top.filter (moved threadIdKey)).or conf).getD .null) = t := by
  change (if Derivable (Platform.configWithOwnershipGuard config guard) then _ else none) = _ ↔ _
  rw [derivable_configWithOwnershipGuard hguard, effectiveThreadId,
    get?_effectiveConfigurable_guarded config guard htop, hconf]
  cases Derivable config with
  | false => simp
  | true => simpa using settingText_eq_some

theorem reaches_null (h : payload.threadId = .null) :
    payload.Reaches ↔ Derivable (payload.config.mapValues .json : RunConfig γ) := by
  simp only [DurableRunPayload.Reaches, h, true_and, Derivable, Dict.get?_mapValues]
  cases payload.config.get? configurableKey with
  | none => simp
  | some v => cases v <;> simp [Entry.settings?]

theorem or_getD_eq {top conf : Option Json.Value} {v : Json.Value} (h : conf.getD .null = v) :
    (top.or conf).getD .null = top.getD v := by
  subst h
  cases top <;> rfl

theorem threadOf_runConfigOf (hnames : payload.NamesThread) {config : Option (RunConfig γ)}
    (h : runConfigOf payload = .ok config) {guard : Option γ}
    (hguard : guard = none ∨ payload.threadId ≠ .null) {t : String} :
    threadOf moved (Host.configWithOwnershipGuard config guard) = some t ↔
      payload.Reaches ∧ payload.effectiveId moved ≠ .null ∧
        Builtins.str (payload.effectiveId moved) = t := by
  by_cases hnull : payload.threadId = .null
  · have hnone : guard = none := hguard.resolve_right (absurd hnull)
    subst hnone
    rw [runConfigOf, hnull] at h
    have hconf : ∃ conf : Option Json.Value, conf.getD .null = .null ∧
        ((configurableOf (payload.config.mapValues .json : RunConfig γ)).getD ∅).get? threadIdKey =
          conf.map .json := by
      rw [configurableOf, Dict.get?_mapValues]
      cases hv : payload.config.get? configurableKey with
      | none => exact ⟨none, rfl, rfl⟩
      | some v =>
        cases v with
        | dict items =>
          exact ⟨_, hnames hnull items hv, Dict.get?_mapValues ..⟩
        | _ => exact ⟨none, rfl, rfl⟩
    obtain ⟨conf, hgetD, hconf⟩ := hconf
    have hsome : threadOf moved (Host.configWithOwnershipGuard
        (some (payload.config.mapValues .json : RunConfig γ)) none) = some t ↔ _ :=
      threadOf_some (Dict.get?_mapValues ..) hconf (.inl rfl)
    rw [or_getD_eq hgetD, ← reaches_null hnull] at hsome
    rw [DurableRunPayload.effectiveId, hnull]
    cases hempty : payload.config.items.isEmpty with
    | false =>
      rw [hempty] at h
      cases h
      exact hsome
    | true =>
      rw [hempty] at h
      cases h
      have hget : payload.config.get? threadIdKey = none := by
        rw [Dict.get?, List.isEmpty_iff.mp hempty]
        rfl
      rw [hget]
      exact iff_of_false (fun h => by cases h) fun h => h.2.1 rfl
  · rw [runConfigOf] at h
    split at h
    · next hid => exact absurd hid hnull
    · obtain ⟨configurable, hconfigurable, ⟨⟩⟩ := bind_eq_ok.mp h
      have hreaches : payload.Reaches := by
        intro v hv
        rw [spreadConfigurable, hv] at hconfigurable
        cases v with
        | dict items => exact .inl ⟨items, rfl⟩
        | _ => cases hconfigurable
      have htop : ((payload.config.mapValues .json : RunConfig γ).set configurableKey
          (.settings ((settingsOfJson configurable).set threadIdKey (.json payload.threadId)))).get?
          threadIdKey = (payload.config.get? threadIdKey).map .json := by
        rw [Dict.get?_set_ne _ _ (by decide), Dict.get?_mapValues]
      have hconf : ((configurableOf ((payload.config.mapValues .json : RunConfig γ).set configurableKey
          (.settings ((settingsOfJson configurable).set threadIdKey (.json payload.threadId))))).getD
          ∅).get? threadIdKey = (some payload.threadId).map .json := by
        rw [configurableOf_set, Option.getD_some, Dict.get?_set_self]
        rfl
      have hderivable : Derivable ((payload.config.mapValues .json : RunConfig γ).set configurableKey
          (.settings ((settingsOfJson configurable).set threadIdKey (.json payload.threadId)))) := by
        simp [Derivable, Entry.settings?]
      rw [threadOf_some htop hconf (.inr hderivable), or_getD_eq rfl]
      exact and_congr_left fun _ => iff_of_true hderivable hreaches

def HoldsOnly (graphName : String) (lock : Option Json.Value)
    (w : Transcript (Host.interface γ)) : Prop :=
  ∀ s, Holding graphName s w ↔ lock = some (.str s)

def IsLockCall : Host.Op γ → Prop
  | .acquire .. => True
  | .release .. => True
  | _ => False

theorem holding_append {graphName s : String} {w : Transcript (Host.interface γ)} {o : Host.Op γ}
    (h : ¬IsLockCall o) (a : o.Ans) :
    Holding graphName s (w ++ [⟨o, a⟩]) ↔ Holding graphName s w := by
  have hmem : ∀ (o' : Host.Op γ) (a' : o'.Ans), IsLockCall o' →
      (⟨o', a'⟩ ∈ w ++ [⟨o, a⟩] ↔ (⟨o', a'⟩ : (o : Host.Op γ) × o.Ans) ∈ w) := by
    intro o' a' ho'
    rw [List.mem_append, List.mem_singleton]
    refine or_iff_left fun heq => ?_
    cases heq
    exact h ho'
  have hacquire := fun timeout token => hmem (.acquire graphName (.str s) timeout) (.ok (some token)) trivial
  have hrelease := fun token a => hmem (.release graphName (.str s) token) a trivial
  simp only [Holding, hacquire, hrelease]

theorem HoldsOnly.append {graphName : String} {lock : Option Json.Value}
    {w : Transcript (Host.interface γ)} (h : HoldsOnly graphName lock w) {o : Host.Op γ}
    (ho : ¬IsLockCall o) (a : o.Ans) : HoldsOnly graphName lock (w ++ [⟨o, a⟩]) :=
  fun s => (holding_append ho a).trans (h s)

theorem HoldsOnly.acquire {graphName : String} {w : Transcript (Host.interface γ)}
    (h : ∀ x ∈ w, ¬IsLockCall x.1) (threadId : Json.Value) (timeout : Rat) (token : String) :
    HoldsOnly graphName (some threadId)
      (w ++ [⟨.acquire graphName threadId timeout, .ok (some token)⟩]) := by
  intro s
  constructor
  · rintro ⟨_, _, hmem, -⟩
    cases List.mem_append.mp hmem with
    | inl hmem => exact absurd trivial (h _ hmem)
    | inr hmem =>
      cases List.mem_singleton.mp hmem
      rfl
  · rintro ⟨⟩
    refine ⟨timeout, token, by simp, fun a hmem => ?_⟩
    cases List.mem_append.mp hmem with
    | inl hmem => exact absurd trivial (h _ hmem)
    | inr hmem => exact nomatch List.mem_singleton.mp hmem

theorem HoldsOnly.none {graphName : String} {w : Transcript (Host.interface γ)}
    (h : ∀ x ∈ w, ¬IsLockCall x.1) : HoldsOnly graphName none w :=
  fun _ => iff_of_false (fun ⟨_, _, hmem, _⟩ => h _ hmem trivial) fun h => nomatch h

abbrev Locked {α : Type} (moved : Json.Key → Json.Value → Bool) (p : Host γ α)
    (w : Transcript (Host.interface γ)) : Prop :=
  p.Along Host.Answers (LockedThread moved) (fun _ _ => True) w

theorem locked_ofExcept {α : Type} {r : Host.Result α} {w : Transcript (Host.interface γ)} :
    Locked moved (.ofExcept r) w := by
  cases r <;> trivial

theorem locked_bind {α β : Type} {p : Host γ α} {f : α → Host γ β}
    {w : Transcript (Host.interface γ)} (hp : Locked moved p w) (hf : ∀ a w, Locked moved (f a) w) :
    Locked moved (p >>= f) w := by
  refine safe_bind.mpr (hp.mono fun r w' _ => ?_)
  cases r with
  | ok a => exact hf a w'
  | error e => trivial

theorem locked_afterwards {guard : Option γ} {value : Json.Value}
    {w : Transcript (Host.interface γ)} :
    Locked moved (do
      Host.checkOwnershipGuard guard
      Host.exceptException
        (do
          let text ← Host.dumps value
          .ofExcept ((loads text).mapError .exception))
        fun _ => .raise (.exception .outputSerializationError)) w := by
  refine locked_bind ?_ fun _ w => ?_
  · cases guard with
    | none => trivial
    | some guard => exact along_call.mpr fun a _ => ⟨trivial, locked_ofExcept⟩
  · refine along_call.mpr fun a _ => ⟨trivial, ?_⟩
    cases a with
    | error e => cases e <;> trivial
    | ok text =>
      change Locked moved (Prog.handle (.ofExcept ((loads text).mapError .exception)) _) _
      cases loads text <;> trivial

def DurableRunPayload.LockSuits (moved : Json.Key → Json.Value → Bool)
    (payload : DurableRunPayload) (lock : Option Json.Value) : Prop :=
  payload.Reaches → payload.effectiveId moved = .null ∨
    lock = some (.str (Builtins.str (payload.effectiveId moved)))

theorem invoke_locked {α : Type} {call : GraphCall γ} {f : GraphOutput → Host γ α}
    (hf : ∀ result w, Locked moved (f result) w) {w : Transcript (Host.interface γ)} :
    Locked moved (Host.invoke call >>= f) w ↔
      ∀ t, threadOf moved call.config = some t → Holding call.graphName t w := by
  constructor
  · intro h
    exact ((along_call.mp h) (.ok ⟨.null, false, false⟩) trivial).1
  · refine fun h => along_call.mpr fun a _ => ⟨h, ?_⟩
    cases a with
    | ok result => exact hf result _
    | error e => trivial

theorem runGraph_locked {reg : Registration} {lock : Option Json.Value} {token : Option String}
    {config : Option (RunConfig γ)} (hnames : payload.NamesThread)
    (hconfig : runConfigOf payload = .ok config) (hlock : lock.isSome → payload.threadId ≠ .null)
    {w : Transcript (Host.interface γ)} (hw : HoldsOnly reg.name lock w) :
    Locked moved (runGraph reg payload lock token config) w ↔ payload.LockSuits moved lock := by
  have hinvoke : ∀ (guard : Option γ) (w : Transcript (Host.interface γ)),
      (guard = none ∨ payload.threadId ≠ .null) → HoldsOnly reg.name lock w →
      (Locked moved (Host.invoke ⟨reg.name, payload.input,
        Host.configWithOwnershipGuard config guard, none, none⟩ >>= fun result => do
          Host.checkOwnershipGuard guard
          Host.exceptException
            (do
              let text ← Host.dumps result.value
              .ofExcept ((loads text).mapError .exception))
            fun _ => .raise (.exception .outputSerializationError)) w ↔
        payload.LockSuits moved lock) := by
    intro guard w hguard hw
    rw [invoke_locked fun _ _ => locked_afterwards]
    simp only [threadOf_runConfigOf hnames hconfig hguard, hw _, DurableRunPayload.LockSuits,
      and_imp, or_iff_not_imp_left]
    exact ⟨fun h hr hne => h _ hr hne rfl, fun h t hr hne ht => ht ▸ h hr hne⟩
  cases lock with
  | none => exact hinvoke none w (.inl rfl) hw
  | some threadId =>
    have hid := hlock rfl
    cases token with
    | none => exact hinvoke none w (.inl rfl) hw
    | some token =>
      rw [runGraph, Host.guardRunConfig, Host.ownershipGuardFor]
      split
      · exact hinvoke none w (.inl rfl) hw
      · constructor
        · intro h
          have hnone := (along_call.mp h (.ok none) trivial).2
          exact (hinvoke none _ (.inl rfl) (hw.append (o := .ownershipGuard reg.name threadId token) id _)).mp hnone
        · refine fun h => along_call.mpr fun a _ => ⟨trivial, ?_⟩
          cases a with
          | ok guard => exact (hinvoke guard _ (.inr hid) (hw.append (o := .ownershipGuard reg.name threadId token) id _)).mpr h
          | error e => trivial

theorem not_reaches_of_runConfigOf {e : Exn} (h : runConfigOf (γ := γ) payload = .error e) :
    ¬payload.Reaches := by
  intro hreaches
  rw [runConfigOf] at h
  split at h
  · exact nomatch h
  · next hnull =>
    rw [spreadConfigurable] at h
    cases hv : payload.config.get? configurableKey with
    | none =>
      rw [hv] at h
      exact nomatch h
    | some v =>
      obtain ⟨items, rfl⟩ := (hreaches v hv).resolve_right fun h => hnull h.1
      rw [hv] at h
      exact nomatch h

theorem executeLocked_locked {reg : Registration} {ctx : RunContext} {lock : Option Json.Value}
    {token : Option String} (hnames : payload.NamesThread)
    (hlock : lock.isSome → payload.threadId ≠ .null) (htoken : ¬(lock.isSome && token.isNone))
    {w : Transcript (Host.interface γ)} (hw : HoldsOnly reg.name lock w) :
    Locked moved (executeLocked reg payload ctx lock token) w ↔ payload.LockSuits moved lock := by
  rw [executeLocked, if_neg htoken]
  cases hconfig : runConfigOf (γ := γ) payload with
  | error e =>
    exact iff_of_true trivial fun hreaches => absurd hreaches (not_reaches_of_runConfigOf hconfig)
  | ok config =>
    have hw' := hw.append (o := .observe (.started ctx)) id ()
    have hgraph : Locked moved (runGraph reg payload lock token config) _ ↔ _ :=
      runGraph_locked hnames hconfig hlock hw'
    rw [← hgraph]
    constructor
    · intro h
      have hattempt : Locked moved ((runGraph reg payload lock token config).attempt >>= _) _ :=
        ((along_call.mp h) () trivial).2
      exact (safe_attempt.mp (safe_bind.mp hattempt)).mono fun _ _ _ => trivial
    · refine fun h => along_call.mpr fun _ _ => ⟨trivial, ?_⟩
      change Locked moved ((runGraph reg payload lock token config).attempt >>= _) _
      refine safe_bind.mpr (safe_attempt.mpr (h.mono fun r w' _ => ?_))
      cases r with
      | ok v => exact along_call.mpr fun _ _ => ⟨trivial, trivial⟩
      | error e =>
        refine along_call.mpr fun _ _ => ⟨trivial, ?_⟩
        cases e with
        | exception exc => exact locked_ofExcept
        | _ => trivial

theorem release_locked {graphName : String} {threadId : Json.Value} {token : String}
    {w : Transcript (Host.interface γ)} :
    Locked moved (Host.release graphName threadId token) w :=
  along_call.mpr fun _ _ => ⟨trivial, locked_ofExcept⟩

theorem locked_andFinally {α : Type} {p : Host γ α} {cleanup : Host γ Unit}
    (hcleanup : ∀ w, Locked moved cleanup w) {w : Transcript (Host.interface γ)} :
    Locked moved (p.andFinally cleanup) w ↔ Locked moved p w := by
  change Locked moved (p.attempt >>= fun r => cleanup >>= fun _ => .ofExcept r) w ↔ _
  constructor
  · intro h
    exact (safe_attempt.mp (safe_bind.mp h)).mono fun _ _ _ => trivial
  · intro h
    refine safe_bind.mpr (safe_attempt.mpr (h.mono fun r w' _ => ?_))
    exact locked_bind (hcleanup w') fun _ _ => locked_ofExcept

theorem asyncThreadLock_locked {reg : Registration} {ctx : RunContext} {lock : Option Json.Value}
    (hnames : payload.NamesThread) (hlock : lock.isSome → payload.threadId ≠ .null)
    {w : Transcript (Host.interface γ)} (hw : ∀ x ∈ w, ¬IsLockCall x.1) :
    Locked moved (Host.asyncThreadLock reg.name lock 0 (executeLocked reg payload ctx lock)) w ↔
      payload.LockSuits moved lock := by
  cases lock with
  | none => exact executeLocked_locked hnames hlock (by simp) (HoldsOnly.none hw)
  | some threadId =>
    have hbody : ∀ token, Locked moved (executeLocked reg payload ctx (some threadId) (some token))
        (w ++ [⟨.acquire reg.name threadId 0, .ok (some token)⟩]) ↔
          payload.LockSuits moved (some threadId) := fun token =>
      executeLocked_locked hnames hlock (by simp) (HoldsOnly.acquire hw threadId 0 token)
    constructor
    · intro h
      have hblock := ((along_call.mp h) (.ok (some "token")) trivial).2
      exact (hbody "token").mp ((locked_andFinally fun _ => release_locked).mp hblock)
    · refine fun h => along_call.mpr fun a _ => ⟨trivial, ?_⟩
      cases a with
      | error e => trivial
      | ok token =>
        cases token with
        | none => exact along_call.mpr fun _ _ => ⟨trivial, trivial⟩
        | some token => exact (locked_andFinally fun _ => release_locked).mpr ((hbody token).mpr h)

theorem executeLanggraphRunImpl_locked {registry : Registry} {reg : Registration}
    {lockBackend : String} (hreg : registry payload.graphName = some reg)
    (hnames : payload.NamesThread) :
    Locked moved (executeLanggraphRunImpl (γ := γ) registry lockBackend payload) [] ↔
      payload.LockSuits moved (lockThreadIdOf reg payload) := by
  have hlock : (lockThreadIdOf reg payload).isSome → payload.threadId ≠ .null := by
    rw [lockThreadIdOf]
    intro h hnull
    rw [hnull] at h
    exact nomatch h
  rw [executeLanggraphRunImpl, hreg]
  change Locked moved (Host.newRunContext _ >>= _) _ ↔ _
  rw [Host.newRunContext]
  split
  · constructor
    · intro h
      exact (asyncThreadLock_locked hnames hlock (by simp [IsLockCall])).mp
        ((along_call.mp h) "run" trivial).2
    · refine fun h => along_call.mpr fun a _ => ⟨trivial, ?_⟩
      exact (asyncThreadLock_locked hnames hlock (by simp [IsLockCall])).mpr h
  · exact asyncThreadLock_locked hnames hlock (by simp)

theorem lockMatches_iff {reg : Registration} (h : reg.hasCheckpointer) :
    payload.LockMatches moved ↔ payload.LockSuits moved (lockThreadIdOf reg payload) := by
  refine imp_congr_right fun _ => or_congr_right ?_
  rw [lockThreadIdOf, h, Bool.and_true]
  constructor
  · rintro ⟨s, hs, hid, htext⟩
    rw [hid, htext, if_pos (show Builtins.truthy (.str s) from bne_iff_ne.mpr hs)]
  · intro hlock
    split at hlock
    · next htruthy =>
      have hid := Option.some.inj hlock
      rw [hid] at htruthy
      exact ⟨_, bne_iff_ne.mp htruthy, hid, rfl⟩
    · exact nomatch hlock

theorem createRunImpl_of_accepted {registry : Registry} {graphName raw uuid : String} {maxBytes : Nat}
    (h : createRunHttp registry graphName raw uuid maxBytes = .ok (.accepted payload)) :
    ∃ body, createRunImpl body graphName uuid = .ok payload := by
  rw [createRunHttp] at h
  split at h
  · exact nomatch h
  · split at h
    · exact nomatch h
    · obtain ⟨payload', hcreate, ⟨⟩⟩ := bind_eq_ok.mp h
      exact ⟨_, hcreate⟩

theorem graphName_of_createRunImpl {body : JsonObject} {graphName uuid : String}
    (h : createRunImpl body graphName uuid = .ok payload) : payload.graphName = graphName := by
  obtain ⟨config, -, ⟨⟩⟩ := bind_eq_ok.mp h
  rfl

theorem invocations_locked_iff (moved : Json.Key → Json.Value → Bool) {registry : Registry}
    {reg : Registration} {lockBackend : String} (hreg : registry payload.graphName = some reg)
    (hnames : payload.NamesThread) :
    (∀ w (graphCall : GraphCall γ) k,
        (executeLanggraphRunImpl registry lockBackend payload).Plays Host.Answers w
          (.call (.invoke graphCall) k) →
        ∀ t, threadOf moved graphCall.config = some t → Holding graphCall.graphName t w) ↔
      payload.LockSuits moved (lockThreadIdOf reg payload) := by
  have hlocked : Locked moved (executeLanggraphRunImpl registry lockBackend payload : Host γ _) [] ↔ _ :=
    executeLanggraphRunImpl_locked hreg hnames
  rw [← hlocked]
  constructor
  · intro h
    refine along_of_plays fun w o k a hplays _ => ?_
    cases o with
    | invoke graphCall => exact h w graphCall k hplays
    | _ => trivial
  · intro h w graphCall k hplays
    exact hplays.before h (a := .ok ⟨.null, false, false⟩) trivial

/-- Wherever an accepted run of a checkpointed graph invokes it, the lock of the thread derived from
its config is held, exactly where the payload's thread id matches that thread. -/
theorem locked_thread_iff (moved : Json.Key → Json.Value → Bool) {registry : Registry}
    {reg : Registration} {graphName raw uuid lockBackend : String} {maxBytes : Nat}
    (haccepted : createRunHttp registry graphName raw uuid maxBytes = .ok (.accepted payload))
    (hreg : registry graphName = some reg) (hcheckpointer : reg.hasCheckpointer) :
    (∀ w (graphCall : GraphCall γ) k,
        (executeLanggraphRunImpl registry lockBackend payload).Plays Host.Answers w
          (.call (.invoke graphCall) k) →
        ∀ t, threadOf moved graphCall.config = some t → Holding graphCall.graphName t w) ↔
      payload.LockMatches moved := by
  obtain ⟨body, hcreate⟩ := createRunImpl_of_accepted haccepted
  rw [← graphName_of_createRunImpl hcreate] at hreg
  rw [lockMatches_iff hcheckpointer]
  exact invocations_locked_iff moved hreg (createRunImpl_namesThread hcreate)

def memoryOnly : Registry := fun name => if name = "memory" then some ⟨"memory", true⟩ else none

def threadPayload : DurableRunPayload where
  runId := "r"
  graphName := "memory"
  input := .null
  threadId := .str "t"
  config := ∅
  assistantId := .null
  correlationId := .null

def threadBody : String := "\x7b\"thread_id\":\"t\"\x7d"

theorem locked_thread_iff_threadPayload :
    createRunHttp memoryOnly "memory" threadBody "r" 1024 = .ok (.accepted threadPayload) ∧
      ∀ w (graphCall : GraphCall Unit) k,
        (executeLanggraphRunImpl memoryOnly "lock" threadPayload).Plays Host.Answers w
          (.call (.invoke graphCall) k) →
        ∀ t, threadOf movesUnknown graphCall.config = some t → Holding graphCall.graphName t w := by
  have haccepted : createRunHttp memoryOnly "memory" threadBody "r" 1024 =
    .ok (.accepted threadPayload) := rfl
  exact ⟨haccepted, (locked_thread_iff movesUnknown haccepted rfl rfl).mpr fun _ =>
    .inr ⟨"t", by decide, rfl, rfl⟩⟩

def movedThreadId : String := "\x7b\"config\":\x7b\"thread_id\":\"victim\"\x7d\x7d"

def movedPayload : DurableRunPayload :=
  { threadPayload with
    threadId := .null
    config := Dict.ofList [(threadIdKey, .str "victim")] }

/-- A thread id at the top level of the config is used without its lock. -/
theorem not_locked_movedThreadId :
    ¬∀ (registry : Registry) (reg : Registration) (graphName raw uuid lockBackend : String)
      (maxBytes : Nat) (payload : DurableRunPayload),
      createRunHttp registry graphName raw uuid maxBytes = .ok (.accepted payload) →
      registry graphName = some reg → reg.hasCheckpointer →
      ∀ w (graphCall : GraphCall Unit) k,
        (executeLanggraphRunImpl registry lockBackend payload).Plays Host.Answers w
          (.call (.invoke graphCall) k) →
        ∀ t, threadOf movesUnknown graphCall.config = some t → Holding graphCall.graphName t w := by
  intro h
  have hruns := h memoryOnly ⟨"memory", true⟩ "memory" movedThreadId "r" "lock" 1024 movedPayload
    rfl rfl rfl
  have hnames : movedPayload.NamesThread := fun _ _ hitems => nomatch hitems
  have hsuits := (invocations_locked_iff movesUnknown (by rfl) hnames).mp hruns
  cases hsuits fun _ hv => nomatch hv with
  | inl hnull => exact nomatch hnull
  | inr hlock => exact nomatch hlock

end LangGraphFunctions.Durable

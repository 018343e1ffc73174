import LangGraphFunctions.Host
import LangGraphFunctions.Lib.Objects

/-! The ownership guard on its way from the lock to the checkpointer: what a client writes under the
private key goes nowhere. -/

namespace LangGraphFunctions.Platform

open Lib

variable {γ : Type}

def Setting.guard? : Setting γ → Option γ
  | .guard g => some g
  | .json _ => none

/-- `bound` is the guard bound in the context. -/
def resolveOwnershipGuard (bound : Option γ) (config : Option (RunConfig γ)) : Option γ :=
  bound.or (((config.bind configurableOf).bind fun d => d.get? ownershipGuardConfigKey).bind
    Setting.guard?)

def effectiveConfig (moved : Json.Key → Json.Value → Bool) (config : RunConfig γ) : RunConfig γ :=
  (config.filterMap fun key entry =>
    match entry with
    | .json v => if moved key v then none else some (.json v)
    | .settings d => some (.settings d)).set configurableKey
      (.settings (effectiveConfigurable moved config))

inductive Slot (γ : Type)
  | json (v : Json.Value)
  | guard (g : γ)
  | ref (a : Nat)

abbrev Objects (γ : Type) := Heap Json.Key (Slot γ)

def Slot.ref? : Slot γ → Option Nat
  | .ref a => some a
  | _ => none

namespace Objects

def configWithOwnershipGuard (heap : Objects γ) (config : Option Nat) (guard : Option γ) :
    Objects γ × Option Nat :=
  let configurable := config.bind fun a => (heap.read a).get? configurableKey
  let configurableMap := configurable.bind Slot.ref?
  let hasStrayKey := config.any fun a => (heap.read a).contains ownershipGuardConfigKey ||
    configurableMap.any fun b => (heap.read b).contains ownershipGuardConfigKey
  if guard.isNone && !hasStrayKey then (heap, config)
  else
    let (heap, result) := heap.alloc (withoutGuardKey (config.elim ∅ heap.read))
    let (heap, cleaned) := heap.alloc (withoutGuardKey (configurableMap.elim ∅ heap.read))
    match guard, configurableMap with
    | some g, _ =>
      let heap := heap.setItem cleaned ownershipGuardConfigKey (.guard g)
      (heap.setItem result configurableKey (.ref cleaned), some result)
    | none, some _ => (heap.setItem result configurableKey (.ref cleaned), some result)
    | none, none => (heap, some result)

def guardRunConfig (heap : Objects γ) (graphName : String) (threadId : Option Json.Value)
    (token : Option String) (config : Option Nat) :
    Host γ ((Objects γ × Option Nat) × Option γ) := do
  let guard ← Host.ownershipGuardFor graphName threadId token
  return (heap.configWithOwnershipGuard config guard, guard)

def Slot.setting : Slot γ → Setting γ
  | .json v => .json v
  | .guard g => .guard g
  | .ref _ => .json .null

def entryAt (heap : Objects γ) : Slot γ → Entry γ
  | .json v => .json v
  | .guard _ => .json .null
  | .ref a => .settings ((heap.read a).mapValues Slot.setting)

def view (heap : Objects γ) (a : Nat) : RunConfig γ := (heap.read a).mapValues (entryAt heap)

structure IsClientConfig (heap : Objects γ) (a : Nat) : Prop where
  bound : a < heap.length
  entries : ∀ p ∈ (heap.read a).items, (∃ v, p.2 = .json v ∧ (p.1 = configurableKey → v = .null)) ∨
    p.1 = configurableKey ∧ ∃ b, p.2 = .ref b ∧ b < heap.length ∧
      ∀ q ∈ (heap.read b).items, ∃ v, q.2 = .json v

variable {heap : Objects γ} {a : Nat}

theorem entryAt_append {new : Objects γ} (h : IsClientConfig heap a) :
    ∀ p ∈ (heap.read a).items, entryAt (heap ++ new) p.2 = entryAt heap p.2 := by
  intro p hp
  cases h.entries p hp with
  | inl h =>
    obtain ⟨v, hv, -⟩ := h
    rw [hv]
    rfl
  | inr h =>
    obtain ⟨-, b, hb, hbound, -⟩ := h
    rw [hb, entryAt, entryAt, Heap.read_append hbound]

theorem contains_mapValues {α β : Type} (d : Dict Json.Key α) (f : α → β) (key : Json.Key) :
    (d.mapValues f).contains key = d.contains key := by
  simp [Dict.contains]

theorem contains_view (key : Json.Key) : (view heap a).contains key = (heap.read a).contains key :=
  contains_mapValues _ _ _

theorem configurableOf_view (h : IsClientConfig heap a) :
    configurableOf (view heap a) = (((heap.read a).get? configurableKey).bind Slot.ref?).map
      fun b => (heap.read b).mapValues Slot.setting := by
  rw [configurableOf, view, Dict.get?_mapValues]
  cases hslot : (heap.read a).get? configurableKey with
  | none => rfl
  | some slot =>
    cases h.entries _ (Dict.get?_eq_some_iff.mp hslot) with
    | inl h =>
      obtain ⟨v, hv, hnull⟩ := h
      cases hv
      rw [hnull rfl]
      rfl
    | inr h =>
      obtain ⟨-, b, hb, -⟩ := h
      cases hb
      rfl

theorem mapValues_withoutGuardKey {α β : Type} (d : Dict Json.Key α) (f : α → β) :
    (withoutGuardKey d).mapValues f = withoutGuardKey (d.mapValues f) :=
  Dict.mapValues_filterKeys ..

theorem view_set (d : Dict Json.Key (Slot γ)) (e : Dict Json.Key (Slot γ)) :
    view (heap ++ [d.set configurableKey (.ref (heap.length + 1)), e]) heap.length =
      (d.mapValues (entryAt (heap ++ [d.set configurableKey (.ref (heap.length + 1)), e]))).set
        configurableKey (.settings (e.mapValues Slot.setting)) := by
  rw [view, Heap.read_length, Dict.mapValues_set]
  congr 1
  rw [entryAt, Heap.read_length_succ]

def IsCallerConfig (heap : Objects γ) (config : Option Nat) : Prop :=
  ∀ a, config = some a → IsClientConfig heap a

theorem view_cleaned {config : Option Nat} {new : Objects γ} (h : IsCallerConfig heap config) :
    (withoutGuardKey (config.elim ∅ heap.read)).mapValues (entryAt (heap ++ new)) =
      withoutGuardKey ((config.map (view heap)).getD ∅) := by
  rw [mapValues_withoutGuardKey]
  congr 1
  cases config with
  | none => rfl
  | some a => exact Dict.mapValues_congr (entryAt_append (h a rfl))

theorem settings_cleaned (b : Option Nat) :
    (withoutGuardKey (b.elim ∅ heap.read)).mapValues Slot.setting =
      withoutGuardKey ((b.map fun b => (heap.read b).mapValues Slot.setting).getD ∅) := by
  rw [mapValues_withoutGuardKey]
  congr 1
  cases b with
  | none => rfl
  | some b => rfl

def configurableRef (heap : Objects γ) (config : Option Nat) : Option Nat :=
  (config.bind fun a => (heap.read a).get? configurableKey).bind Slot.ref?

theorem configurableRef_bound {config : Option Nat} (h : IsCallerConfig heap config) {b : Nat}
    (hb : heap.configurableRef config = some b) : b < heap.length := by
  obtain ⟨slot, hslot, href⟩ := Option.bind_eq_some_iff.mp hb
  obtain ⟨a, ha, hget⟩ := Option.bind_eq_some_iff.mp hslot
  cases (h a ha).entries _ (Dict.get?_eq_some_iff.mp hget) with
  | inl h =>
    obtain ⟨v, rfl, -⟩ := h
    cases href
  | inr h =>
    obtain ⟨-, c, rfl, hbound, -⟩ := h
    cases href
    exact hbound

theorem elim_read_append {config : Option Nat} (h : IsCallerConfig heap config) (new : Objects γ) :
    (heap.configurableRef config).elim ∅ (Heap.read (heap ++ new)) =
      (heap.configurableRef config).elim ∅ heap.read := by
  cases hb : heap.configurableRef config with
  | none => rfl
  | some b => exact Heap.read_append (configurableRef_bound h hb) new

theorem configWithOwnershipGuard_some {config : Option Nat} (h : IsCallerConfig heap config) (g : γ) :
    heap.configWithOwnershipGuard config (some g) =
      (heap ++ [(withoutGuardKey (config.elim ∅ heap.read)).set configurableKey
          (.ref (heap.length + 1)),
        (withoutGuardKey ((heap.configurableRef config).elim ∅ heap.read)).set
          ownershipGuardConfigKey (.guard g)], some heap.length) := by
  rw [configWithOwnershipGuard, if_neg (by simp)]
  simp only [Heap.alloc, List.append_assoc, List.cons_append, List.nil_append, List.length_append,
    List.length_cons, List.length_nil, Nat.zero_add, Heap.setItem_length_succ, Heap.setItem_length]
  rw [← configurableRef, elim_read_append h]

theorem hasStrayKey_view (h : IsClientConfig heap a) :
    ((view heap a).contains ownershipGuardConfigKey ||
        (configurableOf (view heap a)).any fun d => d.contains ownershipGuardConfigKey) =
      (some a).any fun c => (heap.read c).contains ownershipGuardConfigKey ||
        (heap.configurableRef (some a)).any fun b =>
          (heap.read b).contains ownershipGuardConfigKey := by
  rw [contains_view, configurableOf_view h, Option.any_some, configurableRef, Option.bind_some,
    Option.any_map]
  simp only [contains_mapValues]

theorem configWithOwnershipGuard_spec {config : Option Nat} (guard : Option γ)
    (h : IsCallerConfig heap config) :
    ∃ new, (heap.configWithOwnershipGuard config guard).1 = heap ++ new ∧
      (heap.configWithOwnershipGuard config guard).2.map (view (heap ++ new)) =
        Host.configWithOwnershipGuard (config.map (view heap)) guard := by
  cases guard with
  | some g =>
    rw [configWithOwnershipGuard_some h]
    refine ⟨_, rfl, ?_⟩
    rw [Option.map_some, view_set, view_cleaned h, Dict.mapValues_set, settings_cleaned]
    cases config with
    | none => rfl
    | some a =>
      rw [configurableRef, Option.bind_some, ← configurableOf_view (h a rfl)]
      rfl
  | none =>
    cases config with
    | none => exact ⟨[], (List.append_nil _).symm, rfl⟩
    | some a =>
      have hstray := hasStrayKey_view (h a rfl)
      have hmap := configurableOf_view (h a rfl)
      have hclean := elim_read_append h
      rw [Option.map_some, Host.configWithOwnershipGuard, Platform.configWithOwnershipGuard, hstray,
        configWithOwnershipGuard, ← configurableRef]
      change _ = (heap.configurableRef (some a)).map _ at hmap
      simp only [Option.isNone_none, Bool.true_and, Heap.alloc, hmap, hclean]
      split
      · exact ⟨[], (List.append_nil _).symm, by simp⟩
      · cases hb : heap.configurableRef (some a) with
        | none =>
          rw [List.append_assoc, List.cons_append, List.nil_append]
          refine ⟨_, rfl, ?_⟩
          rw [Option.map_some, view, Heap.read_length, view_cleaned h]
          rfl
        | some b =>
          rw [List.append_assoc, List.cons_append, List.nil_append, List.length_append,
            List.length_singleton, Heap.setItem_length]
          refine ⟨_, rfl, ?_⟩
          rw [Option.map_some, view_set, view_cleaned h, settings_cleaned]
          rfl

def viewed (r : Objects γ × Option Nat) : RunConfig γ := (r.2.map (view r.1)).getD ∅

theorem viewed_configWithOwnershipGuard {config : Option Nat} (guard : Option γ)
    (h : IsCallerConfig heap config) :
    viewed (heap.configWithOwnershipGuard config guard) =
      Platform.configWithOwnershipGuard (viewed (heap, config)) guard := by
  obtain ⟨new, hnew, hview⟩ := configWithOwnershipGuard_spec guard h
  rw [viewed, hnew, hview]
  cases config with
  | none => cases guard <;> rfl
  | some a => rfl

end Objects

variable {moved : Json.Key → Json.Value → Bool}

def movedSetting (moved : Json.Key → Json.Value → Bool) (key : Json.Key) :
    Entry γ → Option (Setting γ)
  | .json v => if moved key v then some (.json v) else none
  | .settings _ => none

def keptEntry (moved : Json.Key → Json.Value → Bool) (key : Json.Key) : Entry γ → Option (Entry γ)
  | .json v => if moved key v then none else some (.json v)
  | .settings d => some (.settings d)

theorem get?_effective (c : RunConfig γ) (key : Json.Key) : (effectiveConfigurable moved c).get? key =
    ((c.get? key).bind (movedSetting moved key)).or (((configurableOf c).getD ∅).get? key) := by
  rw [effectiveConfigurable, Dict.get?_update, Dict.get?_filterMap]
  rfl

theorem configurableOf_effectiveConfig (c : RunConfig γ) :
    configurableOf (effectiveConfig moved c) = some (effectiveConfigurable moved c) := by
  rw [effectiveConfig, configurableOf_set]

theorem get?_effectiveConfig (c : RunConfig γ) {key : Json.Key} (h : key ≠ configurableKey) :
    (effectiveConfig moved c).get? key = (c.get? key).bind (keptEntry moved key) := by
  rw [effectiveConfig, Dict.get?_set_ne _ _ h, Dict.get?_filterMap]
  rfl

theorem get?_withoutGuardKey_self {α : Type} (d : Dict Json.Key α) :
    (withoutGuardKey d).get? ownershipGuardConfigKey = none := by
  rw [withoutGuardKey, Dict.get?_filterKeys]
  rfl

theorem get?_of_contains_eq_false {α : Type} {d : Dict Json.Key α} {key : Json.Key}
    (h : d.contains key = false) : d.get? key = none := by
  simpa [Dict.contains] using h

theorem get?_guardKey_top (c : RunConfig γ) (guard : Option γ) :
    (configWithOwnershipGuard c guard).get? ownershipGuardConfigKey = none := by
  rw [configWithOwnershipGuard]
  split
  · next h =>
    simp only [Bool.and_eq_true, Bool.not_eq_true', Bool.or_eq_false_iff] at h
    apply get?_of_contains_eq_false h.2.1
  · split
    · rw [Dict.get?_set_ne _ _ (by decide), get?_withoutGuardKey_self]
    · rw [Dict.get?_set_ne _ _ (by decide), get?_withoutGuardKey_self]
    · apply get?_withoutGuardKey_self

theorem get?_guardKey_configurable (c : RunConfig γ) (guard : Option γ) :
    ((configurableOf (configWithOwnershipGuard c guard)).getD ∅).get? ownershipGuardConfigKey =
      guard.map .guard := by
  rw [configWithOwnershipGuard]
  split
  · next h =>
    simp only [Bool.and_eq_true, Bool.not_eq_true', Bool.or_eq_false_iff, Option.isNone_iff_eq_none] at h
    obtain ⟨rfl, -, hmap⟩ := h
    cases hc : configurableOf c with
    | none => rfl
    | some d =>
      rw [hc] at hmap
      apply get?_of_contains_eq_false hmap
  · cases guard with
    | some g =>
      rw [configurableOf_set, Option.getD_some, Dict.get?_set_self]
      rfl
    | none =>
      cases hc : configurableOf c with
      | some d =>
        rw [configurableOf_set, Option.getD_some, get?_withoutGuardKey_self]
        rfl
      | none =>
        rw [configurableOf, get?_withoutGuardKey _ (by decide)]
        change ((configurableOf c).getD ∅).get? _ = _
        rw [hc]
        rfl

theorem effective_guardKey (c : RunConfig γ) (guard : Option γ) :
    (effectiveConfigurable moved (configWithOwnershipGuard c guard)).get? ownershipGuardConfigKey =
      guard.map .guard := by
  rw [get?_effective, get?_guardKey_top, get?_guardKey_configurable]
  rfl

theorem bind_movedSetting (hknown : ∀ v, moved configurableKey v = false)
    (entry : Option (Entry γ)) : entry.bind (movedSetting moved configurableKey) = none := by
  cases entry with
  | none => rfl
  | some entry => cases entry <;> simp [movedSetting, hknown]

theorem effective_of_ne (hknown : ∀ v, moved configurableKey v = false) (c : RunConfig γ)
    (guard : Option γ) {key : Json.Key} (hkey : key ≠ ownershipGuardConfigKey) :
    (effectiveConfigurable moved (configWithOwnershipGuard c guard)).get? key =
      (effectiveConfigurable moved c).get? key := by
  rw [get?_effective, get?_effective, configurableOf_configWithOwnershipGuard _ _ hkey]
  by_cases h : key = configurableKey
  · subst h
    rw [bind_movedSetting hknown, bind_movedSetting hknown]
  · rw [get?_configWithOwnershipGuard _ _ hkey h]

theorem effectiveConfig_of_ne (c : RunConfig γ) (guard : Option γ) {key : Json.Key}
    (hkey : key ≠ ownershipGuardConfigKey) (h : key ≠ configurableKey) :
    (effectiveConfig moved (configWithOwnershipGuard c guard)).get? key =
      (effectiveConfig moved c).get? key := by
  rw [get?_effectiveConfig _ h, get?_effectiveConfig _ h, get?_configWithOwnershipGuard _ _ hkey h]

theorem resolve_effectiveConfig (c : RunConfig γ) (guard : Option γ) :
    resolveOwnershipGuard none (some (effectiveConfig moved (configWithOwnershipGuard c guard))) =
      guard := by
  rw [resolveOwnershipGuard, Option.none_or, Option.bind_some, configurableOf_effectiveConfig,
    Option.bind_some, effective_guardKey]
  cases guard <;> rfl

structure SameButGuardKey (c d : RunConfig γ) : Prop where
  top : ∀ key, key ≠ ownershipGuardConfigKey → key ≠ configurableKey → c.get? key = d.get? key
  configurable : ∀ key, key ≠ ownershipGuardConfigKey →
    ((configurableOf c).getD ∅).get? key = ((configurableOf d).getD ∅).get? key

theorem effectiveConfig_congr (hknown : ∀ v, moved configurableKey v = false) {c d : RunConfig γ}
    (h : SameButGuardKey c d) (guard : Option γ) (key : Json.Key) :
    (effectiveConfigurable moved (configWithOwnershipGuard c guard)).get? key =
        (effectiveConfigurable moved (configWithOwnershipGuard d guard)).get? key ∧
      (key ≠ configurableKey → (effectiveConfig moved (configWithOwnershipGuard c guard)).get? key =
        (effectiveConfig moved (configWithOwnershipGuard d guard)).get? key) := by
  by_cases hkey : key = ownershipGuardConfigKey
  · subst hkey
    rw [effective_guardKey, effective_guardKey, get?_effectiveConfig _ (by decide),
      get?_effectiveConfig _ (by decide), get?_guardKey_top, get?_guardKey_top]
    exact ⟨rfl, fun _ => rfl⟩
  · constructor
    · rw [effective_of_ne hknown _ _ hkey, effective_of_ne hknown _ _ hkey, get?_effective,
        get?_effective, h.configurable key hkey]
      by_cases hconf : key = configurableKey
      · subst hconf
        rw [bind_movedSetting hknown, bind_movedSetting hknown]
      · rw [h.top key hkey hconf]
    · intro hconf
      rw [effectiveConfig_of_ne _ _ hkey hconf, effectiveConfig_of_ne _ _ hkey hconf,
        get?_effectiveConfig _ hconf, get?_effectiveConfig _ hconf, h.top key hkey hconf]

/-- What becomes of a caller's config on its way to the checkpointer where the lock gave `guard`. -/
structure Guarded (moved : Json.Key → Json.Value → Bool) (heap : Objects γ) (config : Option Nat)
    (guard : Option γ) (run : Objects γ × Option Nat) : Prop where
  kept : ∃ new, run.1 = heap ++ new
  resolved : resolveOwnershipGuard none (some (effectiveConfig moved (Objects.viewed run))) = guard
  top : ∀ key, key ≠ ownershipGuardConfigKey → key ≠ configurableKey →
    (effectiveConfig moved (Objects.viewed run)).get? key =
      (effectiveConfig moved (Objects.viewed (heap, config))).get? key
  configurable : ∀ key, key ≠ ownershipGuardConfigKey →
    (effectiveConfigurable moved (Objects.viewed run)).get? key =
      (effectiveConfigurable moved (Objects.viewed (heap, config))).get? key
  independent : ∀ (heap' : Objects γ) (config' : Option Nat), heap'.IsCallerConfig config' →
    SameButGuardKey (Objects.viewed (heap, config)) (Objects.viewed (heap', config')) → ∀ key,
      (effectiveConfigurable moved (Objects.viewed run)).get? key =
          (effectiveConfigurable moved (Objects.viewed
            (heap'.configWithOwnershipGuard config' guard))).get? key ∧
        (key ≠ configurableKey → (effectiveConfig moved (Objects.viewed run)).get? key =
          (effectiveConfig moved (Objects.viewed
            (heap'.configWithOwnershipGuard config' guard))).get? key)

/-- The checkpointer of a run finds the guard that the lock gave, and none where it gave none; a
client neither forges nor displaces it, and its config stays as it was. -/
theorem guard_is_the_locks (moved : Json.Key → Json.Value → Bool)
    (hknown : ∀ v, moved configurableKey v = false) (answer : (o : Host.Op γ) → Option o.Ans)
    (graphName : String) (threadId : Option Json.Value) (token : Option String) (guard : Option γ)
    (w : Transcript (Host.interface γ))
    (hguard : (Host.ownershipGuardFor graphName threadId token).answered answer =
      some (w, .ok guard))
    (heap : Objects γ) (config : Option Nat) (hconfig : heap.IsCallerConfig config) :
    ∃ run, (heap.guardRunConfig graphName threadId token config).answered answer =
        some (w, .ok (run, guard)) ∧ Guarded moved heap config guard run := by
  refine ⟨heap.configWithOwnershipGuard config guard, ?_, ?_⟩
  · apply Prog.answered_bind_ret _ hguard
  · obtain ⟨new, hnew, -⟩ := Objects.configWithOwnershipGuard_spec guard hconfig
    have hview := Objects.viewed_configWithOwnershipGuard guard hconfig
    constructor
    · exact ⟨new, hnew⟩
    · rw [hview, resolve_effectiveConfig]
    · intro key hkey h
      rw [hview, effectiveConfig_of_ne _ _ hkey h]
    · intro key hkey
      rw [hview, effective_of_ne hknown _ _ hkey]
    · intro heap' config' hconfig' hsame key
      rw [hview, Objects.viewed_configWithOwnershipGuard guard hconfig']
      apply effectiveConfig_congr hknown hsame

def forgedConfig : Objects Nat :=
  [Dict.ofList [(ownershipGuardConfigKey, .json (.str "forged")), (configurableKey, .ref 1),
      (.str "tenant", .json (.str "a"))],
    Dict.ofList [(ownershipGuardConfigKey, .json (.dict [])), (.str "user", .json (.int 1))]]

def lockGuard : (o : Host.Op Nat) → Option o.Ans
  | .ownershipGuard .. => some (.ok (some 7))
  | _ => none

theorem forgedConfig_isClientConfig : forgedConfig.IsCallerConfig (some 0) := by
  intro a ha
  cases ha
  have htop : (forgedConfig.read 0).items = [(ownershipGuardConfigKey, .json (.str "forged")),
    (configurableKey, .ref 1), (.str "tenant", .json (.str "a"))] := rfl
  have hnested : (forgedConfig.read 1).items =
    [(ownershipGuardConfigKey, .json (.dict [])), (.str "user", .json (.int 1))] := rfl
  have hguard : ownershipGuardConfigKey ≠ configurableKey := by decide
  have htenant : Json.Key.str "tenant" ≠ configurableKey := by decide
  constructor
  · decide
  · have hlength : 1 < forgedConfig.length := by decide
    rw [htop]
    simp only [List.forall_mem_cons, List.not_mem_nil, false_implies, implies_true, and_true]
    refine ⟨.inl ⟨_, rfl, fun h => absurd h hguard⟩, .inr ⟨trivial, 1, rfl, hlength, ?_⟩,
      .inl ⟨_, rfl, fun h => absurd h htenant⟩⟩
    rw [hnested]
    simp

theorem guard_is_the_locks_forged :
    ∃ run, (forgedConfig.guardRunConfig "agent" (some (.str "t")) (some "token") (some 0)).answered
        lockGuard = some ([⟨.ownershipGuard "agent" (.str "t") "token", .ok (some 7)⟩],
          .ok (run, some 7)) ∧ Guarded movesUnknown forgedConfig (some 0) (some 7) run :=
  guard_is_the_locks movesUnknown (by intro v; cases v <;> rfl) lockGuard "agent" (some (.str "t"))
    (some "token") (some 7) _ rfl forgedConfig (some 0) forgedConfig_isClientConfig

end LangGraphFunctions.Platform

import LangGraphFunctions.Checkpointers.BlobRuns

/-! Containers that hold what the saver has written, and nothing half published. -/

namespace LangGraphFunctions.Checkpointers.AzureBlob

open Lib

variable {V R G : Type} {S : Saver V R G} {s s' : Store} {t ns id : String}

theorem fromUTF8?_toUTF8 (text : String) : String.fromUTF8? text.toUTF8 = some text := by
  rw [String.fromUTF8?]
  split
  · rfl
  · next h => exact absurd text.isValidUTF8 h

theorem isJson_latest (id : String) : Json.IsJson (.dict (latestMembers id)) := by
  refine .dict ?_ (by simp [latestMembers]) ?_
  · simp [latestMembers]
  · simp only [latestMembers, List.forall_mem_cons]
    exact ⟨.int, .bool, .str, fun _ h => (List.not_mem_nil h).elim⟩

theorem parse_dirtyLatest : parseLatestCheckpointId dirtyLatest = none := by decide +kernel

theorem parse_members (id : String) {text : String}
    (h : Json.loads text = some (.dict (latestMembers id))) :
    parseLatestCheckpointId text.toUTF8 = if id = "" then none else some id := by
  have hitems : (Dict.ofList (latestMembers id)).items = latestMembers id :=
    Dict.items_ofList (by simp [latestMembers])
  have hversion : member (latestMembers id) "version" = some (.int 1) := by
    rw [member, Dict.get?, hitems]
    rfl
  have hdirty : member (latestMembers id) "dirty" = some (.bool false) := by
    rw [member, Dict.get?, hitems]
    rfl
  have hid : member (latestMembers id) "checkpoint_id" = some (.str id) := by
    rw [member, Dict.get?, hitems]
    rfl
  simp only [parseLatestCheckpointId, fromUTF8?_toUTF8, Option.bind_some, h, hversion, hdirty, hid,
    isOne, isFalse, Bool.and_self, if_true]

theorem parse_cleanLatest {payload : ByteArray} (h : cleanLatest id = .ok payload) :
    parseLatestCheckpointId payload = if id = "" then none else some id := by
  rw [cleanLatest] at h
  cases htext : Json.dumps .compact true (.dict (latestMembers id)) with
  | error e =>
    rw [htext] at h
    cases h
  | ok text =>
    rw [htext] at h
    cases h
    exact parse_members id (Json.loads_dumps (isJson_latest id) htext)

/-- What the serializer writes it reads back, under a type that is not reserved. -/
structure Serde.Lawful (serde : Serde V R) : Prop where
  loads {d : Datum V R} {typed : String × ByteArray} :
    serde.dumpsTyped d = .ok typed → serde.loadsTyped typed = .ok d
  type_ne {d : Datum V R} {typed : String × ByteArray} :
    serde.dumpsTyped d = .ok typed → typed.1 ≠ "" ∧ typed.1 ≠ "empty"

def Holds (S : Saver V R G) : Key → Blob → Prop
  | .latest _ _, _ => True
  | .value _ _ _ _, b => ∃ typed, typedBlob b = some typed ∧
    (typed.serdeType = "empty" ∨ ∃ v, loadValue S typed = .ok v)
  | .checkpoint _ _ _, b => ∃ typed data, typedBlob b = some typed ∧ loadCheckpoint S typed = .ok data
  | .metadata _ _ _, b => ∃ typed m, typedBlob b = some typed ∧ loadMetadata S typed = .ok m
  | .write _ _ _ _ _, b => ∃ typed v, typedBlob b = some typed ∧ loadValue S typed = .ok v

/-- What every container keeps to that the saver alone has written. -/
structure Sound (S : Saver V R G) (s : Store) : Prop where
  named : Named s
  holds : ∀ k b, s.get? k.path = some b → Holds S k b
  complete : ∀ t ns id, Committed s t ns id → Stored s (.metadata t ns id)
  latest : ∀ t ns h, latestAt s t ns = some h → Committed s t ns h →
    ∀ id, Committed s t ns id → id ≤ h

theorem sound_empty (S : Saver V R G) : Sound S ∅ where
  named _ _ h := by cases h
  holds _ _ h := by cases h
  complete _ _ _ h := by
    obtain ⟨b, h⟩ := h
    cases h
  latest _ _ _ h := by cases h

theorem stored_set {k l : Key} {b : Blob} : Stored (s.set l.path b) k ↔ k = l ∨ Stored s k := by
  rw [Stored, Dict.get?_set]
  by_cases h : k = l
  · subst h
    simp
  · rw [if_neg (mt Key.path_injective h), or_iff_right h]
    rfl

theorem latestAt_set_ne {k : Key} {b : Blob} (h : k ≠ .latest t ns) :
    latestAt (s.set k.path b) t ns = latestAt s t ns := by
  have hne : (Key.latest t ns).path ≠ k.path := fun hp => h (Key.path_injective hp).symm
  rw [latestAt, latestAt, show latestBlobPath t ns = (Key.latest t ns).path from rfl,
    Dict.get?_set_ne _ _ hne]

theorem latestAt_set (t ns : String) (b : Blob) :
    latestAt (s.set (Key.latest t ns).path b) t ns = parseLatestCheckpointId b.payload := by
  rw [latestAt, show latestBlobPath t ns = (Key.latest t ns).path from rfl, Dict.get?_set_self]
  rfl

theorem Named.set {k : Key} (hs : Named s) (b : Blob) : Named (s.set k.path b) := by
  intro name b' h
  rw [Dict.get?_set] at h
  by_cases hname : name = k.path
  · exact ⟨k, hname⟩
  · rw [if_neg hname] at h
    exact hs name b' h

theorem holds_set {k : Key} {b : Blob} (hs : ∀ k b, s.get? k.path = some b → Holds S k b)
    (hb : Holds S k b) (l : Key) (b' : Blob) (h : (s.set k.path b).get? l.path = some b') :
    Holds S l b' := by
  rw [Dict.get?_set] at h
  by_cases hl : l = k
  · subst hl
    rw [if_pos rfl] at h
    cases h
    exact hb
  · rw [if_neg (mt Key.path_injective hl)] at h
    exact hs l b' h

theorem Sound.set {k : Key} {b : Blob} (hs : Sound S s) (hb : Holds S k b)
    (hmarker : ∀ t ns id, k ≠ .checkpoint t ns id) (hlatest : ∀ t ns, k ≠ .latest t ns) :
    Sound S (s.set k.path b) where
  named := hs.named.set b
  holds := holds_set hs.holds hb
  complete t ns id h := by
    rw [Committed, stored_set, or_iff_right (hmarker t ns id).symm] at h
    exact stored_set.mpr (.inr (hs.complete t ns id h))
  latest t ns h hh hc id hid := by
    rw [Committed, stored_set, or_iff_right (hmarker t ns _).symm] at hc hid
    rw [latestAt_set_ne (hlatest t ns)] at hh
    exact hs.latest t ns h hh hc id hid

theorem Sound.set_checkpoint {b : Blob} (hs : Sound S s) (hb : Holds S (.checkpoint t ns id) b)
    (hmetadata : Stored s (.metadata t ns id)) (hdirty : latestAt s t ns = none) :
    Sound S (s.set (Key.checkpoint t ns id).path b) where
  named := hs.named.set b
  holds := holds_set hs.holds hb
  complete t' ns' id' h := by
    refine stored_set.mpr (.inr ?_)
    cases stored_set.mp h with
    | inl h => cases h; exact hmetadata
    | inr h => exact hs.complete t' ns' id' h
  latest t' ns' h hh hc id' hid := by
    rw [latestAt_set_ne (by simp)] at hh
    have hne : ¬ (t' = t ∧ ns' = ns) := by
      rintro ⟨rfl, rfl⟩
      rw [hdirty] at hh
      cases hh
    have hother (x : String) (h : Committed (s.set (Key.checkpoint t ns id).path b) t' ns' x) :
        Committed s t' ns' x := by
      refine (stored_set.mp h).resolve_left fun heq => hne ?_
      cases heq
      exact ⟨rfl, rfl⟩
    exact hs.latest t' ns' h hh (hother h hc) id' (hother id' hid)

theorem Sound.set_latest {b : Blob} (hs : Sound S s)
    (h : ∀ id, parseLatestCheckpointId b.payload = some id → ∀ id', Committed s t ns id' → id' ≤ id) :
    Sound S (s.set (Key.latest t ns).path b) where
  named := hs.named.set b
  holds := holds_set hs.holds trivial
  complete t' ns' id' hc := by
    rw [Committed, stored_set, or_iff_right (by simp)] at hc
    exact stored_set.mpr (.inr (hs.complete t' ns' id' hc))
  latest t' ns' x hx hc id' hid := by
    rw [Committed, stored_set, or_iff_right (by simp)] at hc hid
    by_cases heq : t' = t ∧ ns' = ns
    · obtain ⟨rfl, rfl⟩ := heq
      rw [latestAt_set] at hx
      exact h x hx id' hid
    · rw [latestAt_set_ne (by simpa [eq_comm] using heq)] at hx
      exact hs.latest t' ns' x hx hc id' hid

theorem Sound.sub (hs : Sound S s) (hsub : ∀ name b, s'.get? name = some b → s.get? name = some b)
    (hcomplete : ∀ t ns id, Committed s' t ns id → Stored s' (.metadata t ns id)) : Sound S s' where
  named name b h := hs.named name b (hsub name b h)
  holds k b h := hs.holds k b (hsub _ b h)
  complete := hcomplete
  latest t ns h hh hc id hid := by
    have hcommitted (x : String) (h : Committed s' t ns x) : Committed s t ns x :=
      h.imp fun b hb => hsub _ b hb
    refine hs.latest t ns h ?_ (hcommitted h hc) id (hcommitted id hid)
    obtain ⟨payload, hpayload, hparse⟩ := Option.bind_eq_some_iff.mp hh
    obtain ⟨b, hb, rfl⟩ := Option.map_eq_some_iff.mp hpayload
    exact Option.bind_eq_some_iff.mpr ⟨_, by rw [hsub _ b hb]; rfl, hparse⟩

theorem Sound.eraseAll {names : List String} (hs : Sound S s)
    (hmarker : ∀ t ns id, (Key.metadata t ns id).path ∈ names →
      (Key.checkpoint t ns id).path ∈ names ∨ ¬ Committed s t ns id) :
    Sound S (Container.eraseAll s names) := by
  have hsub (name : String) (b : Blob) (h : (Container.eraseAll s names).get? name = some b) :
      name ∉ names ∧ s.get? name = some b := by
    rw [Container.get?_eraseAll] at h
    split at h
    · cases h
    · next hnot => exact ⟨hnot, h⟩
  refine hs.sub (fun name b h => (hsub name b h).2) fun t ns id hc => ?_
  obtain ⟨b, hb⟩ := hc
  obtain ⟨hnot, hb⟩ := hsub _ b hb
  obtain ⟨m, hm⟩ := hs.complete t ns id ⟨b, hb⟩
  refine ⟨m, ?_⟩
  rw [Container.get?_eraseAll, if_neg, hm]
  intro hmem
  cases hmarker t ns id hmem with
  | inl h => exact hnot h
  | inr h => exact h ⟨b, hb⟩

def checkpointBlobs (s : Store) (t ns id : String) : List String :=
  Container.names s (checkpointBasePrefix t ns id)

theorem mem_checkpointBlobs {k : Key} : k.path ∈ checkpointBlobs s t ns id ↔
    (k.threadId = t ∧ k.checkpointNs = ns ∧ k.checkpointId = some id) ∧ Stored s k := by
  rw [checkpointBlobs, mem_names_path, Key.startswith_checkpointBasePrefix]

theorem marker_mem_take {names : List String} {k : Key} {n : Nat} (hsorted : names.Pairwise (· < ·))
    (hid : k.checkpointId = some id) (hmem : k.path ∈ names.take n)
    (hmarker : (Key.checkpoint k.threadId k.checkpointNs id).path ∈ names) :
    (Key.checkpoint k.threadId k.checkpointNs id).path ∈ names.take n := by
  by_cases hk : k = .checkpoint k.threadId k.checkpointNs id
  · exact hk ▸ hmem
  have hlt := Key.checkpoint_lt rfl rfl hid hk
  rw [← List.take_append_drop n names, List.mem_append] at hmarker
  rw [← List.take_append_drop n names, List.pairwise_append] at hsorted
  exact hmarker.resolve_right fun h => (hsorted.2.2 _ hmem _ h).asymm hlt

theorem Sound.eraseListed {pre : String} (hs : Sound S s) (n : Nat)
    (hpre : ∀ t ns id, Names.startswith (Key.metadata t ns id).path pre →
      Names.startswith (Key.checkpoint t ns id).path pre) :
    Sound S (Container.eraseAll s ((Container.names s pre).take n)) := by
  refine hs.eraseAll fun t ns id hmem => or_iff_not_imp_right.mpr fun hc => ?_
  have hlisted := (mem_names_path.mp (List.mem_of_mem_take hmem)).1
  exact marker_mem_take (k := .metadata t ns id) (Container.pairwise_names s pre) rfl hmem
    (mem_names_path.mpr ⟨hpre t ns id hlisted, not_not.mp hc⟩)

end LangGraphFunctions.Checkpointers.AzureBlob

import LangGraphFunctions.Checkpointers.BlobSound

/-! The tuples that a sound container gives. -/

namespace LangGraphFunctions.Checkpointers.AzureBlob

open Lib

variable {V R G : Type} {S : Saver V R G} {s s' : Store} {t ns id : String}

theorem foldlM_ok {α β : Type} {f : β → α → Except Exn β} {xs : List α}
    (h : ∀ b, ∀ a ∈ xs, ∃ b', f b a = .ok b') (b : β) : ∃ b', xs.foldlM f b = .ok b' := by
  induction xs generalizing b with
  | nil => exact ⟨b, rfl⟩
  | cons a xs ih =>
    obtain ⟨b', hb'⟩ := h b a List.mem_cons_self
    rw [List.foldlM_cons, hb']
    exact ih (fun b a ha => h b a (List.mem_cons_of_mem _ ha)) b'

theorem foldlM_pure {α β : Type} {f : β → α → Except Exn β} {g : β → α → β}
    (h : ∀ b a, f b a = .ok (g b a)) (xs : List α) (b : β) : xs.foldlM f b = .ok (xs.foldl g b) := by
  induction xs generalizing b with
  | nil => rfl
  | cons a xs ih =>
    rw [List.foldlM_cons, h, List.foldl_cons]
    exact ih _

theorem view_foldlM {α β : Type} (body : β → α → Call G β) (xs : List α) (b : β) :
    view s (xs.foldlM body b) = xs.foldlM (fun b a => view s (body b a)) b :=
  Prog.eval_foldlM body xs b

theorem view_ofExcept {α : Type} (r : Except Exn α) : view s (Prog.ofExcept r : Call G α) = r :=
  Prog.eval_ofExcept r

theorem Sound.typedAt {k : Key} (hs : Sound S s) (hk : Stored s k) (hnot : ∀ t ns, k ≠ .latest t ns) :
    ∃ b typed, s.get? k.path = some b ∧ typedAt s k.path = some typed ∧ Holds S k b ∧
      typedBlob b = some typed := by
  obtain ⟨b, hb⟩ := hk
  have hholds := hs.holds k b hb
  have htyped : ∃ typed, typedBlob b = some typed := by
    cases k with
    | latest t ns => exact absurd rfl (hnot t ns)
    | value => exact hholds.imp fun _ h => h.1
    | checkpoint => exact hholds.imp fun _ ⟨_, h, _⟩ => h
    | metadata => exact hholds.imp fun _ ⟨_, h, _⟩ => h
    | write => exact hholds.imp fun _ ⟨_, h, _⟩ => h
  obtain ⟨typed, htyped⟩ := htyped
  refine ⟨b, typed, hb, ?_, hholds, htyped⟩
  rw [AzureBlob.typedAt, hb, Option.bind_some, htyped]

theorem Sound.view_loadChannelValue (hs : Sound S s) (values : Dict String V)
    (entry : String × Version) : ∃ values', view s (loadChannelValue S t ns values entry) = .ok values' := by
  rw [loadChannelValue, view_bind (view_downloadTypedBlob _)]
  cases hat : AzureBlob.typedAt s (valueBlobPath t ns entry.1 entry.2.text) with
  | none => exact ⟨values, rfl⟩
  | some blob =>
    change ∃ values', view s (if blob.serdeType = "empty" then _ else _) = .ok values'
    split
    · exact ⟨values, rfl⟩
    · next hne =>
      obtain ⟨b, hb, htyped⟩ := Option.bind_eq_some_iff.mp hat
      obtain ⟨typed, htyped', hload⟩ := hs.holds (.value t ns entry.1 entry.2.text) b hb
      rw [htyped, Option.some_inj] at htyped'
      subst htyped'
      obtain ⟨v, hv⟩ := hload.resolve_left hne
      rw [hv]
      exact ⟨_, rfl⟩

theorem Sound.view_loadChannelValues (hs : Sound S s) (versions : ChannelVersions) :
    ∃ values, view s (loadChannelValues S t ns versions) = .ok values := by
  rw [loadChannelValues, view_foldlM]
  exact foldlM_ok (fun values entry _ => hs.view_loadChannelValue values entry) ∅

theorem Sound.view_loadPendingWrite (hs : Sound S s) {pre : String}
    (hpre : pre = writesPrefix t ns id) (loaded : List (PendingWrite V)) {blob : BlobItem}
    (hblob : blob ∈ items s pre) :
    ∃ loaded', view s (loadPendingWrite S pre loaded blob) = .ok loaded' := by
  obtain ⟨name, hname, rfl⟩ := List.mem_map.mp hblob
  obtain ⟨k, rfl, hk, hstart⟩ := hs.named.of_mem_names hname
  rw [loadPendingWrite]
  split
  · exact ⟨loaded, rfl⟩
  · split
    · exact ⟨loaded, rfl⟩
    · rw [view_bind (view_downloadTypedBlob _)]
      cases hat : AzureBlob.typedAt s k.path with
      | none => exact ⟨loaded, rfl⟩
      | some typed =>
        subst hpre
        obtain ⟨taskId, writeIndex, rfl⟩ := Key.startswith_writesPrefix.mp hstart
        obtain ⟨b, hb, htyped⟩ := Option.bind_eq_some_iff.mp hat
        obtain ⟨typed', v, htyped', hv⟩ := hs.holds _ b hb
        rw [htyped, Option.some_inj] at htyped'
        subst htyped'
        cases hchannel : typed.metadata.get? "channel" with
        | none => simp only [hchannel]; exact ⟨loaded, rfl⟩
        | some rawChannel =>
          simp only [hchannel, hv]
          exact ⟨_, rfl⟩

theorem Sound.view_loadPendingWrites (hs : Sound S s) (t ns id : String) :
    ∃ writes, view s (loadPendingWrites S t ns id) = .ok writes := by
  rw [loadPendingWrites, view_bind (view_listBlobs _)]
  obtain ⟨loaded, hloaded⟩ := foldlM_ok
    (f := fun loaded blob => view s (loadPendingWrite S (writesPrefix t ns id) loaded blob))
    (fun loaded blob hblob => hs.view_loadPendingWrite rfl loaded hblob) []
  rw [← view_foldlM] at hloaded
  exact ⟨_, view_bind hloaded⟩

theorem view_buildTuple {typed mtyped : TypedBlob} {data : CheckpointData R} {values : Dict String V}
    {metadata : Dict String V} {writes : List (String × String × V)}
    (htyped : AzureBlob.typedAt s (checkpointBlobPath t ns id) = some typed)
    (hdata : loadCheckpoint S typed = .ok data)
    (hvalues : view s (loadChannelValues S t ns data.channelVersions) = .ok values)
    (hmtyped : AzureBlob.typedAt s (metadataBlobPath t ns id) = some mtyped)
    (hmetadata : loadMetadata S mtyped = .ok metadata)
    (hwrites : view s (loadPendingWrites S t ns id) = .ok writes) (config : RunnableConfig G) :
    view s (buildTuple S t ns id config) = .ok (some
      { config
        checkpoint := { data with channelValues := values }
        metadata
        parentConfig := (parentId typed.metadata).map (checkpointConfig t ns)
        pendingWrites := writes }) := by
  rw [buildTuple, view_bind ((view_downloadTypedBlob _).trans (congrArg _ htyped))]
  change view s (Prog.ofExcept (loadCheckpoint S typed) >>= _) = _
  rw [view_bind ((view_ofExcept _).trans hdata), view_bind hvalues,
    view_bind ((view_downloadTypedBlob _).trans (congrArg _ hmtyped))]
  change view s (Prog.ofExcept (loadMetadata S mtyped) >>= _) = _
  rw [view_bind ((view_ofExcept _).trans hmetadata), view_bind hwrites]
  rfl

def metadataAt (S : Saver V R G) (s : Store) (t ns id : String) : Option (Dict String V) :=
  (AzureBlob.typedAt s (metadataBlobPath t ns id)).bind fun typed => (loadMetadata S typed).toOption

theorem Sound.pieces (hs : Sound S s) (h : Committed s t ns id) :
    ∃ typed mtyped data values metadata writes,
      AzureBlob.typedAt s (checkpointBlobPath t ns id) = some typed ∧
      loadCheckpoint S typed = .ok data ∧
      view s (loadChannelValues S t ns data.channelVersions) = .ok values ∧
      AzureBlob.typedAt s (metadataBlobPath t ns id) = some mtyped ∧
      loadMetadata S mtyped = .ok metadata ∧
      view s (loadPendingWrites S t ns id) = .ok writes := by
  obtain ⟨b, typed, -, hat, ⟨typed', data, htyped', hdata⟩, htyped⟩ := hs.typedAt h (by simp)
  obtain ⟨m, mtyped, -, hmat, ⟨mtyped', metadata, hmtyped', hmetadata⟩, hmtyped⟩ :=
    hs.typedAt (hs.complete t ns id h) (by simp)
  rw [htyped, Option.some_inj] at htyped'
  rw [hmtyped, Option.some_inj] at hmtyped'
  subst htyped' hmtyped'
  obtain ⟨values, hvalues⟩ := hs.view_loadChannelValues data.channelVersions
  obtain ⟨writes, hwrites⟩ := hs.view_loadPendingWrites t ns id
  exact ⟨typed, mtyped, data, values, metadata, writes, hat, hdata, hvalues, hmat, hmetadata, hwrites⟩

theorem Sound.exists_tuple (hs : Sound S s) (h : Committed s t ns id) (config : RunnableConfig G) :
    ∃ tuple, view s (buildTuple S t ns id config) = .ok (some tuple) ∧
      metadataAt S s t ns id = some tuple.metadata := by
  obtain ⟨typed, mtyped, data, values, metadata, writes, hat, hdata, hvalues, hmat, hmetadata,
    hwrites⟩ := hs.pieces h
  refine ⟨_, AzureBlob.view_buildTuple hat hdata hvalues hmat hmetadata hwrites config, ?_⟩
  rw [metadataAt, hmat, Option.bind_some, hmetadata]
  rfl

theorem Sound.view_buildTuple (hs : Sound S s) (h : Committed s t ns id) (config : RunnableConfig G) :
    ∃ tuple, view s (buildTuple S t ns id config) = .ok (some tuple) :=
  (hs.exists_tuple h config).imp fun _ h => h.1

theorem view_buildTuple_of_not_committed (h : ¬ Committed s t ns id) (config : RunnableConfig G) :
    view s (buildTuple S t ns id config) = .ok none := by
  have hnone : s.get? (checkpointBlobPath t ns id) = none :=
    Option.eq_none_iff_forall_ne_some.mpr fun b hb => h ⟨b, hb⟩
  rw [buildTuple, view_bind (view_downloadTypedBlob _), typedAt, hnone]
  rfl

def buildFound (S : Saver V R G) (t ns : String) :
    Option String → Call G (Option (CheckpointTuple V R G))
  | none => return none
  | some latest => buildTuple S t ns latest (checkpointConfig t ns latest)

theorem Sound.view_getLatestTuple (hs : Sound S s) (t ns : String) :
    view s (getLatestTuple S t ns) = view s (buildFound S t ns (checkpointIds s t ns).head?) := by
  have hscan : view s (findLatestCheckpointId t ns >>= buildFound S t ns) =
      view s (buildFound S t ns (checkpointIds s t ns).head?) := by
    rw [view_bind (view_findLatestCheckpointId t ns)]
  rw [getLatestTuple, view_bind (view_readLatestCheckpointId t ns)]
  cases hlatest : latestAt s t ns with
  | none => exact hscan
  | some h =>
    by_cases hc : Committed s t ns h
    · obtain ⟨tuple, htuple⟩ := hs.view_buildTuple hc (checkpointConfig t ns h)
      have hhead := hs.named.head?_checkpointIds.mpr ⟨hc, hs.latest t ns h hlatest hc⟩
      change view s (buildTuple S t ns h (checkpointConfig t ns h) >>= _) = _
      rw [view_bind htuple, hhead]
      exact htuple.symm
    · change view s (buildTuple S t ns h (checkpointConfig t ns h) >>= _) = _
      rw [view_bind (view_buildTuple_of_not_committed hc _)]
      exact hscan

structure Asks (config : RunnableConfig G) (t ns : String) (id : Option String) : Prop where
  threadId : configThreadId config = .ok t
  ns : configCheckpointNs config = .ok ns
  checkpointId : getCheckpointId config = .ok id

theorem view_getTuple {config : RunnableConfig G} (h : Asks config t ns (some id)) (hid : id ≠ "") :
    view s (getTuple S config) = view s (buildTuple S t ns id config) := by
  rw [getTuple, view_bind ((view_ofExcept _).trans h.threadId),
    view_bind ((view_ofExcept _).trans h.ns), view_bind ((view_ofExcept _).trans h.checkpointId)]
  exact congrArg (view s) (if_neg hid)

theorem view_getTuple_latest {config : RunnableConfig G} {asked : Option String}
    (h : Asks config t ns asked) (hasked : asked.getD "" = "") :
    view s (getTuple S config) = view s (getLatestTuple S t ns) := by
  rw [getTuple, view_bind ((view_ofExcept _).trans h.threadId),
    view_bind ((view_ofExcept _).trans h.ns), view_bind ((view_ofExcept _).trans h.checkpointId)]
  exact congrArg (view s) (if_pos hasked)

def Latest (s : Store) (t ns id : String) : Prop :=
  Committed s t ns id ∧ ∀ id', Committed s t ns id' → id' ≤ id

theorem Sound.view_latest {config : RunnableConfig G} {asked : Option String} (hs : Sound S s)
    (h : Asks config t ns asked) (hasked : asked.getD "" = "") (hlatest : Latest s t ns id) :
    view s (getTuple S config) = view s (buildTuple S t ns id (checkpointConfig t ns id)) := by
  rw [view_getTuple_latest h hasked, hs.view_getLatestTuple,
    hs.named.head?_checkpointIds.mpr hlatest]
  rfl

theorem Sound.view_latest_none {config : RunnableConfig G} {asked : Option String} (hs : Sound S s)
    (h : Asks config t ns asked) (hasked : asked.getD "" = "")
    (hnone : ∀ id, ¬ Committed s t ns id) : view s (getTuple S config) = .ok none := by
  rw [view_getTuple_latest h hasked, hs.view_getLatestTuple,
    hs.named.head?_checkpointIds_none.mpr hnone]
  rfl

def readId (S : Saver V R G) (s : Store) (config : RunnableConfig G) : Option String :=
  ((view s (getTuple S config)).toOption.join).map (·.checkpoint.id)

end LangGraphFunctions.Checkpointers.AzureBlob

import LangGraphFunctions.Checkpointers.BlobTuples
import LangGraphFunctions.Checkpointers.Retention

/-! Every operation of the saver, wherever it is stopped, leaves the container sound. -/

namespace LangGraphFunctions.Checkpointers.AzureBlob

open Lib

variable {V R G α : Type} {S : Saver V R G} {s s' : Store} {t ns id : String}

@[simp] theorem get?_typed (ty : String) : (typed ty).get? "serde_type" = some ty := by
  simp [typed, Dict.get?, Dict.items_ofList]

@[simp] theorem get?_checkpointBlobMetadata (ty : String) (parent : Option String) :
    (checkpointBlobMetadata ty parent).get? "serde_type" = some ty := by
  cases parent with
  | none => exact get?_typed ty
  | some parent => rw [checkpointBlobMetadata, Dict.get?_set_ne _ _ (by decide), get?_typed]

@[simp] theorem get?_writeBlobMetadata (ty channel taskId taskPath : String) :
    (writeBlobMetadata ty channel taskId taskPath).get? "serde_type" = some ty := by
  simp [writeBlobMetadata, Dict.get?, Dict.items_ofList]

theorem typedBlob_uploaded {payload : ByteArray} {metadata : Dict String String} {ty : String}
    (hget : metadata.get? "serde_type" = some ty) (hne : ty ≠ "") (now : Int) :
    typedBlob (uploaded payload metadata now) = some ⟨ty, payload, metadata⟩ := by
  simp only [typedBlob, hget, if_neg hne]

theorem holds_value (hS : S.serde.Lawful) {v : V} {dumped : String × ByteArray}
    (h : S.serde.dumpsTyped (.value v) = .ok dumped) (channel version : String) (now : Int) :
    Holds S (.value t ns channel version) (uploaded dumped.2 (typed dumped.1) now) := by
  refine ⟨_, typedBlob_uploaded (get?_typed _) (hS.type_ne h).1 now, .inr ⟨v, ?_⟩⟩
  simp only [loadValue, Prod.mk.eta, hS.loads h]

theorem holds_empty (channel version : String) (now : Int) :
    Holds S (.value t ns channel version) (uploaded ByteArray.empty (typed "empty") now) :=
  ⟨_, typedBlob_uploaded (get?_typed _) (by decide) now, .inl rfl⟩

theorem holds_metadata (hS : S.serde.Lawful) {m : Dict String V} {dumped : String × ByteArray}
    (h : S.serde.dumpsTyped (.metadata m) = .ok dumped) (now : Int) :
    Holds S (.metadata t ns id) (uploaded dumped.2 (typed dumped.1) now) := by
  refine ⟨_, m, typedBlob_uploaded (get?_typed _) (hS.type_ne h).1 now, ?_⟩
  simp only [loadMetadata, Prod.mk.eta, hS.loads h]

theorem holds_checkpoint (hS : S.serde.Lawful) {data : CheckpointData R}
    {dumped : String × ByteArray} (h : S.serde.dumpsTyped (.checkpoint data) = .ok dumped)
    (parent : Option String) (now : Int) :
    Holds S (.checkpoint t ns id)
      (uploaded dumped.2 (checkpointBlobMetadata dumped.1 parent) now) := by
  refine ⟨_, data, typedBlob_uploaded (get?_checkpointBlobMetadata _ _) (hS.type_ne h).1 now, ?_⟩
  simp only [loadCheckpoint, Prod.mk.eta, hS.loads h]

theorem holds_write (hS : S.serde.Lawful) {v : V} {dumped : String × ByteArray}
    (h : S.serde.dumpsTyped (.value v) = .ok dumped) (channel taskId taskPath : String)
    (writeIndex : Int) (now : Int) :
    Holds S (.write t ns id taskId writeIndex)
      (uploaded dumped.2 (writeBlobMetadata dumped.1 channel taskId taskPath) now) := by
  refine ⟨_, v, typedBlob_uploaded (get?_writeBlobMetadata ..) (hS.type_ne h).1 now, ?_⟩
  simp only [loadValue, Prod.mk.eta, hS.loads h]

structure Publishing (S : Saver V R G) (t ns bound : String) (s : Store) : Prop where
  sound : Sound S s
  dirty : latestAt s t ns = none
  bounded : ∀ id, Committed s t ns id → id ≤ bound

theorem committed_set {k : Key} {b : Blob} (hk : ∀ t ns id, k ≠ .checkpoint t ns id) :
    Committed (s.set k.path b) t ns id ↔ Committed s t ns id := by
  rw [Committed, stored_set, or_iff_right (hk t ns id).symm, Committed]

theorem Publishing.set {bound : String} {k : Key} {b : Blob} (h : Publishing S t ns bound s)
    (hb : Holds S k b) (hmarker : ∀ t ns id, k ≠ .checkpoint t ns id)
    (hlatest : ∀ t ns, k ≠ .latest t ns) : Publishing S t ns bound (s.set k.path b) where
  sound := h.sound.set hb hmarker hlatest
  dirty := (latestAt_set_ne (hlatest t ns)).trans h.dirty
  bounded id hid := h.bounded id ((committed_set hmarker).mp hid)

theorem Publishing.set_checkpoint {bound : String} {b : Blob} (h : Publishing S t ns bound s)
    (hb : Holds S (.checkpoint t ns id) b) (hmetadata : Stored s (.metadata t ns id)) :
    Publishing S t ns (max bound id) (s.set (Key.checkpoint t ns id).path b) where
  sound := h.sound.set_checkpoint hb hmetadata h.dirty
  dirty := (latestAt_set_ne (by simp)).trans h.dirty
  bounded x hx := by
    cases stored_set.mp hx with
    | inl h =>
      cases h
      exact le_max_right ..
    | inr hc => exact (h.bounded x hc).trans (le_max_left ..)

theorem Sound.publishing (hs : Sound S s) {bound : String} {b : Blob}
    (hbound : ∀ id, Committed s t ns id → id ≤ bound)
    (hdirty : parseLatestCheckpointId b.payload = none) :
    Publishing S t ns bound (s.set (Key.latest t ns).path b) where
  sound := hs.set_latest fun id h => by
    rw [hdirty] at h
    cases h
  dirty := (latestAt_set t ns b).trans hdirty
  bounded id hid := hbound id ((committed_set (by simp)).mp hid)

theorem Sound.le_currentLatest (hs : Sound S s) {latest : Option String}
    (h : view s (currentLatest t ns : Call G _) = .ok latest) (hc : Committed s t ns id) :
    id ≤ latest.getD "" := by
  rw [view_currentLatest, Except.ok.injEq] at h
  subst h
  have hscan : id ≤ ((checkpointIds s t ns).head?).getD "" := by
    cases hhead : (checkpointIds s t ns).head? with
    | none => exact absurd hc (hs.named.head?_checkpointIds_none.mp hhead id)
    | some h => exact (hs.named.head?_checkpointIds.mp hhead).2 id hc
  cases hlatest : latestAt s t ns with
  | none => exact hscan
  | some h =>
    rw [Option.filter_some]
    cases hthere : s.contains (checkpointBlobPath t ns h) with
    | false => exact hscan
    | true => exact hs.latest t ns h hlatest (Option.isSome_iff_exists.mp hthere) id hc

theorem looks_findLatestCheckpointId (t ns : String) :
    Looks (fun _ => True) (findLatestCheckpointId t ns : Call G _) :=
  looks_bind (looks_listCheckpointIds fun _ _ => trivial) fun _ => looks_ret _

theorem looks_currentLatest (t ns : String) :
    Looks (fun _ => True) (currentLatest t ns : Call G _) := by
  refine looks_bind (looks_readLatestCheckpointId trivial) fun latest => ?_
  cases latest with
  | none => exact looks_findLatestCheckpointId t ns
  | some latest =>
    refine looks_bind (looks_blobExists trivial) fun there => ?_
    cases there with
    | false => exact looks_findLatestCheckpointId t ns
    | true => exact looks_ret _

theorem keeps_putValue (hS : S.serde.Lawful) {guard : Option G} {values : Dict String V}
    {entry : String × Version} {bound : String} (hs : Publishing S t ns bound s) :
    Keeps (Sound S) (putValue S guard t ns values entry) (fun r s' =>
      (∀ u, r = .ok u → Publishing S t ns bound s') ∧ ∀ e : Exn, r = .error e → True) s := by
  have hset {b : Blob} (hb : Holds S (.value t ns entry.1 entry.2.text) b) :=
    hs.set hb (by simp) (by simp)
  rw [putValue]
  cases values.get? entry.1 with
  | none =>
    refine keeps_guardedUpload hs.sound (fun now => (hset (holds_empty _ _ now)).sound)
      (fun now => ⟨fun _ _ => hset (holds_empty _ _ now), fun _ _ => trivial⟩) fun e => ⟨?_, fun _ _ => trivial⟩
    intro u hu
    cases hu
  | some v =>
    refine keeps_ofExcept_bind (fun dumped hdumped => ?_) fun e he => ⟨?_, fun _ _ => trivial⟩
    · refine keeps_guardedUpload hs.sound (fun now => (hset (holds_value hS hdumped _ _ now)).sound)
        (fun now => ⟨fun _ _ => hset (holds_value hS hdumped _ _ now), fun _ _ => trivial⟩)
        fun e => ⟨?_, fun _ _ => trivial⟩
      intro u hu
      cases hu
    · intro u hu
      cases hu

theorem keeps_put (hS : S.serde.Lawful) (hs : Sound S s) (bound : Option G)
    (config : RunnableConfig G) (checkpoint : Checkpoint V R) (metadata : Dict String V)
    (newVersions : ChannelVersions) :
    Keeps (Sound S) (put S bound config checkpoint metadata newVersions) (fun _ _ => True) s := by
  refine keeps_ofExcept_bind (fun guard _ => ?_) fun _ _ => trivial
  refine keeps_ofExcept_bind (fun t _ => ?_) fun _ _ => trivial
  refine keeps_ofExcept_bind (fun ns _ => ?_) fun _ _ => trivial
  refine keeps_ofExcept_bind (fun parent _ => ?_) fun _ _ => trivial
  refine keeps_look_bind (looks_currentLatest t ns) hs (fun latest hlatest => ?_) fun _ _ => trivial
  have hpublishing (now : Int) :=
    hs.publishing (b := uploaded dirtyLatest ∅ now) (fun id hid => hs.le_currentLatest hlatest hid)
      parse_dirtyLatest
  refine keeps_bind (keeps_guardedUpload hs (fun now => (hpublishing now).sound) (fun now => ?_)
    fun _ => trivial)
  refine keeps_bind (keeps_forM (Publishing S t ns (latest.getD "")) (hpublishing now)
    (fun entry _ s hs => ?_) fun s hs => ?_)
  · exact (keeps_putValue hS hs).mono fun r s' h => ⟨h.1, fun _ _ => trivial⟩
  refine keeps_ofExcept_bind (fun dumped hdumped => ?_) fun _ _ => trivial
  have hmetadata (now : Int) :=
    hs.set (k := .metadata t ns checkpoint.id) (holds_metadata hS hdumped now) (by simp) (by simp)
  refine keeps_bind (keeps_guardedUpload hs.sound (fun now => (hmetadata now).sound) (fun now => ?_)
    fun _ => trivial)
  refine keeps_ofExcept_bind (fun cdumped hcdumped => ?_) fun _ _ => trivial
  have hcheckpoint (now' : Int) := (hmetadata now).set_checkpoint
    (holds_checkpoint hS hcdumped parent now') (stored_set.mpr (.inl rfl))
  refine keeps_bind (keeps_guardedUpload (hmetadata now).sound (fun now' => (hcheckpoint now').sound)
    (fun now' => ?_) fun _ => trivial)
  refine keeps_ofExcept_bind (fun payload hpayload => ?_) fun _ _ => trivial
  have hclean (now'' : Int) : Sound S (Dict.set _ (Key.latest t ns).path
      (uploaded payload ∅ now'')) := (hcheckpoint now').sound.set_latest fun id hid id' hid' => by
      rw [parse_cleanLatest hpayload] at hid
      split at hid
      · cases hid
      · cases hid
        exact (hcheckpoint now').bounded id' hid'
  exact keeps_bind (keeps_guardedUpload (hcheckpoint now').sound hclean (fun now'' => trivial)
    fun _ => trivial)

theorem looks_settled (writeIndex : Int) (name : String) :
    Looks (fun _ => True) (settled writeIndex name : Call G Bool) := by
  rw [settled]
  split
  · exact looks_blobExists trivial
  · exact looks_ret _

theorem keeps_putWrite (hS : S.serde.Lawful) {guard : Option G} {taskId taskPath : String}
    {write : (String × V) × Nat} (hs : Sound S s) :
    Keeps (Sound S) (putWrite S guard t ns id taskId taskPath write) (fun r s' =>
      (∀ u, r = .ok u → Sound S s') ∧ ∀ e : Exn, r = .error e → True) s := by
  let Q (r : Except Exn Unit) (s' : Store) : Prop :=
    (∀ u, r = .ok u → Sound S s') ∧ ∀ e : Exn, r = .error e → True
  have herror (e : Exn) : Q (.error e) s := ⟨fun _ h => (by cases h), fun _ _ => trivial⟩
  change Keeps (Sound S) (putWrite S guard t ns id taskId taskPath write) Q s
  rw [putWrite]
  refine keeps_look_bind (looks_settled _ _) hs (fun there _ => ?_) (fun e _ => herror e)
  cases there with
  | true => exact ⟨fun _ _ => hs, fun _ _ => trivial⟩
  | false =>
    refine keeps_ofExcept_bind (fun dumped hdumped => ?_) fun e _ => herror e
    have hset (now : Int) := hs.set
      (k := .write t ns id taskId (S.writeIndex write.1.1 write.2))
      (holds_write hS hdumped write.1.1 taskId taskPath _ now) (by simp) (by simp)
    exact keeps_guardedUpload hs hset (fun now => ⟨fun _ _ => hset now, fun _ _ => trivial⟩) herror

theorem keeps_putWrites (hS : S.serde.Lawful) (hs : Sound S s) (bound : Option G)
    (config : RunnableConfig G) (writes : List (String × V)) (taskId taskPath : String) :
    Keeps (Sound S) (putWrites S bound config writes taskId taskPath) (fun _ _ => True) s := by
  refine keeps_ofExcept_bind (fun guard _ => ?_) fun _ _ => trivial
  refine keeps_ofExcept_bind (fun t _ => ?_) fun _ _ => trivial
  refine keeps_ofExcept_bind (fun ns _ => ?_) fun _ _ => trivial
  refine keeps_ofExcept_bind (fun checkpointId _ => ?_) fun _ _ => trivial
  cases checkpointId with
  | none => trivial
  | some id =>
    refine keeps_forM (Sound S) hs (fun write _ s hs => ?_) fun _ _ => trivial
    exact (keeps_putWrite hS hs).mono fun r s' h => ⟨h.1, fun _ _ => trivial⟩

theorem keeps_deleteThread (hs : Sound S s) (threadId : String) :
    Keeps (Sound S) (deleteThread threadId : Call G Unit) (fun _ _ => True) s := by
  have hcut (n : Nat) : Sound S (Container.eraseAll s
      ((Container.names s (threadPrefix threadId)).take n)) := by
    refine hs.eraseListed n fun t ns id h => ?_
    rw [Key.startswith_threadPrefix] at h ⊢
    exact h
  have hlist : Looks (fun _ => True) (listBlobs (threadPrefix threadId) : Call G _) :=
    looks_bind (looks_perform fun _ _ => trivial) looks_ofExcept
  refine keeps_look_bind hlist hs (fun blobs hblobs => ?_) fun _ _ => trivial
  rw [view_listBlobs] at hblobs
  cases hblobs
  rw [forM_items]
  suffices hrest : ∀ rest done, Container.names s (threadPrefix threadId) = done ++ rest →
      Keeps (Sound S) (rest.forM fun name => (deleteBlob name : Call G Unit)) (fun _ _ => True)
        (Container.eraseAll s done) from hrest _ [] rfl
  intro rest
  induction rest with
  | nil => exact fun _ _ => trivial
  | cons name rest ih =>
    intro done hnames
    have htake : (Container.names s (threadPrefix threadId)).take (done.length + 1) =
        done ++ [name] := by
      rw [hnames, List.take_length_add_append]
      rfl
    have herased : Sound S ((Container.eraseAll s done).erase name) := by
      have h := hcut (done.length + 1)
      rwa [htake, Container.eraseAll_append] at h
    have hdone : Sound S (Container.eraseAll s done) := by
      have h := hcut done.length
      rwa [hnames, List.take_left] at h
    refine keeps_bind (keeps_deleteBlob hdone herased ?_ fun _ => trivial)
    have hrest := ih (done ++ [name]) (by rw [hnames, List.append_assoc]; rfl)
    rwa [Container.eraseAll_append] at hrest

theorem exists_take_of_mem_prefix {α β : Type} {f : α → List β} {xs : List α} {l : List β}
    (h : l <+: xs.flatMap f) {b : β} (hb : b ∈ l) :
    ∃ x ∈ xs, ∃ n, b ∈ (f x).take n ∧ ∀ c ∈ (f x).take n, c ∈ l := by
  induction xs generalizing l with
  | nil =>
    rw [List.flatMap_nil, List.prefix_nil] at h
    rw [h] at hb
    exact absurd hb List.not_mem_nil
  | cons x xs ih =>
    rw [List.flatMap_cons] at h
    by_cases hle : l.length ≤ (f x).length
    · have hinitial := List.prefix_of_prefix_length_le h (List.prefix_append _ _) hle
      have htake := List.prefix_iff_eq_take.mp hinitial
      exact ⟨x, List.mem_cons_self, l.length, htake ▸ hb, fun c hc => htake.symm ▸ hc⟩
    · have hinitial := List.prefix_of_prefix_length_le (List.prefix_append (f x) _) h
        (Nat.le_of_not_le hle)
      obtain ⟨l', rfl⟩ := hinitial
      rw [List.prefix_append_right_inj] at h
      cases List.mem_append.mp hb with
      | inl hb =>
        refine ⟨x, List.mem_cons_self, (f x).length, ?_, fun c hc => ?_⟩
        · rwa [List.take_length]
        · rw [List.take_length] at hc
          exact List.mem_append_left _ hc
      | inr hb =>
        obtain ⟨y, hy, n, hn, hsub⟩ := ih h hb
        exact ⟨y, List.mem_cons_of_mem _ hy, n, hn, fun c hc => List.mem_append_right _ (hsub c hc)⟩

theorem mem_cut {pick : List String → List String} (hpick : ∀ l, (pick l).Sublist l)
    {nss l : List String} (hl : l <+: deletions pick s t nss) (hs : Named s) {name : String}
    (hname : name ∈ l) : ∃ ns ∈ nss, ∃ id ∈ pick (checkpointIds s t ns), ∃ k : Key, name = k.path ∧
      k.threadId = t ∧ k.checkpointNs = ns ∧ k.checkpointId = some id ∧
      (Key.checkpoint t ns id).path ∈ l := by
  obtain ⟨ns, hns, n, hn, hsub⟩ := exists_take_of_mem_prefix hl hname
  obtain ⟨id, hid, m, hm, hsub'⟩ := exists_take_of_mem_prefix (List.take_prefix n _) hn
  obtain ⟨k, rfl, hk, hstart⟩ := hs.of_mem_names (List.mem_of_mem_take hm)
  obtain ⟨ht, hkns, hkid⟩ := Key.startswith_checkpointBasePrefix.mp hstart
  have hcommitted : Committed s t ns id := hs.mem_checkpointIds.mp ((hpick _).subset hid)
  subst ht hkns
  refine ⟨_, hns, id, hid, k, rfl, rfl, rfl, hkid, hsub _ (hsub' _ ?_)⟩
  refine marker_mem_take (Container.pairwise_names _ _) hkid hm (mem_names_path.mpr ⟨?_, hcommitted⟩)
  exact Key.startswith_checkpointBasePrefix.mpr ⟨rfl, rfl, rfl⟩

theorem Sound.cut {pick : List String → List String} (hpick : ∀ l, (pick l).Sublist l)
    {nss l : List String} (hl : l <+: deletions pick s t nss) (hs : Sound S s) :
    Sound S (Container.eraseAll s l) := by
  refine hs.eraseAll fun t' ns' id' hmem => .inl ?_
  obtain ⟨ns, -, id, -, k, hk, rfl, rfl, hid, hmarker⟩ := mem_cut hpick hl hs.named hmem
  rw [Key.path_inj] at hk
  subst hk
  cases hid
  exact hmarker

theorem keeps_retention (hs : Sound S s) (r : Retention) (t : String) (checkpointNs : Option String) :
    Keeps (Sound S) (r.program t checkpointNs : Call G Nat) (fun _ _ => True) s :=
  r.keeps t checkpointNs (fun _ hl => hs.cut r.doomed_sublist hl) trivial

end LangGraphFunctions.Checkpointers.AzureBlob

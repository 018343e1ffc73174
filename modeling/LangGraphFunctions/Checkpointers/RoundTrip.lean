import LangGraphFunctions.Checkpointers.BlobUploads
import LangGraphFunctions.Checkpointers.Isolation
import LangGraphFunctions.Checkpointers.Latest

/-! What is read of a checkpoint is what was put, whatever else comes after it. -/

namespace LangGraphFunctions.Checkpointers.AzureBlob

open Lib

variable {V R G : Type} {S : Saver V R G} {s s' s₁ : Store} {t ns id : String}

def typedContent (c : Content) : Option TypedBlob := typedBlob ⟨c.1, c.2, none⟩

def valueOf (S : Saver V R G) (c : Content) : Option V :=
  (typedContent c).bind fun typed =>
    if typed.serdeType = "empty" then none else (loadValue S typed).toOption

theorem typedAt_eq (s : Store) (name : String) : typedAt s name = (content s name).bind typedContent := by
  rw [typedAt, content]
  cases s.get? name <;> rfl

theorem typedAt_congr {name : String} (h : content s name = content s' name) :
    typedAt s name = typedAt s' name := by
  rw [typedAt_eq, typedAt_eq, h]

theorem loadedAt_congr
    (h : content s (checkpointBlobPath t ns id) = content s' (checkpointBlobPath t ns id)) :
    loadedAt S s t ns id = loadedAt S s' t ns id := by
  rw [loadedAt, loadedAt, typedAt_congr h]

theorem typedContent_typed {payload : ByteArray} {ty : String} (h : ty ≠ "") :
    typedContent (payload, typed ty) = some ⟨ty, payload, typed ty⟩ :=
  typedBlob_uploaded (get?_typed _) h 0

theorem valueOf_dumped (hS : S.serde.Lawful) {v : V} {dumped : String × ByteArray}
    (h : S.serde.dumpsTyped (.value v) = .ok dumped) :
    valueOf S (dumped.2, typed dumped.1) = some v := by
  rw [valueOf, typedContent_typed (hS.type_ne h).1, Option.bind_some, if_neg (hS.type_ne h).2,
    loadValue, hS.loads h]
  rfl

theorem valueOf_empty : valueOf S (ByteArray.empty, typed "empty") = none := by
  rw [valueOf, typedContent_typed (by decide), Option.bind_some, if_pos rfl]

theorem Dumped.valueOf (hS : S.serde.Lawful) {v : Option V} {c : Content} (h : Dumped S v c) :
    valueOf S c = v := by
  cases v with
  | none =>
    obtain rfl : c = (ByteArray.empty, typed "empty") := h
    exact valueOf_empty
  | some v =>
    obtain ⟨dumped, hdumped, rfl⟩ := h
    exact valueOf_dumped hS hdumped

/-- The value that a put stores for a channel and the text of its version, if it stores one; a
channel without a value has none. -/
def putValues (newVersions : ChannelVersions) (values : Dict String V) (channel version : String) :
    Option (Option V) :=
  if (newVersions.get? channel).map Version.text = some version then some (values.get? channel)
  else none

theorem putValues_of_mem {newVersions : ChannelVersions} (values : Dict String V)
    {e : String × Version} (he : e ∈ newVersions.items) :
    putValues newVersions values e.1 e.2.text = some (values.get? e.1) := by
  rw [putValues, Dict.get?_eq_some_iff.mpr he, Option.map_some, if_pos rfl]

theorem mem_of_putValues {newVersions : ChannelVersions} {values : Dict String V}
    {channel version : String} {v : Option V}
    (h : putValues newVersions values channel version = some v) :
    ∃ e ∈ newVersions.items, e.1 = channel ∧ e.2.text = version := by
  rw [putValues] at h
  split at h
  · next htext =>
    obtain ⟨w, hget, rfl⟩ := Option.map_eq_some_iff.mp htext
    exact ⟨(channel, w), Dict.get?_eq_some_iff.mp hget, rfl, rfl⟩
  · cases h

def Stores (S : Saver V R G) (W : String → String → String → String → Option V → Prop) (k : Key)
    (c : Content) : Prop :=
  ∀ t ns channel version, k = .value t ns channel version → W t ns channel version (valueOf S c)

theorem stores_put (hS : S.serde.Lawful) {W : String → String → String → String → Option V → Prop}
    {newVersions : ChannelVersions} {values : Dict String V} {k : Key} {c : Content}
    (hW : ∀ channel version v, putValues newVersions values channel version = some v →
      W t ns channel version v)
    (h : PutContent S t ns id newVersions values k c) : Stores S W k c := by
  rintro t' ns' channel version rfl
  rcases h with hk | ⟨e, he, hk, hdumped⟩ | hk | hk <;> cases hk
  rw [hdumped.valueOf hS]
  exact hW e.1 e.2.text _ (putValues_of_mem values he)

theorem Sound.loadChannelValue_eq (hs : Sound S s) (values : Dict String V)
    (e : String × Version) : view s (loadChannelValue S t ns values e) =
      .ok (((content s (valueBlobPath t ns e.1 e.2.text)).bind (valueOf S)).elim values
        (values.set e.1)) := by
  rw [loadChannelValue, view_bind (view_downloadTypedBlob _)]
  cases hat : AzureBlob.typedAt s (valueBlobPath t ns e.1 e.2.text) with
  | none =>
    rw [typedAt_eq] at hat
    cases hcontent : content s (valueBlobPath t ns e.1 e.2.text) with
    | none => rfl
    | some c =>
      rw [hcontent, Option.bind_some] at hat
      rw [Option.bind_some, valueOf, hat]
      rfl
  | some blob =>
    obtain ⟨b, hb, htyped⟩ := Option.bind_eq_some_iff.mp hat
    obtain ⟨typed, htyped', hload⟩ := hs.holds (.value t ns e.1 e.2.text) b hb
    cases htyped.symm.trans htyped'
    rw [typedAt_eq] at hat
    obtain ⟨c, hcontent, hc⟩ := Option.bind_eq_some_iff.mp hat
    rw [hcontent, Option.bind_some, valueOf, hc, Option.bind_some]
    change view s (if blob.serdeType = "empty" then _ else _) = _
    by_cases hempty : blob.serdeType = "empty"
    · rw [if_pos hempty, if_pos hempty]
      rfl
    · obtain ⟨v, hv⟩ := hload.resolve_left hempty
      rw [if_neg hempty, if_neg hempty, hv]
      rfl

theorem Sound.loadChannelValues_eq (hs : Sound S s) (versions : ChannelVersions) :
    view s (loadChannelValues S t ns versions) = .ok (versions.filterMap fun channel version =>
      (content s (valueBlobPath t ns channel version.text)).bind (valueOf S)) := by
  rw [loadChannelValues, view_foldlM, foldlM_pure fun values e => hs.loadChannelValue_eq values e]
  refine congrArg Except.ok ?_
  rw [← Dict.ofList_items (versions.filterMap _), Dict.ofList, Dict.filterMap, List.foldl_filterMap]
  congr 1
  funext values e
  cases (content s (valueBlobPath t ns e.1 e.2.text)).bind (valueOf S) <;> rfl

def Request.Touches (t ns id : String) (s : Store) : Request V R G → Prop
  | .put _ config checkpoint _ _ =>
    configThreadId config = .ok t ∧ configCheckpointNs config = .ok ns ∧ checkpoint.id = id
  | .aput _ config checkpoint _ _ =>
    configThreadId config = .ok t ∧ configCheckpointNs config = .ok ns ∧ checkpoint.id = id
  | .deleteThread threadId => threadId = t
  | .adeleteThread threadId => threadId = t
  | .deleteCheckpointsBefore threadId beforeCheckpointId checkpointNs =>
    threadId = t ∧ ns ∈ targets s t checkpointNs ∧ id < beforeCheckpointId
  | .deleteOldCheckpoints threadId keepLast checkpointNs =>
    0 ≤ keepLast ∧ threadId = t ∧ ns ∈ targets s t checkpointNs ∧
      id ∈ (checkpointIds s t ns).drop keepLast.toNat
  | _ => False

/-- Operations that neither delete the checkpoint nor put it again, each of them possibly stopped
on the way. -/
inductive Later (S : Saver V R G) (t ns id : String) :
    Store → List (Request V R G × Run G) → Store → Prop
  | nil {s : Store} : Later S t ns id s [] s
  | cons {s s₁ s' : Store} {u : Run G} {p : Call G Unit} {w : List (Request V R G × Run G)}
      (q : Request V R G) : ¬ q.Touches t ns id s → Exec service Eq (q.program S) s u p s₁ →
        Later S t ns id s₁ w s' → Later S t ns id s ((q, u) :: w) s'

def uploadsAll (w : List (Request V R G × Run G)) : List (String × Content) :=
  w.flatMap fun x => uploads x.2

def Request.Stores (t ns channel version : String) (v : Option V) : Request V R G → Prop
  | .put _ config checkpoint _ newVersions =>
    configThreadId config = .ok t ∧ configCheckpointNs config = .ok ns ∧
      putValues newVersions checkpoint.channelValues channel version = some v
  | .aput _ config checkpoint _ newVersions =>
    configThreadId config = .ok t ∧ configCheckpointNs config = .ok ns ∧
      putValues newVersions checkpoint.channelValues channel version = some v
  | _ => False

def Kept (S : Saver V R G) (s : Store) (t ns id : String) (k : Key) : Prop :=
  k = .checkpoint t ns id ∨ k = .metadata t ns id ∨ ∃ data, loadedAt S s t ns id = some data ∧
    ∃ channel version, data.channelVersions.get? channel = some version ∧
      k = .value t ns channel version.text

def Others (t ns id : String) (k : Key) : Prop := k ≠ .checkpoint t ns id ∧ k ≠ .metadata t ns id

def Spares (S : Saver V R G) (s : Store) (t ns id : String) (p : Call G Unit) : Prop :=
  p.Uses Listed (Adds (Others t ns id)) ∨ p.Uses Listed Uploadless ∧
    ∀ s', Leads p s s' → ∀ k, Kept S s t ns id k → s'.get? k.path = s.get? k.path

theorem others_put {config : RunnableConfig G} {checkpoint : Checkpoint V R}
    {newVersions : ChannelVersions} (h : ¬ (configThreadId config = .ok t ∧
      configCheckpointNs config = .ok ns ∧ checkpoint.id = id)) (t' ns' : String)
    (ht : configThreadId config = .ok t') (hns : configCheckpointNs config = .ok ns') (k : Key)
    (hk : PutKey t' ns' checkpoint.id newVersions k) : Others t ns id k := by
  rcases hk with rfl | ⟨e, -, rfl⟩ | rfl | rfl
  · exact ⟨by simp, by simp⟩
  · exact ⟨by simp, by simp⟩
  · refine ⟨by simp, fun heq => h ?_⟩
    cases heq
    exact ⟨ht, hns, rfl⟩
  · refine ⟨fun heq => h ?_, by simp⟩
    cases heq
    exact ⟨ht, hns, rfl⟩

theorem spares_look {α : Type} {N : String → Prop} {p : Call G α} (hp : Looks N p) :
    Spares S s t ns id (p.bind fun _ => return ()) :=
  .inl (Prog.uses_bind (adds_look hp) fun _ => Prog.uses_ret _)

theorem get?_eraseAll_of_not_mem {names : List String} {name : String} (h : name ∉ names) :
    (Container.eraseAll s names).get? name = s.get? name := by
  rw [Container.get?_eraseAll, if_neg h]

theorem Kept.threadId {k : Key} (h : Kept S s t ns id k) : k.threadId = t ∧ k.checkpointNs = ns := by
  rcases h with rfl | rfl | ⟨data, -, channel, version, -, rfl⟩ <;> exact ⟨rfl, rfl⟩

theorem Sound.spares_retention (hs : Sound S s) (hc : Committed s t ns id) {r : Retention}
    {t' : String} {checkpointNs : Option String} (h : ¬ (t' = t ∧ ns ∈ targets s t checkpointNs ∧
      id ∈ r.doomed (checkpointIds s t ns))) :
    Spares S s t ns id ((r.program t' checkpointNs).bind fun _ => return ()) := by
  refine .inr ⟨Prog.uses_bind (uploadless_retention r t' checkpointNs) fun _ => Prog.uses_ret _, ?_⟩
  intro s' hleads
  refine hleads.keeps (C := fun s' => ∀ k, Kept S s t ns id k → s'.get? k.path = s.get? k.path)
    (keeps_discard (r.keeps t' checkpointNs (fun l hl k hk => ?_) trivial)) fun _ _ => rfl
  refine get?_eraseAll_of_not_mem fun hmem => ?_
  obtain ⟨ns', hns', id', hid', l, hpath, hthread, hns, hid, -⟩ :=
    mem_cut r.doomed_sublist hl hs.named hmem
  cases Key.path_injective hpath
  obtain ⟨hkt, hkns⟩ := hk.threadId
  obtain rfl : t' = t := hthread.symm.trans hkt
  obtain rfl : ns' = ns := hns.symm.trans hkns
  rcases hk with rfl | rfl | ⟨data, -, channel, version, -, rfl⟩
  · cases hid
    exact h ⟨rfl, hns', hid'⟩
  · cases hid
    exact h ⟨rfl, hns', hid'⟩
  · cases hid

theorem Sound.spares_collection (hs : Sound S s) (hc : Committed s t ns id) {t' : String}
    {checkpointNs : Option String} {dryRun : Bool} {grace : Int} :
    Spares S s t ns id
      ((collectOrphanedValues S t' checkpointNs dryRun grace).bind fun _ => return ()) := by
  refine .inr ⟨Prog.uses_bind (uploadless_collectOrphanedValues ..) fun _ => Prog.uses_ret _, ?_⟩
  intro s' hleads
  refine hleads.keeps (C := fun s' => ∀ k, Kept S s t ns id k → s'.get? k.path = s.get? k.path)
    (keeps_discard (keeps_collectOrphanedValues (fun now l hl k hk => ?_) fun _ => trivial))
    fun _ _ => rfl
  refine get?_eraseAll_of_not_mem fun hmem => ?_
  obtain ⟨ns', -, hremoved⟩ := List.mem_flatMap.mp (hl.subset hmem)
  obtain ⟨channel, version, rfl⟩ := Key.startswith_valuesPrefix.mp (startswith_removed hremoved)
  rcases hk with hk | hk | ⟨data, hdata, channel', version', hget, hk⟩
  · cases hk
  · cases hk
  · cases hk
    rw [removed] at hremoved
    split at hremoved
    · exact absurd hremoved List.not_mem_nil
    · rw [garbage] at hremoved
      split at hremoved
      · next hretained =>
        have horphan := (mem_orphansAt.mp hremoved).2.1
        rw [Key.path, parseValueBlobPath_value, isOrphan, Bool.not_eq_true', ← Bool.not_eq_true,
          List.contains_iff_mem, hs.named.mem_retainedAt hretained] at horphan
        exact horphan ⟨id, data, hc, hdata, version', hget, rfl⟩
      · exact absurd hremoved List.not_mem_nil

theorem spares_deleteThread {t' : String} (h : t' ≠ t) :
    Spares S s t ns id (deleteThread t' : Call G Unit) := by
  refine .inr ⟨uploadless_deleteThread t', fun s' hleads k hk => ?_⟩
  have hagree : Container.Agree (Below t none) s s' :=
    hleads.spares (Operation.deleteThread (S := S)).stays fun _ hname =>
      Apart.not_below (.inl h) hname
  exact (hagree _ (Key.startswith_threadPrefix.mpr hk.threadId.1)).symm

theorem Sound.spares (hs : Sound S s) (hc : Committed s t ns id) {q : Request V R G}
    (hq : ¬ q.Touches t ns id s) : Spares S s t ns id (q.program S) := by
  cases q with
  | getTuple config => exact spares_look (looks_getTuple config)
  | agetTuple config => exact spares_look (looks_getTuple config)
  | list q => exact spares_look (looks_list q)
  | alist q => exact spares_look (looks_list q)
  | put => exact .inl (Prog.uses_bind (adds_put (others_put hq)) fun _ => Prog.uses_ret _)
  | aput => exact .inl (Prog.uses_bind (adds_put (others_put hq)) fun _ => Prog.uses_ret _)
  | putWrites => exact .inl (adds_putWrites fun _ _ _ _ _ => ⟨by simp, by simp⟩)
  | aputWrites => exact .inl (adds_putWrites fun _ _ _ _ _ => ⟨by simp, by simp⟩)
  | deleteThread t' => exact spares_deleteThread hq
  | adeleteThread t' => exact spares_deleteThread hq
  | deleteCheckpointsBefore t' before checkpointNs =>
    refine hs.spares_retention hc (r := .before before) fun h => hq ⟨h.1, h.2.1, ?_⟩
    exact of_decide_eq_true (List.mem_filter.mp h.2.2).2
  | deleteOldCheckpoints t' keepLast checkpointNs =>
    by_cases hneg : keepLast < 0
    · rw [Request.program, deleteOldCheckpoints, if_pos hneg]
      exact .inl (Prog.uses_raise _)
    · obtain ⟨n, rfl⟩ := Int.eq_ofNat_of_zero_le (Int.not_lt.mp hneg)
      exact hs.spares_retention hc (r := .old n) fun h => hq ⟨Int.natCast_nonneg n, h⟩
  | collectOrphanedValues => exact hs.spares_collection hc

theorem Spares.content {p q : Call G Unit} {u : Run G} (hp : Spares S s t ns id p)
    (h : Exec service Eq p s u q s') {k : Key} (hk : Kept S s t ns id k) :
    content s' k.path = (lastUpload k.path (uploads u)).or (content s k.path) := by
  rcases hp with hadds | ⟨hnone, hspares⟩
  · exact content_exec hadds h
  · rw [uploads_eq_nil hnone h, lastUpload_nil, Option.none_or, AzureBlob.content,
      hspares s' ⟨u, q, h⟩ k hk, AzureBlob.content]

theorem Spares.lastUpload {p q : Call G Unit} {u : Run G} (hp : Spares S s t ns id p)
    (h : Exec service Eq p s u q s') {k : Key} (hk : ¬ Others t ns id k) :
    lastUpload k.path (uploads u) = none := by
  rcases hp with hadds | ⟨hnone, -⟩
  · exact lastUpload_of_adds hadds h hk
  · rw [uploads_eq_nil hnone h, lastUpload_nil]

theorem committed_iff : Committed s t ns id ↔ (content s (checkpointBlobPath t ns id)).isSome := by
  rw [content, Option.isSome_map, Option.isSome_iff_exists]
  rfl

structure Left (S : Saver V R G) (t ns id : String) (s : Store) (w : List (String × Content))
    (s' : Store) : Prop where
  reachable : Reachable S s'
  marker : content s' (checkpointBlobPath t ns id) = content s (checkpointBlobPath t ns id)
  metadata : content s' (metadataBlobPath t ns id) = content s (metadataBlobPath t ns id)
  values : ∀ {data channel version}, loadedAt S s t ns id = some data →
    data.channelVersions.get? channel = some version →
      content s' (valueBlobPath t ns channel version.text) =
        (lastUpload (valueBlobPath t ns channel version.text) w).or
          (content s (valueBlobPath t ns channel version.text))

theorem left_step (hS : S.serde.Lawful) (hs : Reachable S s) (hc : Committed s t ns id)
    {q : Request V R G} (hq : ¬ q.Touches t ns id s) {u : Run G} {p : Call G Unit}
    (h : Exec service Eq (q.program S) s u p s') : Left S t ns id s (uploads u) s' := by
  have hspares := (hs.sound hS).spares hc hq
  refine ⟨hs.step q ⟨u, p, h⟩, ?_, ?_, fun hdata hget => ?_⟩
  · have hcontent := hspares.content h (k := .checkpoint t ns id) (.inl rfl)
    rwa [hspares.lastUpload h fun h => h.1 rfl] at hcontent
  · have hcontent := hspares.content h (k := .metadata t ns id) (.inr (.inl rfl))
    rwa [hspares.lastUpload h fun h => h.2 rfl] at hcontent
  · exact hspares.content h (k := .value t ns _ _) (.inr (.inr ⟨_, hdata, _, _, hget, rfl⟩))

theorem Later.left (hS : S.serde.Lawful) (hs : Reachable S s) (hc : Committed s t ns id)
    {w : List (Request V R G × Run G)} (h : Later S t ns id s w s') :
    Left S t ns id s (uploadsAll w) s' := by
  induction h with
  | nil => exact ⟨hs, rfl, rfl, fun _ _ => rfl⟩
  | cons q hq hrun _ ih =>
    have hstep := left_step hS hs hc hq hrun
    have hrest := ih hstep.reachable (by rwa [committed_iff, hstep.marker, ← committed_iff])
    refine ⟨hrest.reachable, hrest.marker.trans hstep.marker,
      hrest.metadata.trans hstep.metadata, fun hdata hget => ?_⟩
    rw [hrest.values ((loadedAt_congr hstep.marker).trans hdata) hget, hstep.values hdata hget,
      ← Option.or_assoc, ← lastUpload_append]
    rfl

theorem mem_of_lastUpload {name : String} {w : List (String × Content)} {c : Content}
    (h : lastUpload name w = some c) : (name, c) ∈ w := by
  obtain ⟨x, hx, rfl⟩ := Option.map_eq_some_iff.mp h
  obtain ⟨hmem, hname⟩ := List.mem_filter.mp (List.mem_of_getLast? hx)
  obtain rfl := of_decide_eq_true hname
  exact hmem

theorem lastUpload_ne_none {name : String} {w : List (String × Content)} {c : Content}
    (h : (name, c) ∈ w) : lastUpload name w ≠ none := by
  intro hnone
  have hnil : (w.filter fun x => x.1 = name) = [] :=
    List.getLast?_eq_none_iff.mp (Option.map_eq_none_iff.mp hnone)
  have hmem : (name, c) ∈ w.filter fun x => x.1 = name := List.mem_filter.mpr ⟨h, by simp⟩
  rw [hnil] at hmem
  exact List.not_mem_nil hmem

theorem stored_of_mem {α : Type} {p q : Call G α} {u : Run G}
    {W : String → String → String → String → Option V → Prop}
    (hp : p.Uses Listed (AddsAs (Stores S W))) (h : Exec service Eq p s u q s')
    {channel version : String} {c : Content}
    (hc : (valueBlobPath t ns channel version, c) ∈ uploads u) :
    W t ns channel version (valueOf S c) := by
  obtain ⟨k, hk, hpath⟩ := mem_uploads hp h hc
  exact hk t ns channel version (Key.path_injective hpath.symm)

theorem values_put (hS : S.serde.Lawful) {config : RunnableConfig G} {parent : Option String}
    (hasks : Asks config t ns parent) {checkpoint : Checkpoint V R} {bound : Option G}
    {metadata : Dict String V} {newVersions : ChannelVersions} {u : Run G} {a : RunnableConfig G}
    (hput : Exec service Eq (put S bound config checkpoint metadata newVersions) s u
      (.ofExcept (.ok a)) s₁) (channel version : String) :
    (lastUpload (valueBlobPath t ns channel version) (uploads u)).map (valueOf S) =
      putValues newVersions checkpoint.channelValues channel version := by
  have hadds : (put S bound config checkpoint metadata newVersions).Uses Listed
      (AddsAs (Stores S fun _ _ channel version v =>
        putValues newVersions checkpoint.channelValues channel version = some v)) :=
    adds_putContent fun _ _ _ _ _ _ => stores_put hS fun _ _ _ hv => hv
  cases hlast : lastUpload (valueBlobPath t ns channel version) (uploads u) with
  | some c => exact (stored_of_mem hadds hput (mem_of_lastUpload hlast)).symm
  | none =>
    cases hvalue : putValues newVersions checkpoint.channelValues channel version with
    | none => rfl
    | some v =>
      obtain ⟨e, he, rfl, rfl⟩ := mem_of_putValues hvalue
      obtain ⟨c, hc⟩ := (writes_exec (writes_put hasks) hput a rfl).values e he
      exact absurd hlast (lastUpload_ne_none hc)

theorem stores_program (hS : S.serde.Lawful) {q : Request V R G} {p : Call G Unit} {u : Run G}
    (h : Exec service Eq (q.program S) s u p s') {channel version : String} {c : Content}
    (hc : (valueBlobPath t ns channel version, c) ∈ uploads u) :
    q.Stores t ns channel version (valueOf S c) := by
  have hnone (hp : (q.program S).Uses Listed Uploadless) : q.Stores t ns channel version
      (valueOf S c) := (mem_uploads hp h hc).elim
  have hlook {α : Type} {N : String → Prop} {p : Call G α} (hp : Looks N p) :
      (p.bind fun _ => return ()).Uses Listed Uploadless :=
    Prog.uses_bind (uploadless_look hp) fun _ => Prog.uses_ret _
  cases q with
  | getTuple config => exact hnone (hlook (looks_getTuple config))
  | agetTuple config => exact hnone (hlook (looks_getTuple config))
  | list q => exact hnone (hlook (looks_list q))
  | alist q => exact hnone (hlook (looks_list q))
  | put bound config checkpoint metadata newVersions =>
    refine stored_of_mem (W := fun t ns channel version v =>
      (Request.put bound config checkpoint metadata newVersions).Stores t ns channel version v)
      (Prog.uses_bind (adds_putContent fun t ns ht hns k c => ?_) fun _ => Prog.uses_ret _) h hc
    exact stores_put hS fun channel version v hv => ⟨ht, hns, hv⟩
  | aput bound config checkpoint metadata newVersions =>
    refine stored_of_mem (W := fun t ns channel version v =>
      (Request.aput bound config checkpoint metadata newVersions).Stores t ns channel version v)
      (Prog.uses_bind (adds_putContent fun t ns ht hns k c => ?_) fun _ => Prog.uses_ret _) h hc
    exact stores_put hS fun channel version v hv => ⟨ht, hns, hv⟩
  | putWrites =>
    obtain ⟨k, hk, hpath⟩ := mem_uploads (adds_putWrites (K := fun k => ∀ t ns channel version,
      k ≠ .value t ns channel version) fun _ _ _ _ _ _ _ _ _ => by simp) h hc
    exact (hk t ns channel version (Key.path_injective hpath.symm)).elim
  | aputWrites =>
    obtain ⟨k, hk, hpath⟩ := mem_uploads (adds_putWrites (K := fun k => ∀ t ns channel version,
      k ≠ .value t ns channel version) fun _ _ _ _ _ _ _ _ _ => by simp) h hc
    exact (hk t ns channel version (Key.path_injective hpath.symm)).elim
  | deleteThread t' => exact hnone (uploadless_deleteThread t')
  | adeleteThread t' => exact hnone (uploadless_deleteThread t')
  | deleteCheckpointsBefore t' before checkpointNs =>
    exact hnone (Prog.uses_bind (uploadless_retention (.before before) t' checkpointNs)
      fun _ => Prog.uses_ret _)
  | deleteOldCheckpoints t' keepLast checkpointNs =>
    refine hnone (Prog.uses_bind ?_ fun _ => Prog.uses_ret _)
    by_cases hneg : keepLast < 0
    · rw [deleteOldCheckpoints, if_pos hneg]
      exact Prog.uses_raise _
    · obtain ⟨n, rfl⟩ := Int.eq_ofNat_of_zero_le (Int.not_lt.mp hneg)
      exact uploadless_retention (.old n) t' checkpointNs
  | collectOrphanedValues =>
    exact hnone (Prog.uses_bind (uploadless_collectOrphanedValues ..) fun _ => Prog.uses_ret _)

theorem Later.stores (hS : S.serde.Lawful) {w : List (Request V R G × Run G)}
    (h : Later S t ns id s w s') : ∀ x ∈ w, ∀ channel version c,
      (valueBlobPath t ns channel version, c) ∈ uploads x.2 →
        x.1.Stores t ns channel version (valueOf S c) := by
  induction h with
  | nil => exact fun x hx => (List.not_mem_nil hx).elim
  | cons q _ hrun _ ih =>
    intro x hx channel version c hc
    rcases List.mem_cons.mp hx with rfl | hx
    · exact stores_program hS hrun hc
    · exact ih x hx channel version c hc

/-- The value of a channel at a version that is read after a put and the operations `w`: the value
uploaded last by one of these, or the one that the put stored, or else what was there before. -/
def lastValue (S : Saver V R G) (t ns : String) (s : Store) (newVersions : ChannelVersions)
    (values : Dict String V) (w : List (Request V R G × Run G)) (channel : String)
    (version : Version) : Option V :=
  (((lastUpload (valueBlobPath t ns channel version.text) (uploadsAll w)).map (valueOf S)).or
    (putValues newVersions values channel version.text)).getD
      ((content s (valueBlobPath t ns channel version.text)).bind (valueOf S))

theorem Sound.buildTuple_eq (hs : Sound S s) {typed mtyped : TypedBlob} {data : CheckpointData R}
    {metadata : Dict String V}
    (htyped : AzureBlob.typedAt s (checkpointBlobPath t ns id) = some typed)
    (hdata : loadCheckpoint S typed = .ok data)
    (hmtyped : AzureBlob.typedAt s (metadataBlobPath t ns id) = some mtyped)
    (hmetadata : loadMetadata S mtyped = .ok metadata) (config : RunnableConfig G) :
    ∃ writes, view s (loadPendingWrites S t ns id) = .ok writes ∧
      view s (buildTuple S t ns id config) = .ok (some
        { config
          checkpoint := { data with
            channelValues := data.channelVersions.filterMap fun channel version =>
              (content s (valueBlobPath t ns channel version.text)).bind (valueOf S) }
          metadata
          parentConfig := (parentId typed.metadata).map (checkpointConfig t ns)
          pendingWrites := writes }) := by
  obtain ⟨writes, hwrites⟩ := hs.view_loadPendingWrites t ns id
  exact ⟨writes, hwrites, AzureBlob.view_buildTuple htyped hdata
    (hs.loadChannelValues_eq data.channelVersions) hmtyped hmetadata hwrites config⟩

theorem parentId_checkpointBlobMetadata (ty : String) (parent : Option String) :
    parentId (checkpointBlobMetadata ty parent) = parent.filter (· ≠ "") := by
  cases parent with
  | none => rfl
  | some parent =>
    have hget : ((typed ty).set "parent_id" (Percent.quote parent)).get? "parent_id" =
        some (Percent.quote parent) := Dict.get?_set_self _ _ _
    rw [checkpointBlobMetadata, parentId, hget]
    simp only [Percent.unquote_quote, Option.filter_some]
    by_cases h : parent = "" <;> simp [h]

/-- What a tuple that is read back is. -/
structure RoundTrip (S : Saver V R G) (config : RunnableConfig G) (checkpoint : Checkpoint V R)
    (metadata : Dict String V) (t ns : String) (parent : Option String)
    (value : String → Version → Option V) (tuple : CheckpointTuple V R G) : Prop where
  data : tuple.checkpoint.toCheckpointData = checkpoint.toCheckpointData
  values : ∀ channel, tuple.checkpoint.channelValues.get? channel =
    (checkpoint.channelVersions.get? channel).bind (value channel)
  metadata : tuple.metadata = S.getCheckpointMetadata config metadata
  parentConfig : tuple.parentConfig = (parent.filter (· ≠ "")).map (checkpointConfig t ns)

def Returns {α : Type} (p : Call G α) (s : Store) (a : α) : Prop :=
  ∀ r s', Ends p s r s' ↔ r = .ok a ∧ s' = s

theorem returns_look {α : Type} {N : String → Prop} {p : Call G α} (hp : Looks N p) {a : α}
    (h : view s p = .ok a) : Returns p s a := by
  intro r s'
  rw [← h]
  constructor
  · exact fun hends => hends.look hp
  · rintro ⟨rfl, rfl⟩
    exact ends_look hp

theorem round_trip (hS : S.serde.Lawful) (hs : Reachable S s) {config asked : RunnableConfig G}
    {parent : Option String} (hasks : Asks config t ns parent) {checkpoint : Checkpoint V R}
    (hid : checkpoint.id ≠ "") (hasked : Asks asked t ns (some checkpoint.id))
    {bound : Option G} {metadata : Dict String V} {newVersions : ChannelVersions}
    {p : Call G (RunnableConfig G)} (hp : p = put S bound config checkpoint metadata newVersions ∨
      p = aput S bound config checkpoint metadata newVersions) {u : Run G} {a : RunnableConfig G}
    (hput : Exec service Eq p s u (.ofExcept (.ok a)) s₁) {w : List (Request V R G × Run G)}
    (hlater : Later S t ns checkpoint.id s₁ w s') {read : Call G (Option (CheckpointTuple V R G))}
    (hread : read = getTuple S asked ∨ read = agetTuple S asked) :
    ∃ tuple, Returns read s' (some tuple) ∧
      RoundTrip S config checkpoint metadata t ns parent
        (lastValue S t ns s newVersions checkpoint.channelValues w) tuple := by
  obtain rfl : p = put S bound config checkpoint metadata newVersions := hp.elim id id
  obtain rfl : read = getTuple S asked := hread.elim id id
  have hreach : Reachable S s₁ :=
    hs.step (.put bound config checkpoint metadata newVersions) ⟨u, _, Exec.bind _ hput⟩
  have hadds : (put S bound config checkpoint metadata newVersions).Uses Listed
      (Adds fun _ => True) := adds_put fun _ _ _ _ _ _ => trivial
  obtain ⟨⟨md, hmd, hmup⟩, ⟨cd, hcd, hcup⟩, -⟩ := writes_exec (writes_put hasks) hput a rfl
  have hmarker : content s₁ (checkpointBlobPath t ns checkpoint.id) =
      some (cd.2, checkpointBlobMetadata cd.1 parent) := by
    rw [content_exec hadds hput]
    exact congrArg (Option.or · _) hcup
  have hmeta : content s₁ (metadataBlobPath t ns checkpoint.id) = some (md.2, typed md.1) := by
    rw [content_exec hadds hput]
    exact congrArg (Option.or · _) hmup
  have hleft := hlater.left hS hreach (by rw [committed_iff, hmarker]; rfl)
  have htyped : typedContent (cd.2, checkpointBlobMetadata cd.1 parent) =
      some ⟨cd.1, cd.2, checkpointBlobMetadata cd.1 parent⟩ :=
    typedBlob_uploaded (get?_checkpointBlobMetadata _ _) (hS.type_ne hcd).1 0
  have hdata : loadCheckpoint S ⟨cd.1, cd.2, checkpointBlobMetadata cd.1 parent⟩ =
      .ok checkpoint.toCheckpointData := by
    simp only [loadCheckpoint, Prod.mk.eta, hS.loads hcd]
  have hmd' : loadMetadata S ⟨md.1, md.2, typed md.1⟩ =
      .ok (S.getCheckpointMetadata config metadata) := by
    simp only [loadMetadata, Prod.mk.eta, hS.loads hmd]
  have hat (s : Store) (h : content s (checkpointBlobPath t ns checkpoint.id) =
      some (cd.2, checkpointBlobMetadata cd.1 parent)) : typedAt s
        (checkpointBlobPath t ns checkpoint.id) = some ⟨cd.1, cd.2, checkpointBlobMetadata cd.1 parent⟩ := by
    rw [typedAt_eq, h, Option.bind_some, htyped]
  have hmat : typedAt s' (metadataBlobPath t ns checkpoint.id) = some ⟨md.1, md.2, typed md.1⟩ := by
    rw [typedAt_eq, hleft.metadata, hmeta, Option.bind_some, typedContent_typed (hS.type_ne hmd).1]
  have hloaded : loadedAt S s₁ t ns checkpoint.id = some checkpoint.toCheckpointData := by
    rw [loadedAt, hat s₁ hmarker, Option.bind_some, hdata]
    rfl
  obtain ⟨writes, -, hview⟩ := (hleft.reachable.sound hS).buildTuple_eq
    (hat s' (hleft.marker.trans hmarker)) hdata hmat hmd' asked
  rw [← view_getTuple hasked hid] at hview
  refine ⟨_, returns_look (looks_getTuple asked) hview, rfl, fun channel => ?_, rfl, ?_⟩
  · rw [Dict.get?_filterMap]
    cases hget : checkpoint.channelVersions.get? channel with
    | none => rfl
    | some version =>
      rw [Option.bind_some, Option.bind_some, hleft.values hloaded hget, content_exec hadds hput,
        lastValue, ← values_put hS hasks hput]
      cases lastUpload (valueBlobPath t ns channel version.text) (uploadsAll w) <;>
        cases lastUpload (valueBlobPath t ns channel version.text) (uploads u) <;> rfl
  · rw [parentId_checkpointBlobMetadata]

end LangGraphFunctions.Checkpointers.AzureBlob

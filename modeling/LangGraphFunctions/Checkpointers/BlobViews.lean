import LangGraphFunctions.Checkpointers.AzureBlob
import LangGraphFunctions.Lib.Views

/-! What the reads of the saver make of a container. -/

namespace LangGraphFunctions.Checkpointers.AzureBlob

open Lib

variable {V R G : Type} {s s' : Store} {t ns id : String} {N : String → Prop}

def answers (s : Store) (o : Op G) : o.Ans := (serve (fun _ => .ok ()) 0 o s).1

abbrev view {α : Type} (s : Store) (p : Call G α) : Except Exn α :=
  Prog.eval (I := interface G) (answers s) p

def Reads (N : String → Prop) : Op G → Prop
  | .downloadBlob blob => N blob
  | .getBlobProperties blob => N blob
  | .listBlobs nameStartsWith => ∀ name, Names.startswith name nameStartsWith → N name
  | _ => False

def Listed : (o : Op G) → o.Ans → Prop
  | .listBlobs nameStartsWith, .ok blobs => ∀ blob ∈ blobs, Names.startswith blob.name nameStartsWith
  | _, _ => True

abbrev Looks {α : Type} (N : String → Prop) (p : Call G α) : Prop :=
  Prog.Uses (I := interface G) Listed (Reads N) p

theorem still : Prog.Still (service (G := G)) (Reads N) answers := by
  rintro o s a s' ho ⟨verdict, now, h⟩
  cases o with
  | downloadBlob blob =>
    simp only [serve] at h
    simp only [answers, serve]
    split at h <;> cases h <;> exact ⟨rfl, rfl⟩
  | getBlobProperties blob =>
    simp only [serve] at h
    simp only [answers, serve]
    split at h <;> cases h <;> exact ⟨rfl, rfl⟩
  | uploadBlob => exact ho.elim
  | deleteBlob => exact ho.elim
  | listBlobs => cases h; exact ⟨rfl, rfl⟩
  | check => exact ho.elim
  | utcnow => exact ho.elim

theorem startswith_of_mem_items {pre : String} {blob : BlobItem} (h : blob ∈ items s pre) :
    Names.startswith blob.name pre := by
  obtain ⟨name, hname, rfl⟩ := List.mem_map.mp h
  exact Container.startswith_of_mem_names hname

theorem listed_answers (o : Op G) (ho : Reads N o) : Listed o (answers s o) := by
  cases o with
  | listBlobs pre => exact fun blob hblob => startswith_of_mem_items hblob
  | uploadBlob => exact ho.elim
  | deleteBlob => exact ho.elim
  | check => exact ho.elim
  | utcnow => exact ho.elim
  | downloadBlob => trivial
  | getBlobProperties => trivial

theorem answers_congr (h : Container.Agree N s s') (o : Op G) (ho : Reads N o) :
    answers s o = answers s' o := by
  cases o with
  | downloadBlob blob => simp only [answers, serve, h blob ho]; split <;> rfl
  | getBlobProperties blob => simp only [answers, serve, h blob ho]; split <;> rfl
  | uploadBlob => exact ho.elim
  | deleteBlob => exact ho.elim
  | listBlobs pre =>
    simp only [answers, serve, items, h.names ho]
    congr 1
    refine List.map_congr_left fun name hname => ?_
    rw [h name (ho name (Container.startswith_of_mem_names hname))]
  | check => exact ho.elim
  | utcnow => exact ho.elim

theorem view_congr {α : Type} {p : Call G α} (hp : Looks N p) (h : Container.Agree N s s') :
    view s p = view s' p :=
  Prog.eval_congr hp listed_answers (answers_congr h)

def typedBlob (b : Blob) : Option TypedBlob :=
  match b.metadata.get? "serde_type" with
  | none => none
  | some serdeType => if serdeType = "" then none else some ⟨serdeType, b.payload, b.metadata⟩

def typedAt (s : Store) (name : String) : Option TypedBlob := (s.get? name).bind typedBlob

theorem view_bind {α β : Type} {p : Call G α} {q : α → Call G β} {a : α} (h : view s p = .ok a) :
    view s (p >>= q) = view s (q a) := by
  have heval : Prog.eval (answers s) p = .ok a := h
  rw [view, Prog.eval_bind, heval]
  rfl

theorem view_perform_bind {β : Type} (o : Op G) (q : o.Ans → Call G β) :
    view s (perform o >>= q) = view s (q (answers s o)) := rfl

theorem view_downloadBlob (name : String) :
    view s (downloadBlob name : Call G _) = .ok ((s.get? name).map (·.payload)) := by
  rw [downloadBlob, view_perform_bind]
  simp only [answers, serve]
  cases s.get? name <;> rfl

theorem view_blobMetadata (name : String) :
    view s (blobMetadata name : Call G _) = .ok ((s.get? name).elim ∅ (·.metadata)) := by
  rw [blobMetadata, view_perform_bind]
  simp only [answers, serve]
  cases s.get? name <;> rfl

theorem view_blobExists (name : String) :
    view s (blobExists name : Call G _) = .ok (s.contains name) := by
  rw [blobExists, view_perform_bind, Dict.contains]
  simp only [answers, serve]
  cases s.get? name <;> rfl

theorem view_listBlobs (pre : String) :
    view s (listBlobs pre : Call G _) = .ok (items s pre) := rfl

theorem view_downloadTypedBlob (name : String) :
    view s (downloadTypedBlob name : Call G _) = .ok (typedAt s name) := by
  rw [downloadTypedBlob, view_bind (view_downloadBlob name), typedAt]
  cases h : s.get? name with
  | none => rfl
  | some b =>
    change view s (blobMetadata name >>= _) = _
    rw [view_bind (view_blobMetadata name), h, Option.elim_some, Option.bind_some, typedBlob]
    cases b.metadata.get? "serde_type" with
    | none => rfl
    | some ty =>
      change view s (if ty = "" then _ else _) = .ok (if ty = "" then _ else _)
      split <;> rfl

def checkpointIds (s : Store) (t ns : String) : List String :=
  (sortedSet ((Container.names s (checkpointsPrefix t ns)).filterMap checkpointIdOf)).reverse

def threadIds (s : Store) : List String :=
  sortedSet ((Container.names s "threads/").filterMap threadIdOf)

def namespaces (s : Store) (t : String) : List String :=
  sortedSet ((Container.names s (threadPrefix t ++ "ns/")).filterMap namespaceOf)

def latestAt (s : Store) (t ns : String) : Option String :=
  ((s.get? (latestBlobPath t ns)).map (·.payload)).bind parseLatestCheckpointId

theorem filterMap_items {α : Type} (pre : String) (f : String → Option α) :
    (items s pre).filterMap (fun blob => f blob.name) = (Container.names s pre).filterMap f := by
  rw [items, List.filterMap_map]
  rfl

theorem view_listCheckpointIds (t ns : String) :
    view s (listCheckpointIds t ns : Call G _) = .ok (checkpointIds s t ns) := by
  rw [listCheckpointIds, view_bind (view_listBlobs _), filterMap_items]
  rfl

theorem view_listThreadIds : view s (listThreadIds : Call G _) = .ok (threadIds s) := by
  rw [listThreadIds, view_bind (view_listBlobs _), filterMap_items]
  rfl

theorem view_listCheckpointNamespaces (t : String) :
    view s (listCheckpointNamespaces t : Call G _) = .ok (namespaces s t) := by
  rw [listCheckpointNamespaces, view_bind (view_listBlobs _), filterMap_items]
  rfl

theorem view_findLatestCheckpointId (t ns : String) :
    view s (findLatestCheckpointId t ns : Call G _) = .ok (checkpointIds s t ns).head? := by
  rw [findLatestCheckpointId, view_bind (view_listCheckpointIds t ns)]
  rfl

theorem view_readLatestCheckpointId (t ns : String) :
    view s (readLatestCheckpointId t ns : Call G _) = .ok (latestAt s t ns) := by
  rw [readLatestCheckpointId, view_bind (view_downloadBlob _)]
  rfl

theorem view_currentLatest (t ns : String) :
    view s (currentLatest t ns : Call G _) = .ok
      (((latestAt s t ns).filter fun h => s.contains (checkpointBlobPath t ns h)).or
        (checkpointIds s t ns).head?) := by
  rw [currentLatest, view_bind (view_readLatestCheckpointId t ns)]
  cases latestAt s t ns with
  | none => exact view_findLatestCheckpointId t ns
  | some h =>
    change view s (blobExists _ >>= _) = _
    rw [view_bind (view_blobExists _), Option.filter_some]
    cases s.contains (checkpointBlobPath t ns h) with
    | false => exact view_findLatestCheckpointId t ns
    | true => rfl

theorem looks_perform {o : Op G} (h : Reads N o) : Looks N (perform o) :=
  Prog.uses_call.mpr ⟨h, fun _ _ => Prog.uses_ret _⟩

theorem looks_bind {α β : Type} {p : Call G α} {q : α → Call G β} (hp : Looks N p)
    (hq : ∀ a, Looks N (q a)) : Looks N (p >>= q) := Prog.uses_bind hp hq

theorem looks_ret {α : Type} (a : α) : Looks N (Prog.ret a : Call G α) := Prog.uses_ret a

theorem looks_raise {α : Type} (e : Exn) : Looks N (Prog.raise e : Call G α) := Prog.uses_raise e

theorem looks_ofExcept {α : Type} (r : Except Exn α) : Looks N (Prog.ofExcept r : Call G α) :=
  Prog.uses_ofExcept r

theorem Looks.mono {α : Type} {M : String → Prop} {p : Call G α} (hp : Looks N p)
    (h : ∀ name, N name → M name) : Looks M p := by
  refine Prog.Uses.mono hp (fun o ho => ?_) fun _ _ ha => ha
  cases o with
  | downloadBlob blob => exact h _ ho
  | getBlobProperties blob => exact h _ ho
  | uploadBlob => exact ho
  | deleteBlob => exact ho
  | listBlobs pre => exact fun name hname => h name (ho name hname)
  | check => exact ho
  | utcnow => exact ho

theorem looks_downloadBlob {name : String} (h : N name) : Looks N (downloadBlob name : Call G _) := by
  refine looks_bind (looks_perform h) fun a => ?_
  split
  · exact looks_ret _
  · exact looks_ret _
  · exact looks_raise _

theorem looks_blobMetadata {name : String} (h : N name) : Looks N (blobMetadata name : Call G _) := by
  refine looks_bind (looks_perform h) fun a => ?_
  split
  · exact looks_ret _
  · exact looks_ret _
  · exact looks_raise _

theorem looks_blobExists {name : String} (h : N name) : Looks N (blobExists name : Call G _) := by
  refine looks_bind (looks_perform h) fun a => ?_
  split
  · exact looks_ret _
  · exact looks_ret _
  · exact looks_raise _

theorem looks_downloadTypedBlob {name : String} (h : N name) :
    Looks N (downloadTypedBlob name : Call G _) := by
  refine looks_bind (looks_downloadBlob h) fun a => ?_
  cases a with
  | none => exact looks_ret _
  | some payload =>
    refine looks_bind (looks_blobMetadata h) fun metadata => ?_
    split
    · exact looks_ret _
    · split <;> exact looks_ret _

theorem looks_listBlobs_bind {α : Type} {pre : String} {q : List BlobItem → Call G α}
    (h : ∀ name, Names.startswith name pre → N name)
    (hq : ∀ blobs, (∀ blob ∈ blobs, Names.startswith blob.name pre) → Looks N (q blobs)) :
    Looks N (listBlobs pre >>= q) := by
  refine Prog.uses_call.mpr ⟨h, fun a ha => ?_⟩
  cases a with
  | ok blobs => exact hq blobs ha
  | error e => exact looks_raise e

theorem looks_listCheckpointIds (h : ∀ name, Names.startswith name (checkpointsPrefix t ns) → N name) :
    Looks N (listCheckpointIds t ns : Call G _) :=
  looks_listBlobs_bind h fun _ _ => looks_ret _

theorem looks_readLatestCheckpointId (h : N (latestBlobPath t ns)) :
    Looks N (readLatestCheckpointId t ns : Call G _) :=
  looks_bind (looks_downloadBlob h) fun _ => looks_ret _

variable (S : Saver V R G)

def Region (t ns id name : String) : Prop :=
  Names.startswith name (valuesPrefix t ns) ∨ Names.startswith name (checkpointBasePrefix t ns id)

theorem looks_loadChannelValue (values : Dict String V) (entry : String × Version) :
    Looks (Names.startswith · (valuesPrefix t ns)) (loadChannelValue S t ns values entry) := by
  have hname : Names.startswith (valueBlobPath t ns entry.1 entry.2.text) (valuesPrefix t ns) := by
    simp only [valueBlobPath, String.append_assoc]
    exact Names.startswith_iff.mpr ⟨_, rfl⟩
  refine looks_bind (looks_downloadTypedBlob hname) fun a => ?_
  cases a with
  | none => exact looks_ret _
  | some blob =>
    change Looks _ (if blob.serdeType = "empty" then _ else _)
    split
    · exact looks_ret _
    · exact looks_bind (looks_ofExcept _) fun _ => looks_ret _

theorem looks_loadPendingWrite {pre : String} (loaded : List (PendingWrite V)) {blob : BlobItem}
    (h : Names.startswith blob.name pre) :
    Looks (Names.startswith · pre) (loadPendingWrite S pre loaded blob) := by
  rw [loadPendingWrite]
  split
  · exact looks_ret _
  · split
    · exact looks_ret _
    · refine looks_bind (looks_downloadTypedBlob h) fun a => ?_
      split
      · exact looks_ret _
      · split
        · exact looks_ret _
        · exact looks_bind (looks_ofExcept _) fun _ => looks_ret _

theorem startswith_writesPrefix {name : String} (h : Names.startswith name (writesPrefix t ns id)) :
    Names.startswith name (checkpointBasePrefix t ns id) := by
  rw [writesPrefix] at h
  exact Names.startswith_append (checkpointBasePrefix t ns id) h

theorem looks_loadPendingWrites :
    Looks (Names.startswith · (writesPrefix t ns id)) (loadPendingWrites S t ns id) := by
  refine looks_listBlobs_bind (fun _ h => h) fun blobs hblobs => ?_
  have hbody (loaded : List (PendingWrite V)) (blob) (h : blob ∈ blobs) :=
    looks_loadPendingWrite S loaded (hblobs blob h)
  exact looks_bind (Prog.uses_foldlM _ hbody) fun _ => looks_ret _

theorem looks_buildTuple (config : RunnableConfig G) :
    Looks (Region t ns id) (buildTuple S t ns id config) := by
  have hbase (post : String) : Region t ns id (checkpointBasePrefix t ns id ++ post) :=
    .inr (Names.startswith_iff.mpr ⟨post, rfl⟩)
  have hmarker : Region t ns id (checkpointBlobPath t ns id) := by
    rw [checkpointBlobPath]
    exact hbase "checkpoint.bin"
  have hmetadata : Region t ns id (metadataBlobPath t ns id) := by
    rw [metadataBlobPath]
    exact hbase "metadata.bin"
  refine looks_bind (looks_downloadTypedBlob hmarker) fun a => ?_
  cases a with
  | none => exact looks_ret _
  | some blob =>
    refine looks_bind (looks_ofExcept _) fun data => looks_bind ?_ fun channelValues => ?_
    · refine Looks.mono (Prog.uses_foldlM _ fun values entry _ => ?_) fun _ h => .inl h
      exact looks_loadChannelValue S values entry
    · refine looks_bind (looks_downloadTypedBlob hmetadata) fun a => ?_
      cases a with
      | none => exact looks_ret _
      | some metadataBlob =>
        refine looks_bind (looks_ofExcept _) fun metadata => looks_bind ?_ fun _ => looks_ret _
        exact (looks_loadPendingWrites S).mono fun _ h => .inr (startswith_writesPrefix h)

end LangGraphFunctions.Checkpointers.AzureBlob

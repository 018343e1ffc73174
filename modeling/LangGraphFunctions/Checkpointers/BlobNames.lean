import LangGraphFunctions.Checkpointers.BlobViews
import Mathlib.Data.List.Dedup

/-! What the saver finds in a container that holds its own blobs. -/

namespace LangGraphFunctions.Checkpointers.AzureBlob

open Lib

variable {G : Type} {s s' : Store} {t ns id : String}

@[simp] theorem mem_sortedSet {x : String} {xs : List String} : x ∈ sortedSet xs ↔ x ∈ xs := by
  rw [sortedSet, List.mem_insertionSort, List.mem_dedup]

theorem pairwise_sortedSet (xs : List String) : (sortedSet xs).Pairwise (· < ·) := by
  have hnodup : (sortedSet xs).Nodup :=
    (List.perm_insertionSort _ _).nodup_iff.mpr (List.nodup_dedup xs)
  refine ((List.pairwise_insertionSort _ _).and hnodup).imp ?_
  exact fun h => lt_of_le_of_ne h.1 h.2

theorem endswith_marker_checkpoint (t ns id : String) :
    Names.endswith (Key.checkpoint t ns id).path "/checkpoint.bin" := by
  refine Names.endswith_iff.mpr ⟨checkpointsPrefix t ns ++ escape id, ?_⟩
  rw [Key.path, checkpointBlobPath, checkpointBasePrefix, String.append_assoc, String.append_assoc,
    String.append_assoc]
  rfl

theorem not_endswith_marker_metadata (t ns id : String) :
    ¬ Names.endswith (Key.metadata t ns id).path "/checkpoint.bin" := by
  intro h
  obtain ⟨pre, hpre⟩ := Names.endswith_iff.mp h
  have hmarker : "/checkpoint.bin".toList <:+ (Key.metadata t ns id).path.toList :=
    ⟨pre.toList, by rw [hpre, String.toList_append]⟩
  have hfile : "metadata.bin".toList <:+ (Key.metadata t ns id).path.toList :=
    ⟨(checkpointBasePrefix t ns id).toList, by
      rw [Key.path, metadataBlobPath, String.toList_append]⟩
  have hsuffix := List.suffix_of_suffix_length_le hfile hmarker (by decide)
  exact absurd (List.isSuffixOf_iff_suffix.mpr hsuffix) (by decide)

theorem checkpointIdOf_checkpoint (t ns id : String) :
    checkpointIdOf (Key.checkpoint t ns id).path = some id := by
  rw [checkpointIdOf, if_pos (endswith_marker_checkpoint t ns id), Key.split_path]
  exact congrArg some (unquote_escape id)

theorem checkpointIdOf_eq_some {k : Key} (hk : k.checkpointId.isSome)
    (h : checkpointIdOf k.path = some id) : k = .checkpoint k.threadId k.checkpointNs id := by
  cases k with
  | latest => cases hk
  | value => cases hk
  | checkpoint t ns id' =>
    rw [checkpointIdOf_checkpoint, Option.some_inj] at h
    rw [h]
    rfl
  | metadata t ns id' =>
    rw [checkpointIdOf, if_neg (not_endswith_marker_metadata t ns id')] at h
    cases h
  | write t ns id' taskId writeIndex =>
    rw [checkpointIdOf] at h
    split at h
    · rw [Key.split_path] at h
      cases h
    · cases h

theorem threadIdOf_path (k : Key) : threadIdOf k.path = some k.threadId := by
  rw [threadIdOf, Key.split_path]
  exact congrArg some (unquote_escape k.threadId)

theorem namespaceOf_path (k : Key) : namespaceOf k.path = some k.checkpointNs := by
  rw [namespaceOf, Key.split_path]
  exact congrArg some (unquote_escape k.checkpointNs)

theorem removeSuffix_bin (x : String) : Names.removeSuffix (escape x ++ ".bin") ".bin" = escape x :=
  Names.removeSuffix_append ..

theorem split_pair (x y : String) :
    Names.split '/' (escape x ++ "/" ++ escape y ++ ".bin") = [escape x, escape y ++ ".bin"] := by
  rw [String.append_assoc, slash_eq_singleton, Names.split_append, Names.split_of_plain (plain_escape x),
    Names.split_of_plain (Key.plain_bin y)]
  rfl

theorem endswith_bin (x : String) : Names.endswith (escape x ++ ".bin") ".bin" :=
  Names.endswith_iff.mpr ⟨_, rfl⟩

theorem parseWritePath_write (t ns id taskId : String) (writeIndex : Int) :
    parseWritePath (writesPrefix t ns id) (writeBlobPath t ns id taskId writeIndex) =
      some (taskId, writeIndex) := by
  have hname : writeBlobPath t ns id taskId writeIndex = writesPrefix t ns id ++
      (escape taskId ++ "/" ++ escape (toString writeIndex) ++ ".bin") := by
    simp only [writeBlobPath, String.append_assoc]
  rw [parseWritePath, hname, Names.removePrefix_append, split_pair]
  simp only [endswith_bin, if_true, removeSuffix_bin, unquote_escape, Decimal.int_toString,
    Option.map_some]

theorem parseValueBlobPath_value (t ns channel version : String) :
    parseValueBlobPath t ns (valueBlobPath t ns channel version) = some (channel, version) := by
  have hname : valueBlobPath t ns channel version = valuesPrefix t ns ++
      (escape channel ++ "/" ++ escape version ++ ".bin") := by
    simp only [valueBlobPath, String.append_assoc]
  rw [parseValueBlobPath, hname, if_pos (Names.startswith_iff.mpr ⟨_, rfl⟩),
    Names.removePrefix_append, split_pair]
  simp only [endswith_bin, if_true, removeSuffix_bin, unquote_escape]

def Named (s : Store) : Prop := ∀ name b, s.get? name = some b → ∃ k : Key, name = k.path

def Stored (s : Store) (k : Key) : Prop := ∃ b, s.get? k.path = some b

def Committed (s : Store) (t ns id : String) : Prop := Stored s (.checkpoint t ns id)

theorem Named.of_mem_names {pre name : String} (hs : Named s) (h : name ∈ Container.names s pre) :
    ∃ k : Key, name = k.path ∧ Stored s k ∧ Names.startswith k.path pre := by
  obtain ⟨hpre, b, hb⟩ := Container.mem_names.mp h
  obtain ⟨k, rfl⟩ := hs name b hb
  exact ⟨k, rfl, ⟨b, hb⟩, hpre⟩

theorem Named.eraseAll (hs : Named s) (names : List String) :
    Named (Container.eraseAll s names) := by
  intro name b h
  rw [Container.get?_eraseAll] at h
  split at h
  · cases h
  · exact hs name b h

theorem mem_names_path {pre : String} {k : Key} :
    k.path ∈ Container.names s pre ↔ Names.startswith k.path pre ∧ Stored s k := Container.mem_names

theorem Named.mem_checkpointIds (hs : Named s) :
    id ∈ checkpointIds s t ns ↔ Committed s t ns id := by
  rw [checkpointIds, List.mem_reverse, mem_sortedSet, List.mem_filterMap]
  constructor
  · rintro ⟨name, hname, hid⟩
    obtain ⟨k, rfl, hk, hpre⟩ := hs.of_mem_names hname
    obtain ⟨rfl, rfl, hsome⟩ := Key.startswith_checkpointsPrefix.mp hpre
    rw [checkpointIdOf_eq_some hsome hid] at hk
    exact hk
  · intro h
    refine ⟨_, mem_names_path.mpr ⟨?_, h⟩, checkpointIdOf_checkpoint t ns id⟩
    exact Key.startswith_checkpointsPrefix.mpr ⟨rfl, rfl, rfl⟩

theorem pairwise_checkpointIds (s : Store) (t ns : String) :
    (checkpointIds s t ns).Pairwise (· > ·) :=
  List.pairwise_reverse.mpr (pairwise_sortedSet _)

theorem nodup_checkpointIds (s : Store) (t ns : String) : (checkpointIds s t ns).Nodup :=
  (pairwise_checkpointIds s t ns).imp fun h => h.ne'

theorem Named.head?_checkpointIds (hs : Named s) :
    (checkpointIds s t ns).head? = some id ↔
      Committed s t ns id ∧ ∀ id', Committed s t ns id' → id' ≤ id := by
  have hpairs := pairwise_checkpointIds s t ns
  cases hids : checkpointIds s t ns with
  | nil =>
    have hnone : ¬ Committed s t ns id := fun h => by
      rw [← hs.mem_checkpointIds, hids] at h
      exact List.not_mem_nil h
    exact iff_of_false (Option.some_ne_none _).symm fun h => hnone h.1
  | cons first rest =>
    rw [hids, List.pairwise_cons] at hpairs
    have hmem (x : String) : Committed s t ns x ↔ x = first ∨ x ∈ rest := by
      rw [← hs.mem_checkpointIds, hids, List.mem_cons]
    rw [List.head?_cons, Option.some_inj]
    constructor
    · rintro rfl
      refine ⟨(hmem _).mpr (.inl rfl), fun x hx => ?_⟩
      cases (hmem x).mp hx with
      | inl h => exact h.le
      | inr h => exact (hpairs.1 x h).le
    · rintro ⟨hid, hmax⟩
      cases (hmem id).mp hid with
      | inl h => exact h.symm
      | inr h => exact absurd (hmax first ((hmem _).mpr (.inl rfl))) (hpairs.1 id h).not_ge

theorem Named.head?_checkpointIds_none (hs : Named s) :
    (checkpointIds s t ns).head? = none ↔ ∀ id, ¬ Committed s t ns id := by
  rw [List.head?_eq_none_iff, List.eq_nil_iff_forall_not_mem]
  exact forall_congr' fun id => not_congr hs.mem_checkpointIds

theorem Named.mem_threadIds (hs : Named s) :
    t ∈ threadIds s ↔ ∃ k, Stored s k ∧ k.threadId = t := by
  rw [threadIds, mem_sortedSet, List.mem_filterMap]
  constructor
  · rintro ⟨name, hname, hid⟩
    obtain ⟨k, rfl, hk, -⟩ := hs.of_mem_names hname
    rw [threadIdOf_path, Option.some_inj] at hid
    exact ⟨k, hk, hid⟩
  · rintro ⟨k, hk, rfl⟩
    refine ⟨_, mem_names_path.mpr ⟨?_, hk⟩, threadIdOf_path k⟩
    have h := Key.startswith_threadPrefix.mpr (rfl : k.threadId = k.threadId)
    rw [threadPrefix, String.append_assoc] at h
    exact Names.startswith_append "threads/" h

theorem Named.mem_namespaces (hs : Named s) :
    ns ∈ namespaces s t ↔ ∃ k, Stored s k ∧ k.threadId = t ∧ k.checkpointNs = ns := by
  rw [namespaces, mem_sortedSet, List.mem_filterMap]
  constructor
  · rintro ⟨name, hname, hns⟩
    obtain ⟨k, rfl, hk, hpre⟩ := hs.of_mem_names hname
    rw [namespaceOf_path, Option.some_inj] at hns
    have hthread := Names.startswith_append (threadPrefix t) hpre
    exact ⟨k, hk, Key.startswith_threadPrefix.mp hthread, hns⟩
  · rintro ⟨k, hk, rfl, rfl⟩
    refine ⟨_, mem_names_path.mpr ⟨?_, hk⟩, namespaceOf_path k⟩
    have h := Key.startswith_namespacePrefix.mpr
      (⟨rfl, rfl⟩ : k.threadId = k.threadId ∧ k.checkpointNs = k.checkpointNs)
    rw [namespacePrefix, String.append_assoc] at h
    exact Names.startswith_append (threadPrefix k.threadId ++ "ns/") h

theorem pairwise_threadIds (s : Store) : (threadIds s).Pairwise (· < ·) := pairwise_sortedSet _

theorem pairwise_namespaces (s : Store) (t : String) : (namespaces s t).Pairwise (· < ·) :=
  pairwise_sortedSet _

def targets (s : Store) (t : String) : Option String → List String
  | some ns => [ns]
  | none => namespaces s t

theorem nodup_targets (s : Store) (t : String) (checkpointNs : Option String) :
    (targets s t checkpointNs).Nodup := by
  cases checkpointNs with
  | some ns => exact List.nodup_singleton ns
  | none => exact (pairwise_namespaces s t).imp fun h => h.ne

theorem looks_targetNamespaces (t : String) (checkpointNs : Option String) :
    Looks (fun _ => True) (targetNamespaces t checkpointNs : Call G _) := by
  cases checkpointNs with
  | some ns => exact looks_ret _
  | none => exact looks_listBlobs_bind (fun _ _ => trivial) fun _ _ => looks_ret _

theorem view_targetNamespaces (t : String) (checkpointNs : Option String) :
    view s (targetNamespaces t checkpointNs : Call G _) = .ok (targets s t checkpointNs) := by
  cases checkpointNs with
  | some ns => rfl
  | none => exact view_listCheckpointNamespaces t

end LangGraphFunctions.Checkpointers.AzureBlob

import LangGraphFunctions.Checkpointers.BlobReach
import LangGraphFunctions.Lib.Footprints

/-! The part of the container that an operation of the saver reads and writes. -/

namespace LangGraphFunctions.Checkpointers.AzureBlob

open Lib

variable {V R G α β : Type} {S : Saver V R G} {s s' : Store} {t ns id : String}
  {N : String → Prop}

def Acts (N : String → Prop) : Op G → Prop
  | .downloadBlob blob => N blob
  | .getBlobProperties blob => N blob
  | .uploadBlob blob _ _ => N blob
  | .deleteBlob blob => N blob
  | .listBlobs nameStartsWith => ∀ name, Names.startswith name nameStartsWith → N name
  | .check _ => True
  | .utcnow => True

abbrev Stays (N : String → Prop) (p : Call G α) : Prop :=
  Prog.Uses (I := interface G) Listed (Acts N) p

theorem serve_listed (verdict : G → Except Exn Unit) (now : Int) (o : Op G) :
    Listed o (serve verdict now o s).1 := by
  cases o with
  | listBlobs pre => exact fun blob hblob => startswith_of_mem_items hblob
  | _ => trivial

theorem items_congr (h : Container.Agree N s s') {pre : String}
    (hpre : ∀ name, Names.startswith name pre → N name) : items s pre = items s' pre := by
  rw [items, items, h.names hpre]
  refine List.map_congr_left fun name hname => ?_
  rw [h name (hpre name (Container.startswith_of_mem_names hname))]

theorem serve_congr (verdict : G → Except Exn Unit) (now : Int) {o : Op G} (ho : Acts N o)
    (h : Container.Agree N s s') : (serve verdict now o s).1 = (serve verdict now o s').1 ∧
      Container.Agree N (serve verdict now o s).2 (serve verdict now o s').2 := by
  cases o with
  | downloadBlob blob =>
    simp only [serve, ← h blob ho]
    split <;> exact ⟨rfl, h⟩
  | getBlobProperties blob =>
    simp only [serve, ← h blob ho]
    split <;> exact ⟨rfl, h⟩
  | uploadBlob blob payload metadata => exact ⟨rfl, h.set _ _⟩
  | deleteBlob blob =>
    simp only [serve, ← h blob ho]
    split
    · exact ⟨rfl, h.erase _⟩
    · exact ⟨rfl, h⟩
  | listBlobs pre => exact ⟨congrArg Except.ok (items_congr h ho), h⟩
  | check guard => exact ⟨rfl, h⟩
  | utcnow => exact ⟨rfl, h⟩

theorem serve_spares (verdict : G → Except Exn Unit) (now : Int) {M : String → Prop} {o : Op G}
    (ho : Acts M o) (hM : ∀ name, M name → ¬ N name) :
    Container.Agree N s (serve verdict now o s).2 := by
  cases o with
  | uploadBlob blob payload metadata => exact Container.agree_set (hM _ ho) _ _
  | deleteBlob blob =>
    simp only [serve]
    split
    · exact Container.agree_eraseAll (l := [blob]) (by simpa using hM _ ho) s
    · exact .refl _ _
  | downloadBlob blob =>
    simp only [serve]
    split <;> exact .refl _ _
  | getBlobProperties blob =>
    simp only [serve]
    split <;> exact .refl _ _
  | _ => exact .refl _ _

theorem parallel_service :
    (service (G := G)).Parallel Listed (Acts N) (Container.Agree N) := by
  rintro o s a s₁ s' ho ⟨verdict, now, h⟩ hs
  obtain ⟨ha, hagree⟩ := serve_congr verdict now ho hs
  rw [h] at ha hagree
  have hlisted := serve_listed (s := s) verdict now o
  rw [h] at hlisted
  exact ⟨hlisted, (serve verdict now o s').2, ⟨verdict, now, Prod.ext ha.symm rfl⟩, hagree⟩

theorem run_congr {p : Call G α} (hp : Stays N p) (verdict : G → Except Exn Unit) (now : Int)
    (h : Container.Agree N s s') :
    (p.run (serve verdict now) s).1 = (p.run (serve verdict now) s').1 := by
  induction p generalizing s s' with
  | ret a => rfl
  | raise e => rfl
  | call o k ih =>
    obtain ⟨ho, hk⟩ := Prog.uses_call.mp hp
    obtain ⟨ha, hagree⟩ := serve_congr verdict now ho h
    change ((k (serve verdict now o s).1).run _ _).1 = ((k (serve verdict now o s').1).run _ _).1
    rw [← ha]
    exact ih _ (hk _ (serve_listed verdict now o)) hagree

theorem Leads.spares {M : String → Prop} {p : Call G α} (h : Leads p s s') (hp : Stays M p)
    (hM : ∀ name, M name → ¬ N name) : Container.Agree N s s' := by
  obtain ⟨u, q, h⟩ := h
  refine h.alike (R := Container.Agree N) (fun o s a s₁ ho hstep => ?_) (.refl N) .trans hp
  obtain ⟨verdict, now, hserve⟩ := hstep
  have hlisted := serve_listed (s := s) verdict now o
  have hspares := serve_spares (s := s) verdict now ho hM
  rw [hserve] at hlisted hspares
  exact ⟨hlisted, hspares⟩

theorem Ends.parallel {p : Call G α} {r : Except Exn α} {s₁ : Store} (h : Ends p s r s₁)
    (hp : Stays N p) (hs : Container.Agree N s s') :
    ∃ s₁', Ends p s' r s₁' ∧ Container.Agree N s₁ s₁' := by
  obtain ⟨u, h⟩ := h
  obtain ⟨u', s₁', h', hagree⟩ := h.parallel parallel_service hp hs
  exact ⟨s₁', ⟨u', h'⟩, hagree⟩

theorem stays_look {p : Call G α} (hp : Looks N p) : Stays N p := by
  refine Prog.Uses.mono hp (fun o ho => ?_) fun _ _ ha => ha
  cases o with
  | uploadBlob => exact ho.elim
  | deleteBlob => exact ho.elim
  | check => trivial
  | utcnow => trivial
  | _ => exact ho

theorem stays_bind {p : Call G α} {q : α → Call G β} (hp : Stays N p) (hq : ∀ a, Stays N (q a)) :
    Stays N (p >>= q) := Prog.uses_bind hp hq

theorem stays_ret (a : α) : Stays N (Prog.ret a : Call G α) := Prog.uses_ret a

theorem stays_raise (e : Exn) : Stays N (Prog.raise e : Call G α) := Prog.uses_raise e

theorem stays_ofExcept (r : Except Exn α) : Stays N (Prog.ofExcept r : Call G α) :=
  Prog.uses_ofExcept r

theorem stays_perform {o : Op G} (h : Acts N o) : Stays N (perform o) :=
  Prog.uses_call.mpr ⟨h, fun _ _ => Prog.uses_ret _⟩

theorem stays_ofExcept_bind {q : α → Call G β} {r : Except Exn α} (h : ∀ a, r = .ok a → Stays N (q a)) :
    Stays N (Prog.ofExcept r >>= q) := Prog.uses_ofExcept_bind h

theorem stays_forM {xs : List α} {body : α → Call G PUnit} (h : ∀ x ∈ xs, Stays N (body x)) :
    Stays N (xs.forM body) := Prog.uses_forM h

theorem stays_listBlobs_bind {pre : String} {q : List BlobItem → Call G α}
    (h : ∀ name, Names.startswith name pre → N name)
    (hq : ∀ blobs, (∀ blob ∈ blobs, Names.startswith blob.name pre) → Stays N (q blobs)) :
    Stays N (listBlobs pre >>= q) := by
  refine Prog.uses_call.mpr ⟨h, fun a ha => ?_⟩
  cases a with
  | ok blobs => exact hq blobs ha
  | error e => exact stays_raise e

theorem stays_deleteBlob {name : String} (h : N name) : Stays N (deleteBlob name : Call G Unit) :=
  stays_bind (stays_perform h) fun _ => stays_ofExcept _

theorem stays_deleteBlobIfThere {name : String} (h : N name) :
    Stays N (deleteBlobIfThere name : Call G Unit) := by
  refine stays_bind (stays_perform h) fun a => ?_
  split
  · exact stays_ret _
  · exact stays_ret _
  · exact stays_raise _

theorem stays_guardedUpload {guard : Option G} {name : String} {payload : ByteArray}
    {metadata : Dict String String} (h : N name) :
    Stays N (guardedUpload guard name payload metadata) := by
  have hupload : Stays N (uploadBlob name payload metadata : Call G Unit) :=
    stays_bind (stays_perform h) fun _ => stays_ofExcept _
  refine stays_bind ?_ fun _ => hupload
  cases guard with
  | none => exact stays_ret _
  | some guard => exact stays_bind (stays_perform trivial) fun _ => stays_ofExcept _

section

variable (hN : ∀ name, Names.startswith name (namespacePrefix t ns) → N name)

include hN

theorem below (rest : String) : N (namespacePrefix t ns ++ rest) :=
  hN _ (Names.startswith_iff.mpr ⟨rest, rfl⟩)

theorem below_latest : N (latestBlobPath t ns) := below hN _

theorem below_checkpoints {name : String} (h : Names.startswith name (checkpointsPrefix t ns)) :
    N name := hN _ (startswith_checkpoints h)

theorem below_base {name : String} (h : Names.startswith name (checkpointBasePrefix t ns id)) :
    N name := below_checkpoints hN (startswith_checkpointBase h)

theorem below_values {name : String} (h : Names.startswith name (valuesPrefix t ns)) : N name :=
  hN _ (Names.startswith_append (namespacePrefix t ns) h)

theorem below_checkpoint : N (checkpointBlobPath t ns id) :=
  below_base hN (Names.startswith_iff.mpr ⟨"checkpoint.bin", rfl⟩)

theorem below_metadata : N (metadataBlobPath t ns id) :=
  below_base hN (Names.startswith_iff.mpr ⟨"metadata.bin", rfl⟩)

theorem below_region {name : String} (h : Region t ns id name) : N name :=
  h.elim (below_values hN) (below_base hN)

theorem stays_buildTuple (config : RunnableConfig G) : Stays N (buildTuple S t ns id config) :=
  stays_look ((looks_buildTuple S config).mono fun _ => below_region hN)

theorem stays_loadPendingWrites : Stays N (loadPendingWrites S t ns id : Call G _) :=
  stays_look ((looks_loadPendingWrites S).mono fun _ h =>
    below_base hN (startswith_writesPrefix h))

theorem stays_readLatestCheckpointId : Stays N (readLatestCheckpointId t ns : Call G _) :=
  stays_look (looks_readLatestCheckpointId (below_latest hN))

theorem stays_listCheckpointIds : Stays N (listCheckpointIds t ns : Call G _) :=
  stays_look (looks_listCheckpointIds fun _ => below_checkpoints hN)

theorem stays_findLatestCheckpointId : Stays N (findLatestCheckpointId t ns : Call G _) :=
  stays_bind (stays_listCheckpointIds hN) fun _ => stays_ret _

theorem stays_getLatestTuple : Stays N (getLatestTuple S t ns) := by
  have hscan : Stays N (findLatestCheckpointId t ns >>= buildFound S t ns) := by
    refine stays_bind (stays_findLatestCheckpointId hN) fun latest => ?_
    cases latest with
    | none => exact stays_ret _
    | some latest => exact stays_buildTuple hN _
  refine stays_bind (stays_readLatestCheckpointId hN) fun hint => ?_
  cases hint with
  | none => exact hscan
  | some hint =>
    refine stays_bind (stays_buildTuple hN _) fun tuple => ?_
    cases tuple with
    | none => exact hscan
    | some tuple => exact stays_ret _

theorem stays_listCheckpoint (filter : List (String × V)) (configId beforeId : Option String)
    (e : Enumeration V R G) (id : String) :
    Stays N (listCheckpoint S filter configId beforeId t ns e id) := by
  rw [listCheckpoint]
  split
  · exact stays_ret _
  · refine stays_bind (stays_buildTuple hN _) fun tuple => ?_
    cases tuple with
    | none => exact stays_ret _
    | some tuple =>
      change Stays _ (if S.passes filter tuple.metadata then _ else _)
      split <;> exact stays_ret _

theorem stays_listNamespace (filter : List (String × V)) (configId beforeId : Option String)
    (e : Enumeration V R G) : Stays N (listNamespace S filter configId beforeId t e ns) := by
  rw [listNamespace]
  split
  · exact stays_ret _
  · refine stays_bind (stays_listCheckpointIds hN) fun ids => ?_
    exact Prog.uses_foldlM _ fun e id _ => stays_listCheckpoint hN filter configId beforeId e id

theorem stays_currentLatest : Stays N (currentLatest t ns : Call G _) := by
  refine stays_bind (stays_readLatestCheckpointId hN) fun latest => ?_
  cases latest with
  | none => exact stays_findLatestCheckpointId hN
  | some latest =>
    refine stays_bind (stays_look (looks_blobExists (below_checkpoint hN))) fun there => ?_
    cases there with
    | false => exact stays_findLatestCheckpointId hN
    | true => exact stays_ret _

theorem stays_putValue {guard : Option G} {values : Dict String V} {entry : String × Version} :
    Stays N (putValue S guard t ns values entry) := by
  have hname : N (valueBlobPath t ns entry.1 entry.2.text) := by
    simp only [valueBlobPath, valuesPrefix, String.append_assoc]
    exact below hN _
  rw [putValue]
  cases values.get? entry.1 with
  | none => exact stays_guardedUpload hname
  | some v => exact stays_bind (stays_ofExcept _) fun _ => stays_guardedUpload hname

theorem stays_putWrite {guard : Option G} {taskId taskPath : String}
    {write : (String × V) × Nat} :
    Stays N (putWrite S guard t ns id taskId taskPath write) := by
  have hname (writeIndex : Int) : N (writeBlobPath t ns id taskId writeIndex) := by
    simp only [writeBlobPath, writesPrefix, checkpointBasePrefix, checkpointsPrefix,
      String.append_assoc]
    exact below hN _
  have hsettled (writeIndex : Int) :
      Stays N (settled writeIndex (writeBlobPath t ns id taskId writeIndex) : Call G Bool) := by
    rw [settled]
    split
    · exact stays_look (looks_blobExists (hname _))
    · exact stays_ret _
  rw [putWrite]
  refine stays_bind (hsettled _) fun there => ?_
  cases there with
  | true => exact stays_ret _
  | false => exact stays_bind (stays_ofExcept _) fun _ => stays_guardedUpload (hname _)

theorem stays_deleteDoomed (doomed : List String → List String) (n : Nat) :
    Stays N (deleteDoomed doomed t n ns : Call G Nat) := by
  refine stays_bind (stays_listCheckpointIds hN) fun ids => ?_
  refine stays_bind (stays_forM fun id _ => ?_) fun _ => stays_ret _
  refine stays_listBlobs_bind (fun _ => below_base hN) fun blobs hblobs => ?_
  exact stays_forM fun blob hblob => stays_deleteBlobIfThere (below_base hN (hblobs blob hblob))

theorem stays_put {bound : Option G} {config : RunnableConfig G} {checkpoint : Checkpoint V R}
    {metadata : Dict String V} {newVersions : ChannelVersions}
    (ht : configThreadId config = .ok t) (hns : configCheckpointNs config = .ok ns) :
    Stays N (put S bound config checkpoint metadata newVersions) := by
  refine stays_bind (stays_ofExcept _) fun guard => ?_
  refine stays_ofExcept_bind fun _ h => ?_
  cases h.symm.trans ht
  refine stays_ofExcept_bind fun _ h => ?_
  cases h.symm.trans hns
  refine stays_bind (stays_ofExcept _) fun parent => ?_
  refine stays_bind (stays_currentLatest hN) fun latest => ?_
  have hlatest (payload : ByteArray) :
      Stays N (guardedUpload guard (latestBlobPath t ns) payload ∅) :=
    stays_guardedUpload (below_latest hN)
  refine stays_bind (hlatest _) fun _ => ?_
  refine stays_bind (stays_forM fun entry _ => stays_putValue hN) fun _ => ?_
  refine stays_bind (stays_ofExcept _) fun dumped => ?_
  refine stays_bind (stays_guardedUpload (below_metadata hN)) fun _ => ?_
  refine stays_bind (stays_ofExcept _) fun cdumped => ?_
  refine stays_bind (stays_guardedUpload (below_checkpoint hN)) fun _ => ?_
  refine stays_bind (stays_ofExcept _) fun payload => ?_
  exact stays_bind (hlatest _) fun _ => stays_ret _

theorem stays_putWrites {bound : Option G} {config : RunnableConfig G} {writes : List (String × V)}
    {taskId taskPath : String} (ht : configThreadId config = .ok t)
    (hns : configCheckpointNs config = .ok ns) :
    Stays N (putWrites S bound config writes taskId taskPath) := by
  refine stays_bind (stays_ofExcept _) fun guard => ?_
  refine stays_ofExcept_bind fun _ h => ?_
  cases h.symm.trans ht
  refine stays_ofExcept_bind fun _ h => ?_
  cases h.symm.trans hns
  refine stays_bind (stays_ofExcept _) fun checkpointId => ?_
  cases checkpointId with
  | none => exact stays_raise _
  | some id => exact stays_forM fun write _ => stays_putWrite hN

theorem stays_getTuple {config : RunnableConfig G} (ht : configThreadId config = .ok t)
    (hns : configCheckpointNs config = .ok ns) : Stays N (getTuple S config) := by
  refine stays_ofExcept_bind fun _ h => ?_
  cases h.symm.trans ht
  refine stays_ofExcept_bind fun _ h => ?_
  cases h.symm.trans hns
  refine stays_bind (stays_ofExcept _) fun requested => ?_
  split
  · exact stays_getLatestTuple hN
  · exact stays_buildTuple hN _

theorem stays_list {q : Query V G} {config : RunnableConfig G} (hq : q.config = some config)
    (ht : configThreadId config = .ok t) (hns : configCheckpointNs config = .ok ns) :
    Stays N (list S q) := by
  have hconfigNs : ofConfig configCheckpointNs q.config = .ok (some ns) := by
    rw [hq, ofConfig, hns]
    rfl
  have hthreads : targetThreads q.config = Prog.ofExcept (.ok [t]) := by
    rw [hq, targetThreads, ht]
    rfl
  refine stays_ofExcept_bind fun _ h => ?_
  cases h.symm.trans hconfigNs
  refine stays_bind (stays_ofExcept _) fun configId => ?_
  refine stays_bind (stays_ofExcept _) fun beforeId => ?_
  rw [hthreads]
  refine stays_ofExcept_bind fun _ h => ?_
  cases h
  refine stays_bind (Prog.uses_foldlM _ fun e t' hmem => ?_) fun _ => stays_ret _
  obtain rfl := List.mem_singleton.mp hmem
  rw [listThread]
  split
  · exact stays_ret _
  · refine Prog.uses_foldlM _ fun e ns' hmem => ?_
    obtain rfl := List.mem_singleton.mp hmem
    exact stays_listNamespace hN _ _ _ e

theorem stays_collectRetainedVersions : Stays N (collectRetainedVersions S t ns : Call G _) := by
  refine stays_bind (stays_listCheckpointIds hN) fun ids => ?_
  refine Prog.uses_foldlM _ fun retained id _ => ?_
  cases retained with
  | none => exact stays_ret _
  | some retained =>
    refine stays_bind (stays_look (looks_downloadTypedBlob (below_checkpoint hN))) fun blob => ?_
    cases blob with
    | none => exact stays_ret _
    | some blob =>
      dsimp only
      split <;> exact stays_ret _

theorem stays_deleteOrphan {name : String} (hname : N name)
    (st : OrphanedValueCollectionResult × Bool) :
    Stays N (deleteOrphan S t ns st name : Call G _) := by
  obtain ⟨result, broken⟩ := st
  change Stays N (if broken then _ else _)
  split
  · exact stays_ret _
  · refine stays_bind (stays_readLatestCheckpointId hN) fun latest => ?_
    cases latest with
    | none => exact stays_ret _
    | some latest =>
      refine stays_bind (stays_collectRetainedVersions hN) fun retained => ?_
      cases retained with
      | none => exact stays_ret _
      | some retained =>
        change Stays N (if isRetained retained (parseValueBlobPath t ns name) then _ else _)
        split
        · exact stays_ret _
        · exact stays_bind (stays_deleteBlobIfThere hname) fun _ => stays_ret _

theorem stays_listValueBlobs_bind
    {q : List (String × Option (String × String) × Option Int) → Call G α}
    (hq : ∀ blobs, (∀ blob ∈ blobs, N blob.1) → Stays N (q blobs)) :
    Stays N (listValueBlobs t ns >>= q) := by
  refine Prog.uses_call.mpr ⟨fun _ => below_values hN, fun a ha => ?_⟩
  cases a with
  | ok blobs =>
    refine hq _ fun blob hblob => ?_
    obtain ⟨item, hitem, rfl⟩ := List.mem_map.mp hblob
    exact below_values hN (ha item hitem)
  | error e => exact stays_raise e

theorem stays_collectNamespace (cutoff : Int) (result : OrphanedValueCollectionResult) :
    Stays N (collectNamespace S t cutoff result ns : Call G _) := by
  refine stays_bind (stays_readLatestCheckpointId hN) fun latest => ?_
  cases latest with
  | none => exact stays_ret _
  | some latest =>
    refine stays_bind (stays_collectRetainedVersions hN) fun retained => ?_
    cases retained with
    | none => exact stays_ret _
    | some retained =>
      change Stays N (listValueBlobs t ns >>= _)
      refine stays_listValueBlobs_bind hN fun blobs hblobs => ?_
      simp only
      split
      · exact stays_ret _
      · refine stays_bind (Prog.uses_foldlM _ fun st name hname => ?_) fun _ => stays_ret _
        obtain ⟨blob, hblob, rfl⟩ := List.mem_map.mp hname
        exact stays_deleteOrphan hN (hblobs blob (List.mem_of_mem_filter (List.mem_of_mem_filter hblob))) st

end

end LangGraphFunctions.Checkpointers.AzureBlob

import LangGraphFunctions.Checkpointers.BlobFootprints
import LangGraphFunctions.Checkpointers.Collection
import LangGraphFunctions.Lib.Transcript

/-! What the runs of the saver upload, and what the container holds of it. -/

namespace LangGraphFunctions.Checkpointers.AzureBlob

open Lib

variable {V R G α β : Type} {S : Saver V R G} {s s' : Store} {t ns id name : String}
  {K : Key → Prop}

abbrev Content := ByteArray × Dict String String

variable {P : Key → Content → Prop}

abbrev Run (G : Type) := List (Event (interface G) Store)

def content (s : Store) (name : String) : Option Content :=
  (s.get? name).map fun b => (b.payload, b.metadata)

def uploadMark : (o : Op G) × o.Ans → List (String × Content)
  | ⟨.uploadBlob name payload metadata, .ok _⟩ => [(name, payload, metadata)]
  | _ => []

def uploadsOf : Event (interface G) Store → List (String × Content)
  | .call o _ a _ => uploadMark ⟨o, a⟩
  | .env _ _ => []

def uploads (u : Run G) : List (String × Content) := u.flatMap uploadsOf

def lastUpload (name : String) (w : List (String × Content)) : Option Content :=
  ((w.filter fun x => x.1 = name).getLast?).map (·.2)

@[simp] theorem lastUpload_nil : lastUpload name [] = none := rfl

theorem lastUpload_append (w w' : List (String × Content)) :
    lastUpload name (w ++ w') = (lastUpload name w').or (lastUpload name w) := by
  simp only [lastUpload, List.filter_append, List.getLast?_append]
  cases (w'.filter fun x => x.1 = name).getLast? <;> rfl

theorem lastUpload_singleton (x : String × Content) :
    lastUpload name [x] = if x.1 = name then some x.2 else none := by
  by_cases h : x.1 = name <;> simp [lastUpload, h]

theorem lastUpload_eq_none {w : List (String × Content)} (h : ∀ x ∈ w, x.1 ≠ name) :
    lastUpload name w = none := by
  have hfilter : (w.filter fun x => x.1 = name) = [] :=
    List.filter_eq_nil_iff.mpr fun x hx => by simpa using h x hx
  rw [lastUpload, hfilter]
  rfl

theorem content_set (s : Store) (n : String) (b : Blob) :
    content (s.set n b) name = if n = name then some (b.payload, b.metadata) else content s name := by
  rw [content, Dict.get?_set]
  by_cases h : n = name
  · simp [h]
  · rw [if_neg (Ne.symm h), if_neg h, content]

def AddsAs (P : Key → Content → Prop) : Op G → Prop
  | .uploadBlob name payload metadata => ∃ k, P k (payload, metadata) ∧ name = k.path
  | .deleteBlob _ => False
  | _ => True

abbrev Adds (K : Key → Prop) : Op G → Prop := AddsAs fun k _ => K k

def Uploadless : Op G → Prop
  | .uploadBlob .. => False
  | _ => True

theorem content_serve (verdict : G → Except Exn Unit) (now : Int) {o : Op G} (ho : Adds K o) :
    content (serve verdict now o s).2 name =
      (lastUpload name (uploadMark ⟨o, (serve verdict now o s).1⟩)).or (content s name) := by
  cases o with
  | uploadBlob blob payload metadata =>
    change content (s.set blob _) name = (lastUpload name [(blob, payload, metadata)]).or _
    rw [content_set, lastUpload_singleton]
    split <;> rfl
  | deleteBlob blob => exact ho.elim
  | downloadBlob blob =>
    simp only [serve]
    split <;> rfl
  | getBlobProperties blob =>
    simp only [serve]
    split <;> rfl
  | listBlobs pre => rfl
  | check guard => rfl
  | utcnow => rfl

theorem service_listed {o : Op G} {a : o.Ans} (h : service.step o s a s') : Listed o a := by
  obtain ⟨verdict, now, hserve⟩ := h
  have hlisted := serve_listed (s := s) verdict now o
  rwa [hserve] at hlisted

theorem content_step {o : Op G} {a : o.Ans} (h : service.step o s a s') (ho : Adds K o) :
    content s' name = (lastUpload name (uploadMark ⟨o, a⟩)).or (content s name) := by
  obtain ⟨verdict, now, hserve⟩ := h
  have hcontent : content (serve verdict now o s).2 name = _ := content_serve verdict now ho
  rwa [hserve] at hcontent

theorem get?_step {o : Op G} {a : o.Ans} (h : service.step o s a s') (ho : Adds K o)
    (hname : ∀ k, K k → k.path ≠ name) : s'.get? name = s.get? name := by
  obtain ⟨verdict, now, hserve⟩ := h
  cases o with
  | uploadBlob blob payload metadata =>
    cases hserve
    obtain ⟨k, hk, rfl⟩ := ho
    exact Dict.get?_set_ne _ _ (hname k hk).symm
  | deleteBlob blob => exact ho.elim
  | downloadBlob blob =>
    simp only [serve] at hserve
    split at hserve <;> cases hserve <;> rfl
  | getBlobProperties blob =>
    simp only [serve] at hserve
    split at hserve <;> cases hserve <;> rfl
  | _ =>
    cases hserve
    rfl

theorem mem_uploadMark {e : (o : Op G) × o.Ans} {x : String × Content} (h : x ∈ uploadMark e) :
    e.1 = .uploadBlob x.1 x.2.1 x.2.2 := by
  obtain ⟨o, a⟩ := e
  cases o with
  | uploadBlob name payload metadata =>
    cases a with
    | ok _ =>
      obtain rfl := List.mem_singleton.mp h
      rfl
    | error e => cases h
  | _ => cases h

theorem content_exec {p q : Call G α} {u : Run G} (hp : p.Uses Listed (Adds K))
    (h : Exec service Eq p s u q s') :
    content s' name = (lastUpload name (uploads u)).or (content s name) := by
  induction h with
  | stop => rfl
  | env heq _ ih =>
    cases heq
    exact ih hp
  | call hstep _ ih =>
    obtain ⟨ho, hk⟩ := Prog.uses_call.mp hp
    rw [ih (hk _ (service_listed hstep)), content_step hstep ho, ← Option.or_assoc,
      ← lastUpload_append]
    rfl

theorem get?_exec {p q : Call G α} {u : Run G} (hp : p.Uses Listed (Adds K))
    (h : Exec service Eq p s u q s') (hname : ∀ k, K k → k.path ≠ name) :
    s'.get? name = s.get? name := by
  induction h with
  | stop => rfl
  | env heq _ ih =>
    cases heq
    exact ih hp
  | call hstep _ ih =>
    obtain ⟨ho, hk⟩ := Prog.uses_call.mp hp
    exact (ih (hk _ (service_listed hstep))).trans (get?_step hstep ho hname)

theorem mem_uploads {H : Op G → Prop} {p q : Call G α} {u : Run G} (hp : p.Uses Listed H)
    (h : Exec service Eq p s u q s') {x : String × Content} (hx : x ∈ uploads u) :
    H (.uploadBlob x.1 x.2.1 x.2.2) := by
  induction h with
  | stop => exact absurd hx List.not_mem_nil
  | env heq _ ih =>
    cases heq
    exact ih hp hx
  | call hstep _ ih =>
    obtain ⟨ho, hk⟩ := Prog.uses_call.mp hp
    cases List.mem_append.mp hx with
    | inr hx => exact ih (hk _ (service_listed hstep)) hx
    | inl hx => exact mem_uploadMark hx ▸ ho

theorem uploads_eq_nil {p q : Call G α} {u : Run G} (hp : p.Uses Listed Uploadless)
    (h : Exec service Eq p s u q s') : uploads u = [] :=
  List.eq_nil_iff_forall_not_mem.mpr fun _ hx => mem_uploads hp h hx

theorem lastUpload_of_adds {p q : Call G α} {u : Run G} (hp : p.Uses Listed (Adds K))
    (h : Exec service Eq p s u q s') {k : Key} (hk : ¬ K k) :
    lastUpload k.path (uploads u) = none := by
  refine lastUpload_eq_none fun x hx heq => ?_
  obtain ⟨l, hl, hpath⟩ := mem_uploads hp h hx
  cases Key.path_injective (heq.symm.trans hpath)
  exact hk hl

theorem writes_exec {p : Call G α} {u : Run G} {r : Except Exn α}
    {T : Except Exn α → List (String × Content) → Prop}
    (hp : p.Writes (fun _ _ => True) uploadMark T) (h : Exec service Eq p s u (.ofExcept r) s') :
    T r (uploads u) := by
  generalize hq : (Prog.ofExcept r : Call G α) = q at h
  induction h generalizing T with
  | stop =>
    subst hq
    cases r <;> exact hp
  | env heq _ ih =>
    cases heq
    exact ih hp hq
  | call _ _ ih => exact ih (hp _ trivial) hq

theorem adds_look {N : String → Prop} {p : Call G α} (hp : Looks N p) :
    p.Uses Listed (AddsAs P) := by
  refine Prog.Uses.mono hp (fun o ho => ?_) fun _ _ ha => ha
  cases o with
  | uploadBlob => exact ho.elim
  | deleteBlob => exact ho.elim
  | _ => trivial

theorem adds_guardedUpload {guard : Option G} {k : Key} {payload : ByteArray}
    {metadata : Dict String String} (hk : P k (payload, metadata)) :
    (guardedUpload guard k.path payload metadata).Uses Listed (AddsAs P) := by
  have hupload : (uploadBlob k.path payload metadata : Call G Unit).Uses Listed (AddsAs P) :=
    Prog.uses_bind (Prog.uses_call.mpr ⟨⟨k, hk, rfl⟩, fun _ _ => Prog.uses_ret _⟩) fun _ =>
      Prog.uses_ofExcept _
  refine Prog.uses_bind ?_ fun _ => hupload
  cases guard with
  | none => exact Prog.uses_ret _
  | some guard =>
    exact Prog.uses_bind (Prog.uses_call.mpr ⟨trivial, fun _ _ => Prog.uses_ret _⟩) fun _ =>
      Prog.uses_ofExcept _

/-- What is uploaded for a channel: the dump of its value, or an empty blob. -/
def Dumped (S : Saver V R G) (v : Option V) (c : Content) : Prop :=
  v.elim (c = (ByteArray.empty, typed "empty")) fun v =>
    ∃ dumped, S.serde.dumpsTyped (.value v) = .ok dumped ∧ c = (dumped.2, typed dumped.1)

def PutKey (t ns id : String) (newVersions : ChannelVersions) (k : Key) : Prop :=
  k = .latest t ns ∨ (∃ e ∈ newVersions.items, k = .value t ns e.1 e.2.text) ∨
    k = .metadata t ns id ∨ k = .checkpoint t ns id

/-- The blobs that a put may upload, the values with what they hold. -/
def PutContent (S : Saver V R G) (t ns id : String) (newVersions : ChannelVersions)
    (values : Dict String V) (k : Key) (c : Content) : Prop :=
  k = .latest t ns ∨
    (∃ e ∈ newVersions.items, k = .value t ns e.1 e.2.text ∧ Dumped S (values.get? e.1) c) ∨
    k = .metadata t ns id ∨ k = .checkpoint t ns id

theorem PutContent.putKey {newVersions : ChannelVersions} {values : Dict String V} {k : Key}
    {c : Content} (h : PutContent S t ns id newVersions values k c) : PutKey t ns id newVersions k := by
  rcases h with hk | ⟨e, he, hk, -⟩ | hk | hk
  · exact .inl hk
  · exact .inr (.inl ⟨e, he, hk⟩)
  · exact .inr (.inr (.inl hk))
  · exact .inr (.inr (.inr hk))

theorem adds_putValue {guard : Option G} {values : Dict String V} {entry : String × Version}
    (hk : ∀ c, Dumped S (values.get? entry.1) c → P (.value t ns entry.1 entry.2.text) c) :
    (putValue S guard t ns values entry).Uses Listed (AddsAs P) := by
  rw [putValue]
  cases hget : values.get? entry.1 with
  | none => exact adds_guardedUpload (hk _ (by rw [hget]; rfl))
  | some v =>
    refine Prog.uses_ofExcept_bind fun dumped hdumped => adds_guardedUpload (hk _ ?_)
    rw [hget]
    exact ⟨dumped, hdumped, rfl⟩

theorem adds_putContent {bound : Option G} {config : RunnableConfig G} {checkpoint : Checkpoint V R}
    {metadata : Dict String V} {newVersions : ChannelVersions}
    (hP : ∀ t ns, configThreadId config = .ok t → configCheckpointNs config = .ok ns → ∀ k c,
      PutContent S t ns checkpoint.id newVersions checkpoint.channelValues k c → P k c) :
    (put S bound config checkpoint metadata newVersions).Uses Listed (AddsAs P) := by
  refine Prog.uses_ofExcept_bind fun guard _ => Prog.uses_ofExcept_bind fun t ht => ?_
  refine Prog.uses_ofExcept_bind fun ns hns => Prog.uses_ofExcept_bind fun parent _ => ?_
  have hput := hP t ns ht hns
  have hlatest : ∀ c, P (.latest t ns) c := fun c => hput _ c (.inl rfl)
  refine Prog.uses_bind (adds_look (looks_currentLatest t ns)) fun latest => ?_
  refine Prog.uses_bind (adds_guardedUpload (hlatest _)) fun _ => ?_
  refine Prog.uses_bind (Prog.uses_forM fun e he =>
    adds_putValue fun c hc => hput _ c (.inr (.inl ⟨e, he, rfl, hc⟩))) ?_
  refine fun _ => Prog.uses_ofExcept_bind fun dumped _ => ?_
  refine Prog.uses_bind (adds_guardedUpload (hput _ _ (.inr (.inr (.inl rfl))))) fun _ => ?_
  refine Prog.uses_ofExcept_bind fun cdumped _ => ?_
  refine Prog.uses_bind (adds_guardedUpload (hput _ _ (.inr (.inr (.inr rfl))))) fun _ => ?_
  refine Prog.uses_ofExcept_bind fun payload _ => ?_
  exact Prog.uses_bind (adds_guardedUpload (hlatest _)) fun _ => Prog.uses_ret _

theorem adds_put {bound : Option G} {config : RunnableConfig G} {checkpoint : Checkpoint V R}
    {metadata : Dict String V} {newVersions : ChannelVersions}
    (hK : ∀ t ns, configThreadId config = .ok t → configCheckpointNs config = .ok ns →
      ∀ k, PutKey t ns checkpoint.id newVersions k → K k) :
    (put S bound config checkpoint metadata newVersions).Uses Listed (Adds K) :=
  adds_putContent fun t ns ht hns k _ hk => hK t ns ht hns k hk.putKey

theorem adds_putWrites {bound : Option G} {config : RunnableConfig G} {writes : List (String × V)}
    {taskId taskPath : String}
    (hK : ∀ t ns id taskId writeIndex, K (.write t ns id taskId writeIndex)) :
    (putWrites S bound config writes taskId taskPath).Uses Listed (Adds K) := by
  refine Prog.uses_ofExcept_bind fun guard _ => Prog.uses_ofExcept_bind fun t _ => ?_
  refine Prog.uses_ofExcept_bind fun ns _ => Prog.uses_ofExcept_bind fun checkpointId _ => ?_
  cases checkpointId with
  | none => exact Prog.uses_raise _
  | some id =>
    refine Prog.uses_forM fun write _ => ?_
    rw [putWrite]
    refine Prog.uses_bind (adds_look (looks_settled _ _)) fun there => ?_
    cases there with
    | true => exact Prog.uses_ret _
    | false =>
      refine Prog.uses_bind (Prog.uses_ofExcept _) fun _ => ?_
      exact adds_guardedUpload (P := fun k _ => K k) (k := .write t ns id taskId _) (hK ..)

theorem uploadless_look {N : String → Prop} {p : Call G α} (hp : Looks N p) :
    p.Uses Listed Uploadless := by
  refine Prog.Uses.mono hp (fun o ho => ?_) fun _ _ ha => ha
  cases o with
  | uploadBlob => exact ho.elim
  | _ => trivial

theorem uploadless_listBlobs_bind {pre : String} {q : List BlobItem → Call G α}
    (hq : ∀ blobs, (q blobs).Uses Listed Uploadless) :
    (listBlobs pre >>= q).Uses Listed Uploadless := by
  refine Prog.uses_call.mpr ⟨trivial, fun a _ => ?_⟩
  cases a with
  | ok blobs => exact hq blobs
  | error e => exact Prog.uses_raise e

theorem uploadless_deleteBlobIfThere (name : String) :
    (deleteBlobIfThere name : Call G Unit).Uses Listed Uploadless := by
  refine Prog.uses_call.mpr ⟨trivial, fun a _ => ?_⟩
  cases a with
  | ok _ => exact Prog.uses_ret _
  | error e => cases e <;> first | exact Prog.uses_ret _ | exact Prog.uses_raise _

theorem uploadless_deleteThread (t : String) :
    (deleteThread t : Call G Unit).Uses Listed Uploadless := by
  refine uploadless_listBlobs_bind fun blobs => Prog.uses_forM fun blob _ => ?_
  exact Prog.uses_bind (Prog.uses_call.mpr ⟨trivial, fun _ _ => Prog.uses_ret _⟩) fun _ =>
    Prog.uses_ofExcept _

theorem uploadless_deleteDoomed (doomed : List String → List String) (t : String) (n : Nat)
    (ns : String) : (deleteDoomed doomed t n ns : Call G Nat).Uses Listed Uploadless := by
  refine Prog.uses_bind (uploadless_look (looks_listCheckpointIds fun _ h => h)) fun ids => ?_
  refine Prog.uses_bind (Prog.uses_forM fun id _ => ?_) fun _ => Prog.uses_ret _
  exact uploadless_listBlobs_bind fun blobs =>
    Prog.uses_forM fun blob _ => uploadless_deleteBlobIfThere _

theorem uploadless_retention (r : Retention) (t : String) (checkpointNs : Option String) :
    (r.program t checkpointNs : Call G Nat).Uses Listed Uploadless := by
  have hloop : (targetNamespaces t checkpointNs >>= fun nss =>
      nss.foldlM (deleteDoomed r.doomed t) 0 : Call G Nat).Uses Listed Uploadless :=
    Prog.uses_bind (uploadless_look (looks_targetNamespaces t checkpointNs)) fun nss =>
      Prog.uses_foldlM _ fun n ns _ => uploadless_deleteDoomed r.doomed t n ns
  cases r with
  | old keepLast =>
    rw [Retention.program, deleteOldCheckpoints, if_neg (Int.natCast_nonneg keepLast).not_gt]
    exact hloop
  | before id => exact hloop

theorem uploadless_readLatestCheckpointId (t ns : String) :
    (readLatestCheckpointId t ns : Call G _).Uses Listed Uploadless :=
  uploadless_look (looks_readLatestCheckpointId (N := fun _ => True) trivial)

theorem uploadless_deleteOrphan (st : OrphanedValueCollectionResult × Bool) (name : String) :
    (deleteOrphan S t ns st name : Call G _).Uses Listed Uploadless := by
  obtain ⟨result, broken⟩ := st
  cases broken with
  | true => exact Prog.uses_ret _
  | false =>
    refine Prog.uses_bind (uploadless_readLatestCheckpointId t ns) fun latest => ?_
    cases latest with
    | none => exact Prog.uses_ret _
    | some latest =>
      refine Prog.uses_bind (uploadless_look (looks_collectRetainedVersions t ns)) fun retained => ?_
      cases retained with
      | none => exact Prog.uses_ret _
      | some retained =>
        refine Prog.uses_ite (Prog.uses_ret _) ?_
        exact Prog.uses_bind (uploadless_deleteBlobIfThere name) fun _ => Prog.uses_ret _

theorem uploadless_collectNamespace (cutoff : Int) (result : OrphanedValueCollectionResult)
    (ns : String) : (collectNamespace S t cutoff result ns).Uses Listed Uploadless := by
  refine Prog.uses_bind (uploadless_readLatestCheckpointId t ns) fun latest => ?_
  cases latest with
  | none => exact Prog.uses_ret _
  | some latest =>
    refine Prog.uses_bind (uploadless_look (looks_collectRetainedVersions t ns)) fun retained => ?_
    cases retained with
    | none => exact Prog.uses_ret _
    | some retained =>
      refine Prog.uses_bind (uploadless_look (looks_listValueBlobs t ns)) fun blobs => ?_
      refine Prog.uses_ite (Prog.uses_ret _) ?_
      refine Prog.uses_bind (Prog.uses_foldlM _ fun st name _ => ?_) fun _ => Prog.uses_ret _
      exact uploadless_deleteOrphan st name

theorem uploadless_collectOrphanedValues (t : String) (checkpointNs : Option String) (dryRun : Bool)
    (grace : Int) : (collectOrphanedValues S t checkpointNs dryRun grace).Uses Listed Uploadless := by
  refine Prog.uses_bind (uploadless_look (looks_targetNamespaces t checkpointNs)) fun nss => ?_
  refine Prog.uses_bind (Prog.uses_call.mpr ⟨trivial, fun _ _ => Prog.uses_ret _⟩) fun now => ?_
  exact Prog.uses_foldlM _ fun result ns _ => uploadless_collectNamespace _ result ns

theorem path_ne {k l : Key} (h : k ≠ l) : k.path ≠ l.path := mt Key.path_injective h

/-- What a put that has ended well has uploaded of the checkpoint. -/
structure Uploaded (S : Saver V R G) (config : RunnableConfig G) (checkpoint : Checkpoint V R)
    (metadata : Dict String V) (newVersions : ChannelVersions) (t ns : String)
    (parent : Option String) (w : List (String × Content)) : Prop where
  metadata : ∃ dumped, S.serde.dumpsTyped (.metadata (S.getCheckpointMetadata config metadata)) =
      .ok dumped ∧
    lastUpload (Key.metadata t ns checkpoint.id).path w = some (dumped.2, typed dumped.1)
  checkpoint : ∃ dumped, S.serde.dumpsTyped (.checkpoint checkpoint.toCheckpointData) = .ok dumped ∧
    lastUpload (Key.checkpoint t ns checkpoint.id).path w =
      some (dumped.2, checkpointBlobMetadata dumped.1 parent)
  values : ∀ e ∈ newVersions.items, ∃ c, (valueBlobPath t ns e.1 e.2.text, c) ∈ w

theorem writes_guardedUpload (guard : Option G) (name : String) (payload : ByteArray)
    (metadata : Dict String String) :
    (guardedUpload guard name payload metadata).Writes (fun _ _ => True) uploadMark
      fun r w => ∀ a, r = .ok a → w = [(name, payload, metadata)] := by
  have hupload : (uploadBlob name payload metadata : Call G Unit).Writes (fun _ _ => True) uploadMark
      fun r w => ∀ a, r = .ok a → w = [(name, payload, metadata)] := by
    intro a _
    cases a with
    | ok _ => exact fun _ _ => rfl
    | error e => exact fun _ h => by cases h
  cases guard with
  | none => exact hupload
  | some guard =>
    intro a _
    cases a with
    | ok _ => exact hupload
    | error e => exact fun _ h => by cases h

theorem writes_ofExcept_bind {q : α → Call G β} {r : Except Exn α}
    {T : Except Exn β → List (String × Content) → Prop}
    (hok : ∀ a, r = .ok a → (q a).Writes (fun _ _ => True) uploadMark T)
    (herror : ∀ e, T (.error e) []) :
    (Prog.ofExcept r >>= q).Writes (fun _ _ => True) uploadMark T := by
  cases r with
  | ok a => exact hok a rfl
  | error e => exact herror e

theorem writes_putValue {guard : Option G} {values : Dict String V} {entry : String × Version} :
    (putValue S guard t ns values entry).Writes (fun _ _ => True) uploadMark fun r w =>
      ∀ a, r = .ok a → ∃ c, w = [(valueBlobPath t ns entry.1 entry.2.text, c)] := by
  rw [putValue]
  cases values.get? entry.1 with
  | none => exact (writes_guardedUpload _ _ _ _).mono fun r w h a hr => ⟨_, h a hr⟩
  | some v =>
    refine writes_ofExcept_bind (fun dumped _ => ?_) fun e a h => by cases h
    exact (writes_guardedUpload _ _ _ _).mono fun r w h a hr => ⟨_, h a hr⟩

theorem writes_put {bound : Option G} {config : RunnableConfig G} {checkpoint : Checkpoint V R}
    {metadata : Dict String V} {newVersions : ChannelVersions} {parent : Option String}
    (hasks : Asks config t ns parent) :
    (put S bound config checkpoint metadata newVersions).Writes (fun _ _ => True) uploadMark
      fun r w => ∀ a, r = .ok a →
        Uploaded S config checkpoint metadata newVersions t ns parent w := by
  refine writes_ofExcept_bind (fun guard _ => ?_) fun e a h => by cases h
  refine writes_ofExcept_bind (fun _ h => ?_) fun e a h => by cases h
  cases h.symm.trans hasks.threadId
  refine writes_ofExcept_bind (fun _ h => ?_) fun e a h => by cases h
  cases h.symm.trans hasks.ns
  refine writes_ofExcept_bind (fun _ h => ?_) fun e a h => by cases h
  cases h.symm.trans hasks.checkpointId
  refine Prog.writes_bind (Prog.writes_of_all (S := fun _ _ => True) _ fun _ _ => trivial)
    (fun latest w₀ _ => ?_) fun e u _ a h => by cases h
  refine Prog.writes_bind (Prog.writes_of_all (S := fun _ _ => True) _ fun _ _ => trivial)
    (fun _ w₁ _ => ?_) fun e u _ a h => by cases h
  refine Prog.writes_bind (Prog.writes_forM fun e _ => writes_putValue) (fun _ w₂ hvalues => ?_)
    fun e u _ a h => by cases h
  refine writes_ofExcept_bind (fun dumped hdumped => ?_) fun e a h => by cases h
  refine Prog.writes_bind (writes_guardedUpload _ _ _ _) (fun _ m hm => ?_)
    fun e u _ a h => by cases h
  refine writes_ofExcept_bind (fun cdumped hcdumped => ?_) fun e a h => by cases h
  refine Prog.writes_bind (writes_guardedUpload _ _ _ _) (fun _ c hc => ?_)
    fun e u _ a h => by cases h
  refine writes_ofExcept_bind (fun payload _ => ?_) fun e a h => by cases h
  refine Prog.writes_bind (writes_guardedUpload _ _ _ _) (fun _ l hl => ?_)
    fun e u _ a h => by cases h
  intro a _
  rw [hm _ rfl, hc _ rfl, hl _ rfl]
  refine ⟨⟨dumped, hdumped, ?_⟩, ⟨cdumped, hcdumped, ?_⟩, fun e he => ?_⟩
  · have hcheckpoint : checkpointBlobPath t ns checkpoint.id ≠ metadataBlobPath t ns checkpoint.id :=
      path_ne (k := .checkpoint ..) (l := .metadata ..) (by simp)
    have hlatest : latestBlobPath t ns ≠ metadataBlobPath t ns checkpoint.id :=
      path_ne (k := .latest ..) (l := .metadata ..) (by simp)
    simp only [lastUpload_append, lastUpload_singleton, Key.path, if_neg hcheckpoint, if_neg hlatest]
    simp
  · have hlatest : latestBlobPath t ns ≠ checkpointBlobPath t ns checkpoint.id :=
      path_ne (k := .latest ..) (l := .checkpoint ..) (by simp)
    simp only [lastUpload_append, lastUpload_singleton, Key.path, if_neg hlatest]
    simp
  · obtain ⟨v, ⟨c, rfl⟩, hsub⟩ := hvalues () rfl e he
    have hmem : (valueBlobPath t ns e.1 e.2.text, c) ∈ w₂ := hsub (List.mem_singleton_self _)
    exact ⟨c, by simp only [List.mem_append, hmem, true_or, or_true]⟩

def uploadsAfter (verdict : G → Except Exn Unit) (now : Int) :
    Nat → Call G α → Store → List (String × Content)
  | n + 1, .call o k, s => uploadMark ⟨o, (serve verdict now o s).1⟩ ++
    uploadsAfter verdict now n (k (serve verdict now o s).1) (serve verdict now o s).2
  | _, _, _ => []

def restAfter (verdict : G → Except Exn Unit) (now : Int) : Nat → Call G α → Store → Call G α
  | n + 1, .call o k, s =>
    restAfter verdict now n (k (serve verdict now o s).1) (serve verdict now o s).2
  | _, p, _ => p

theorem exec_stoppedAfter (verdict : G → Except Exn Unit) (now : Int) (n : Nat) (p : Call G α)
    (s : Store) : ∃ u, Exec service Eq p s u (restAfter verdict now n p s)
      (stoppedAfter verdict now n p s) ∧ uploads u = uploadsAfter verdict now n p s := by
  induction n generalizing p s with
  | zero => exact ⟨[], .stop, rfl⟩
  | succ n ih =>
    cases p with
    | ret a => exact ⟨[], .stop, rfl⟩
    | raise e => exact ⟨[], .stop, rfl⟩
    | call o k =>
      obtain ⟨u, h, hu⟩ := ih (k (serve verdict now o s).1) (serve verdict now o s).2
      exact ⟨_, .call ⟨verdict, now, rfl⟩ h, congrArg (uploadMark _ ++ ·) hu⟩

end LangGraphFunctions.Checkpointers.AzureBlob

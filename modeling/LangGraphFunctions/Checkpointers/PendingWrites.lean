import LangGraphFunctions.Checkpointers.BlobReach
import LangGraphFunctions.Checkpointers.TextSerde
import LangGraphFunctions.Lib.Registers

/-! The pending writes of a checkpoint, and the map that they come from. -/

namespace LangGraphFunctions.Checkpointers.AzureBlob

open Lib

variable {V R G : Type} {S : Saver V R G} {s s' base : Store} {t ns id : String}

abbrev Writes (V : Type) := Dict (String × Int) (String × String × V)

/-- An index that is not negative keeps its first write. -/
def keepsFirst (k : String × Int) : Bool := decide (0 ≤ k.2)

def Saver.entry (S : Saver V R G) (taskId taskPath : String) (write : (String × V) × Nat) :
    (String × Int) × (String × String × V) :=
  ((taskId, S.writeIndex write.1.1 write.2), (taskPath, write.1.1, write.1.2))

def pending (e : (String × Int) × (String × String × V)) : PendingWrite V :=
  ⟨e.2.1, e.1.1, e.1.2, e.2.2.1, e.2.2.2⟩

def readBack (m : Writes V) : List (String × String × V) :=
  ((m.items.map pending).insertionSort PendingWrite.le).map fun w => (w.taskId, w.channel, w.value)

theorem mem_pending {m : Writes V} {w : PendingWrite V} : w ∈ m.items.map pending ↔
    m.get? (w.taskId, w.index) = some (w.taskPath, w.channel, w.value) := by
  rw [List.mem_map, Dict.get?_eq_some_iff]
  constructor
  · rintro ⟨e, he, rfl⟩
    exact he
  · exact fun h => ⟨_, h, rfl⟩

instance : Std.Total (PendingWrite.le (V := V)) where
  total a b := by
    unfold PendingWrite.le
    cases lt_trichotomy a.taskPath b.taskPath with
    | inl h => exact .inl (.inl h)
    | inr h =>
      cases h with
      | inr h => exact .inr (.inl h)
      | inl hpath =>
        cases lt_trichotomy a.taskId b.taskId with
        | inl h => exact .inl (.inr ⟨hpath, .inl h⟩)
        | inr h =>
          cases h with
          | inr h => exact .inr (.inr ⟨hpath.symm, .inl h⟩)
          | inl hid =>
            cases le_total a.index b.index with
            | inl h => exact .inl (.inr ⟨hpath, .inr ⟨hid, h⟩⟩)
            | inr h => exact .inr (.inr ⟨hpath.symm, .inr ⟨hid.symm, h⟩⟩)

instance : IsTrans (PendingWrite V) PendingWrite.le where
  trans a b c := by
    rintro (h | ⟨hpath, h | ⟨hid, h⟩⟩) (h' | ⟨hpath', h' | ⟨hid', h'⟩⟩)
    · exact .inl (h.trans h')
    · exact .inl (hpath' ▸ h)
    · exact .inl (hpath' ▸ h)
    · exact .inl (hpath.symm ▸ h')
    · exact .inr ⟨hpath.trans hpath', .inl (h.trans h')⟩
    · exact .inr ⟨hpath.trans hpath', .inl (hid' ▸ h)⟩
    · exact .inl (hpath.symm ▸ h')
    · exact .inr ⟨hpath.trans hpath', .inl (hid.symm ▸ h')⟩
    · exact .inr ⟨hpath.trans hpath', .inr ⟨hid.trans hid', h.trans h'⟩⟩

theorem PendingWrite.le_antisymm {a b : PendingWrite V} (h : a.le b) (h' : b.le a) :
    a.taskId = b.taskId ∧ a.index = b.index := by
  obtain h | ⟨hpath, h | ⟨hid, h⟩⟩ := h
  · obtain h' | ⟨hpath', -⟩ := h'
    · exact absurd h' h.asymm
    · exact absurd h (hpath' ▸ lt_irrefl _)
  · obtain h' | ⟨-, h' | ⟨hid', -⟩⟩ := h'
    · exact absurd h' (hpath ▸ lt_irrefl _)
    · exact absurd h' h.asymm
    · exact absurd h (hid' ▸ lt_irrefl _)
  · obtain h' | ⟨-, h' | ⟨-, h'⟩⟩ := h'
    · exact absurd h' (hpath ▸ lt_irrefl _)
    · exact absurd h' (hid ▸ lt_irrefl _)
    · exact ⟨hid, h.antisymm h'⟩

theorem sort_pending {m : Writes V} {loaded : List (PendingWrite V)} (hnodup : loaded.Nodup)
    (hmem : ∀ w, w ∈ loaded ↔ m.get? (w.taskId, w.index) = some (w.taskPath, w.channel, w.value)) :
    (loaded.insertionSort PendingWrite.le).map (fun w => (w.taskId, w.channel, w.value)) =
      readBack m := by
  have hpending : (m.items.map pending).Nodup := by
    refine List.Nodup.of_map (fun w => (w.taskId, w.index)) ?_
    rw [List.map_map]
    exact m.nodup
  have hperm : loaded.Perm (m.items.map pending) :=
    (List.perm_ext_iff_of_nodup hnodup hpending).mpr fun w => (hmem w).trans mem_pending.symm
  have hsorted : loaded.insertionSort PendingWrite.le =
      (m.items.map pending).insertionSort PendingWrite.le := by
    refine List.Perm.eq_of_pairwise (fun a b ha hb hab hba => ?_)
      (List.pairwise_insertionSort _ _) (List.pairwise_insertionSort _ _)
      ((List.perm_insertionSort _ _).trans (hperm.trans (List.perm_insertionSort _ _).symm))
    rw [List.mem_insertionSort, hmem] at ha
    rw [List.mem_insertionSort, mem_pending] at hb
    obtain ⟨hid, hindex⟩ := PendingWrite.le_antisymm hab hba
    rw [hid, hindex, hb, Option.some_inj] at ha
    cases a
    cases b
    cases hid
    cases hindex
    cases ha
    rfl
  rw [hsorted, readBack]

def Encodes (S : Saver V R G) (taskId : String) (w : String × String × V) (b : Blob) : Prop :=
  ∃ dumped now, S.serde.dumpsTyped (.value w.2.2) = .ok dumped ∧
    b = uploaded dumped.2 (writeBlobMetadata dumped.1 w.2.1 taskId w.1) now

structure Recorded (S : Saver V R G) (t ns id : String) (base s : Store) (m : Writes V) : Prop where
  agree : Container.Agree (fun name => ¬ Names.startswith name (writesPrefix t ns id)) base s
  named : ∀ name b, s.get? name = some b → Names.startswith name (writesPrefix t ns id) →
    ∃ k, name = writeBlobPath t ns id k.1 k.2 ∧ m.contains k
  present : ∀ k w, m.get? k = some w →
    ∃ b, s.get? (writeBlobPath t ns id k.1 k.2) = some b ∧ Encodes S k.1 w b

theorem recorded_fresh (h : Container.names base (writesPrefix t ns id) = []) :
    Recorded S t ns id base base ∅ where
  agree := .refl _ base
  named name b hb hstart := by
    have hmem : name ∈ Container.names base (writesPrefix t ns id) :=
      Container.mem_names.mpr ⟨hstart, b, hb⟩
    rw [h] at hmem
    cases hmem
  present k w h := by cases h

theorem writeBlobPath_inj {k k' : String × Int} :
    writeBlobPath t ns id k.1 k.2 = writeBlobPath t ns id k'.1 k'.2 ↔ k = k' := by
  constructor
  · intro h
    have hkey : Key.write t ns id k.1 k.2 = .write t ns id k'.1 k'.2 := Key.path_injective h
    injection hkey with _ _ _ htask hindex
    exact Prod.ext htask hindex
  · rintro rfl
    rfl

theorem startswith_writeBlobPath (t ns id taskId : String) (writeIndex : Int) :
    Names.startswith (writeBlobPath t ns id taskId writeIndex) (writesPrefix t ns id) :=
  (Key.startswith_writesPrefix (k := .write t ns id taskId writeIndex)).mpr ⟨_, _, rfl⟩

theorem Recorded.contains {m : Writes V} (h : Recorded S t ns id base s m) (k : String × Int) :
    s.contains (writeBlobPath t ns id k.1 k.2) = m.contains k := by
  rw [Dict.contains, Bool.eq_iff_iff]
  constructor
  · intro hs
    obtain ⟨b, hb⟩ := Option.isSome_iff_exists.mp hs
    obtain ⟨k', hk, hm⟩ := h.named _ b hb (startswith_writeBlobPath ..)
    rw [writeBlobPath_inj] at hk
    exact hk ▸ hm
  · intro hm
    obtain ⟨w, hw⟩ := Option.isSome_iff_exists.mp hm
    obtain ⟨b, hb, -⟩ := h.present k w hw
    exact Option.isSome_iff_exists.mpr ⟨b, hb⟩

theorem Recorded.set {m : Writes V} {k : String × Int} {w : String × String × V} {b : Blob}
    (h : Recorded S t ns id base s m) (hb : Encodes S k.1 w b) :
    Recorded S t ns id base (s.set (writeBlobPath t ns id k.1 k.2) b) (m.set k w) where
  agree := h.agree.trans (Container.agree_set (not_not.mpr (startswith_writeBlobPath ..)) s b)
  named name b' hget hstart := by
    rw [Dict.get?_set] at hget
    split at hget
    · next hname => exact ⟨k, hname, by simp [Dict.contains]⟩
    · obtain ⟨k', hname, hm⟩ := h.named name b' hget hstart
      refine ⟨k', hname, ?_⟩
      rw [Dict.contains, Dict.get?_set]
      split
      · rfl
      · exact hm
  present k' w' hget := by
    rw [Dict.get?_set] at hget
    split at hget
    · next hk =>
      cases hget
      rw [hk]
      exact ⟨b, Dict.get?_set_self .., hb⟩
    · next hk =>
      rw [Dict.get?_set_ne _ _ (mt writeBlobPath_inj.mp hk)]
      exact h.present k' w' hget

theorem view_settled (writeIndex : Int) (name : String) :
    view s (settled writeIndex name : Call G Bool) =
      .ok (decide (0 ≤ writeIndex) && s.contains name) := by
  rw [settled]
  split
  · next h => rw [view_blobExists, decide_eq_true h, Bool.true_and]
  · next h => rw [decide_eq_false h]; rfl

theorem keeps_putWrite_recorded {C : Store → Prop} (guard : Option G) {taskId taskPath : String}
    {write : (String × V) × Nat} {m : Writes V} (hm : Recorded S t ns id base s m) (hs : C s)
    (hC : ∀ s', Recorded S t ns id base s' (Registers.write keepsFirst m
      (S.entry taskId taskPath write)) → C s') :
    Keeps C (putWrite S guard t ns id taskId taskPath write) (fun r s' => C s' ∧ ∀ u, r = .ok u →
      Recorded S t ns id base s' (Registers.write keepsFirst m (S.entry taskId taskPath write)))
      s := by
  let e := S.entry taskId taskPath write
  have hlook := looks_settled (G := G) e.1.2 (writeBlobPath t ns id e.1.1 e.1.2)
  refine keeps_look_bind hlook hs (fun there hview => ?_) fun _ _ => ⟨hs, fun _ h => by cases h⟩
  rw [view_settled] at hview
  change Except.ok (keepsFirst e.1 && s.contains (writeBlobPath t ns id e.1.1 e.1.2)) = _ at hview
  rw [hm.contains] at hview
  have hwrite : Registers.write keepsFirst m e = if there then m else m.set e.1 e.2 := by
    rw [Registers.write, ← Except.ok.inj hview]
  cases there with
  | true => exact ⟨hs, fun _ _ => by rw [hwrite]; exact hm⟩
  | false =>
    rw [if_neg (by simp)] at hwrite
    refine keeps_ofExcept_bind (fun dumped hdumped => ?_) fun _ _ => ⟨hs, fun _ h => by cases h⟩
    have hset (now : Int) : Recorded S t ns id base (s.set (writeBlobPath t ns id e.1.1 e.1.2)
        (uploaded dumped.2 (writeBlobMetadata dumped.1 write.1.1 taskId taskPath) now))
        (Registers.write keepsFirst m e) := by
      rw [hwrite]
      exact hm.set ⟨dumped, now, hdumped, rfl⟩
    exact keeps_guardedUpload hs (fun now => hC _ (hset now))
      (fun now => ⟨hC _ (hset now), fun _ _ => hset now⟩) fun _ => ⟨hs, fun _ h => by cases h⟩

theorem keeps_writes {C : Store → Prop} {guard : Option G} {taskId taskPath : String}
    {writes : List ((String × V) × Nat)} {m : Writes V} (hm : Recorded S t ns id base s m)
    (hC : ∀ l, l <+: writes → ∀ s', Recorded S t ns id base s'
      (Registers.writeAll keepsFirst m (l.map (S.entry taskId taskPath))) → C s') :
    Keeps C (writes.forM (putWrite S guard t ns id taskId taskPath)) (fun r s' => C s' ∧
      ∀ u, r = .ok u → Recorded S t ns id base s'
        (Registers.writeAll keepsFirst m (writes.map (S.entry taskId taskPath)))) s := by
  induction writes generalizing m s with
  | nil => exact ⟨hC [] List.nil_prefix s hm, fun _ _ => hm⟩
  | cons write writes ih =>
    change Keeps C (putWrite S guard t ns id taskId taskPath write >>= fun _ =>
      writes.forM (putWrite S guard t ns id taskId taskPath)) _ s
    have hfirst := keeps_putWrite_recorded guard hm (hC [] List.nil_prefix s hm)
      fun s' hs' => hC [write] ⟨writes, rfl⟩ s' hs'
    refine keeps_bind (hfirst.mono fun r s' h => ?_)
    cases r with
    | error e => exact ⟨h.1, fun _ h => by cases h⟩
    | ok u =>
      exact ih (h.2 u rfl) fun l hl => hC (write :: l) ((List.prefix_cons_inj write).mpr hl)

theorem get?_channel (serdeType channel taskId taskPath : String) :
    (writeBlobMetadata serdeType channel taskId taskPath).get? "channel" =
      some (Percent.quote channel) := rfl

theorem get?_taskId (serdeType channel taskId taskPath : String) :
    (writeBlobMetadata serdeType channel taskId taskPath).get? "task_id" =
      some (Percent.quote taskId) := rfl

theorem get?_taskPath (serdeType channel taskId taskPath : String) :
    (writeBlobMetadata serdeType channel taskId taskPath).get? "task_path" =
      some (Percent.quote taskPath) := rfl

theorem Recorded.view_loadPendingWrite (hS : S.serde.Lawful) {m : Writes V}
    (hm : Recorded S t ns id base s m) (loaded : List (PendingWrite V)) {blob : BlobItem}
    (hblob : blob ∈ items s (writesPrefix t ns id)) :
    ∃ k w, blob.name = writeBlobPath t ns id k.1 k.2 ∧ m.get? k = some w ∧
      view s (loadPendingWrite S (writesPrefix t ns id) loaded blob) =
        .ok (loaded ++ [pending (k, w)]) := by
  obtain ⟨name, hname, rfl⟩ := List.mem_map.mp hblob
  obtain ⟨hstart, b, hb⟩ := Container.mem_names.mp hname
  obtain ⟨k, rfl, hcontains⟩ := hm.named name b hb hstart
  obtain ⟨w, hw⟩ := Option.isSome_iff_exists.mp hcontains
  obtain ⟨b', hb', dumped, now, hdumped, rfl⟩ := hm.present k w hw
  have htyped : typedBlob (uploaded dumped.2 (writeBlobMetadata dumped.1 w.2.1 k.1 w.1) now) =
      some ⟨dumped.1, dumped.2, writeBlobMetadata dumped.1 w.2.1 k.1 w.1⟩ :=
    typedBlob_uploaded (get?_writeBlobMetadata ..) (hS.type_ne hdumped).1 now
  have hat : typedAt s (writeBlobPath t ns id k.1 k.2) =
      some ⟨dumped.1, dumped.2, writeBlobMetadata dumped.1 w.2.1 k.1 w.1⟩ := by
    rw [typedAt, hb', Option.bind_some, htyped]
  have hvalue : loadValue S ⟨dumped.1, dumped.2, writeBlobMetadata dumped.1 w.2.1 k.1 w.1⟩ =
      .ok w.2.2 := by
    simp only [loadValue, Prod.mk.eta, hS.loads hdumped]
  refine ⟨k, w, rfl, hw, ?_⟩
  simp only [loadPendingWrite, hstart, Bool.not_true, Bool.false_eq_true, if_false,
    parseWritePath_write]
  rw [view_bind ((view_downloadTypedBlob _).trans (congrArg _ hat))]
  simp only [get?_channel, get?_taskId, get?_taskPath, Option.getD_some, hvalue,
    Percent.unquote_quote, ite_self]
  rfl

theorem Recorded.view_loadPendingWrites (hS : S.serde.Lawful) {m : Writes V}
    (hm : Recorded S t ns id base s m) :
    view s (loadPendingWrites S t ns id) = .ok (readBack m) := by
  have hloaded (blobs : List BlobItem) (hblobs : blobs ⊆ items s (writesPrefix t ns id))
      (acc : List (PendingWrite V)) : ∃ loaded : List (PendingWrite V),
      view s (blobs.foldlM (loadPendingWrite S (writesPrefix t ns id)) acc) = .ok (acc ++ loaded) ∧
      blobs.map (·.name) = loaded.map (fun w => writeBlobPath t ns id w.taskId w.index) ∧
      ∀ w ∈ loaded, m.get? (w.taskId, w.index) = some (w.taskPath, w.channel, w.value) := by
    induction blobs generalizing acc with
    | nil => exact ⟨[], by rw [List.append_nil]; rfl, rfl, fun _ h => by cases h⟩
    | cons blob blobs ih =>
      obtain ⟨k, w, hname, hw, hview⟩ :=
        hm.view_loadPendingWrite hS acc (hblobs List.mem_cons_self)
      obtain ⟨loaded, hrest, hnames, hall⟩ :=
        ih (fun b hb => hblobs (List.mem_cons_of_mem _ hb)) (acc ++ [pending (k, w)])
      refine ⟨pending (k, w) :: loaded, ?_, ?_, ?_⟩
      · rw [List.foldlM_cons, view_bind hview, hrest, List.append_assoc]
        rfl
      · rw [List.map_cons, List.map_cons, hnames, hname]
        rfl
      · exact List.forall_mem_cons.mpr ⟨hw, hall⟩
  obtain ⟨loaded, hview, hnames, hall⟩ := hloaded _ (List.Subset.refl _) []
  rw [loadPendingWrites, view_bind (view_listBlobs _), view_bind hview, List.nil_append]
  have hitems : (items s (writesPrefix t ns id)).map (·.name) =
      Container.names s (writesPrefix t ns id) := by
    rw [items, List.map_map]
    exact List.map_id _
  rw [hitems] at hnames
  have hnodup : (loaded.map fun w => writeBlobPath t ns id w.taskId w.index).Nodup := by
    rw [← hnames]
    exact (Container.pairwise_names s _).imp fun h => h.ne
  refine congrArg Except.ok (sort_pending (List.Nodup.of_map _ hnodup) fun w => ⟨hall w, fun hw => ?_⟩)
  obtain ⟨b, hb, -⟩ := hm.present _ _ hw
  have hmem : writeBlobPath t ns id w.taskId w.index ∈
      Container.names s (writesPrefix t ns id) :=
    Container.mem_names.mpr ⟨startswith_writeBlobPath .., b, hb⟩
  rw [hnames] at hmem
  obtain ⟨w', hw', hname⟩ := List.mem_map.mp hmem
  have hkey : (w'.taskId, w'.index) = (w.taskId, w.index) := writeBlobPath_inj.mp hname
  have hsame := hall w' hw'
  rw [hkey, hw, Option.some_inj] at hsame
  cases w
  cases w'
  cases hkey
  cases hsame
  exact hw'

theorem readBack_congr {m m' : Writes V} (h : ∀ k, m.get? k = m'.get? k) :
    readBack m = readBack m' := by
  have hnodup : (m.items.map pending).Nodup := by
    refine List.Nodup.of_map (fun w => (w.taskId, w.index)) ?_
    rw [List.map_map]
    exact m.nodup
  exact sort_pending hnodup fun w => mem_pending.trans (by rw [h])

structure WriteCall (V G : Type) where
  asynchronous : Bool
  bound : Option G
  config : RunnableConfig G
  writes : List (String × V)
  taskId : String
  taskPath : String

def WriteCall.program (S : Saver V R G) (call : WriteCall V G) : Call G Unit :=
  if call.asynchronous then
    aputWrites S call.bound call.config call.writes call.taskId call.taskPath
  else putWrites S call.bound call.config call.writes call.taskId call.taskPath

def WriteCall.entries (S : Saver V R G) (call : WriteCall V G) :
    List ((String × Int) × (String × String × V)) :=
  call.writes.zipIdx.map (S.entry call.taskId call.taskPath)

inductive Calls (S : Saver V R G) (t ns id : String) (s : Store) :
    List (WriteCall V G × Bool) → Store → Prop
  | nil : Calls S t ns id s [] s
  | returned {calls : List (WriteCall V G × Bool)} {before after : Store} (call : WriteCall V G) :
      Calls S t ns id s calls before → Asks call.config t ns (some id) →
      Ends (call.program S) before (.ok ()) after →
      Calls S t ns id s (calls ++ [(call, true)]) after
  | stopped {calls : List (WriteCall V G × Bool)} {before after : Store} (call : WriteCall V G) :
      Calls S t ns id s calls before → Asks call.config t ns (some id) →
      Leads (call.program S) before after → Calls S t ns id s (calls ++ [(call, false)]) after

theorem WriteCall.keeps {C : Store → Prop} {call : WriteCall V G} {m : Writes V}
    (hasks : Asks call.config t ns (some id)) (hm : Recorded S t ns id base s m)
    (hC : ∀ l, l <+: call.entries S → ∀ s', Recorded S t ns id base s'
      (Registers.writeAll keepsFirst m l) → C s') :
    Keeps C (call.program S) (fun r s' => C s' ∧ ∀ u, r = .ok u → Recorded S t ns id base s'
      (Registers.writeAll keepsFirst m (call.entries S))) s := by
  have hprogram : call.program S =
      putWrites S call.bound call.config call.writes call.taskId call.taskPath := by
    rw [WriteCall.program]
    split <;> rfl
  have hs : C s := hC [] List.nil_prefix s hm
  have herror (e : Exn) (u : Unit) (h : (Except.error e : Except Exn Unit) = .ok u) :
      Recorded S t ns id base s (Registers.writeAll keepsFirst m (call.entries S)) := by cases h
  rw [hprogram]
  refine keeps_ofExcept_bind (fun guard _ => ?_) fun e _ => ⟨hs, herror e⟩
  refine keeps_ofExcept_bind (fun t' ht => ?_) fun e _ => ⟨hs, herror e⟩
  refine keeps_ofExcept_bind (fun ns' hns => ?_) fun e _ => ⟨hs, herror e⟩
  refine keeps_ofExcept_bind (fun asked hid => ?_) fun e _ => ⟨hs, herror e⟩
  rw [hasks.threadId] at ht
  rw [hasks.ns] at hns
  rw [hasks.checkpointId] at hid
  cases ht
  cases hns
  cases hid
  exact keeps_writes hm fun l hl s' hs' => hC _ (hl.map _) s' hs'

theorem WriteCall.leads {call : WriteCall V G} {m : Writes V}
    (hasks : Asks call.config t ns (some id)) (hm : Recorded S t ns id base s m)
    (h : Leads (call.program S) s s') : ∃ l, l <+: call.entries S ∧
      Recorded S t ns id base s' (Registers.writeAll keepsFirst m l) :=
  h.keeps (C := fun s' => ∃ l, l <+: call.entries S ∧
    Recorded S t ns id base s' (Registers.writeAll keepsFirst m l))
    (call.keeps hasks hm fun l hl _ hs' => ⟨l, hl, hs'⟩) ⟨[], List.nil_prefix, hm⟩

theorem WriteCall.ends {call : WriteCall V G} {m : Writes V}
    (hasks : Asks call.config t ns (some id)) (hm : Recorded S t ns id base s m)
    (h : Ends (call.program S) s (.ok ()) s') :
    Recorded S t ns id base s' (Registers.writeAll keepsFirst m (call.entries S)) :=
  (h.keeps (call.keeps hasks hm (C := fun _ => True) fun _ _ _ _ => trivial)).2 () rfl

/-- What has been written of each call: a beginning, and all of it where the call has returned. -/
def Cuts (S : Saver V R G) (calls : List (WriteCall V G × Bool))
    (cuts : List (List ((String × Int) × (String × String × V)))) : Prop :=
  List.Forall₂ (fun call cut => cut <+: call.1.entries S ∧
    (call.2 = true → cut = call.1.entries S)) calls cuts

theorem Calls.recorded {calls : List (WriteCall V G × Bool)} (h : Calls S t ns id s calls s')
    (hfresh : Container.names s (writesPrefix t ns id) = []) :
    ∃ cuts, Cuts S calls cuts ∧
      Recorded S t ns id s s' (Registers.writeAll keepsFirst ∅ cuts.flatten) := by
  induction h with
  | nil => exact ⟨[], .nil, recorded_fresh hfresh⟩
  | returned call _ hasks hends ih =>
    obtain ⟨cuts, hcuts, hm⟩ := ih
    refine ⟨cuts ++ [call.entries S], List.rel_append hcuts
      (.cons ⟨List.prefix_rfl, fun _ => rfl⟩ .nil), ?_⟩
    rw [List.flatten_append, Registers.writeAll_append, List.flatten_singleton]
    exact call.ends hasks hm hends
  | stopped call _ hasks hleads ih =>
    obtain ⟨cuts, hcuts, hm⟩ := ih
    obtain ⟨cut, hcut, hm⟩ := call.leads hasks hm hleads
    refine ⟨cuts ++ [cut], List.rel_append hcuts (.cons ⟨hcut, fun h => by cases h⟩ .nil), ?_⟩
    rw [List.flatten_append, Registers.writeAll_append, List.flatten_singleton]
    exact hm

theorem WriteCall.again {call : WriteCall V G} {m : Writes V}
    (hasks : Asks call.config t ns (some id)) (hm : Recorded S t ns id base s m) {s₁ s₂ : Store}
    (hcut : Relation.ReflTransGen (Leads (call.program S)) s s₁)
    (hagain : Ends (call.program S) s₁ (.ok ()) s₂) : ∃ m', Recorded S t ns id base s₂ m' ∧
      ∀ k, m'.get? k = (Registers.writeAll keepsFirst m (call.entries S)).get? k := by
  have hpartial : ∃ m', Recorded S t ns id base s₁ m' ∧ ∀ k,
      (Registers.writeAll keepsFirst m' (call.entries S)).get? k =
        (Registers.writeAll keepsFirst m (call.entries S)).get? k := by
    clear hagain
    induction hcut with
    | refl => exact ⟨m, hm, fun _ => rfl⟩
    | tail _ hleads ih =>
      obtain ⟨m', hm', hsame⟩ := ih
      obtain ⟨cut, hcut, hm'⟩ := call.leads hasks hm' hleads
      exact ⟨_, hm', fun k => (Registers.get?_writeAll_again m' hcut k).trans (hsame k)⟩
  obtain ⟨m', hm', hsame⟩ := hpartial
  exact ⟨_, call.ends hasks hm' hagain, hsame⟩

structure Gets (s : Store) (config : RunnableConfig G) (t ns id : String) : Prop where
  committed : Committed s t ns id
  asks : (id ≠ "" ∧ Asks config t ns (some id)) ∨
    ∃ asked, asked.getD "" = "" ∧ Asks config t ns asked ∧ Latest s t ns id

theorem startswith_checkpointsPrefix_of_writes {name : String}
    (h : Names.startswith name (writesPrefix t ns id)) :
    Names.startswith name (checkpointsPrefix t ns) := by
  have hbase := startswith_writesPrefix h
  simp only [checkpointBasePrefix, String.append_assoc] at hbase
  exact Names.startswith_append (checkpointsPrefix t ns) hbase

theorem Recorded.get? {m : Writes V} (hm : Recorded S t ns id base s m) {k : Key}
    (hk : ∀ taskId writeIndex, k ≠ .write t ns id taskId writeIndex) :
    base.get? k.path = s.get? k.path :=
  hm.agree _ fun h => by
    obtain ⟨taskId, writeIndex, rfl⟩ := Key.startswith_writesPrefix.mp h
    exact hk _ _ rfl

theorem Recorded.committed {m : Writes V} (hm : Recorded S t ns id base s m) (id' : String) :
    Committed base t ns id' ↔ Committed s t ns id' := by
  rw [Committed, Committed, Stored, Stored, hm.get? (by simp)]

theorem Recorded.typedAt {m : Writes V} (hm : Recorded S t ns id base s m) {k : Key}
    (hk : ∀ taskId writeIndex, k ≠ .write t ns id taskId writeIndex) :
    AzureBlob.typedAt s k.path = AzureBlob.typedAt base k.path := by
  rw [AzureBlob.typedAt, AzureBlob.typedAt, hm.get? hk]

theorem Recorded.view_buildTuple (hS : S.serde.Lawful) (hs : Sound S base) {m : Writes V}
    (hm : Recorded S t ns id base s m) (hc : Committed base t ns id) (config : RunnableConfig G) :
    ∃ tuple, view base (buildTuple S t ns id config) = .ok (some tuple) ∧
      view s (buildTuple S t ns id config) =
        .ok (some { tuple with pendingWrites := readBack m }) := by
  obtain ⟨typed, mtyped, data, values, metadata, writes, hat, hdata, hvalues, hmat, hmetadata,
    hwrites⟩ := hs.pieces hc
  have hat' : AzureBlob.typedAt s (checkpointBlobPath t ns id) = some typed :=
    (hm.typedAt (k := .checkpoint t ns id) (by simp)).trans hat
  have hmat' : AzureBlob.typedAt s (metadataBlobPath t ns id) = some mtyped :=
    (hm.typedAt (k := .metadata t ns id) (by simp)).trans hmat
  have hlooks : Looks (Names.startswith · (valuesPrefix t ns))
      (loadChannelValues S t ns data.channelVersions) :=
    Prog.uses_foldlM _ fun values entry _ => looks_loadChannelValue S values entry
  have hvalues' : view s (loadChannelValues S t ns data.channelVersions) = .ok values := by
    refine (view_congr hlooks fun name hname => hm.agree name fun h => ?_).symm.trans hvalues
    exact not_decisive_of_value hname t ns (.inl (startswith_checkpointsPrefix_of_writes h))
  exact ⟨_, AzureBlob.view_buildTuple hat hdata hvalues hmat hmetadata hwrites config,
    AzureBlob.view_buildTuple hat' hdata hvalues' hmat' hmetadata (hm.view_loadPendingWrites hS)
      config⟩

theorem Recorded.view_getTuple (hS : S.serde.Lawful) (hs : Sound S base) (hs' : Sound S s)
    {m : Writes V} (hm : Recorded S t ns id base s m) {config : RunnableConfig G}
    (h : Gets base config t ns id) : ∃ tuple, view base (getTuple S config) = .ok (some tuple) ∧
      view s (getTuple S config) = .ok (some { tuple with pendingWrites := readBack m }) := by
  obtain ⟨hc, ⟨hid, hasks⟩ | ⟨asked, hasked, hasks, hlatest⟩⟩ := h
  · rw [AzureBlob.view_getTuple hasks hid, AzureBlob.view_getTuple hasks hid]
    exact hm.view_buildTuple hS hs hc config
  · have hlatest' : Latest s t ns id :=
      ⟨(hm.committed id).mp hc, fun id' h => hlatest.2 id' ((hm.committed id').mpr h)⟩
    rw [hs.view_latest hasks hasked hlatest, hs'.view_latest hasks hasked hlatest']
    exact hm.view_buildTuple hS hs hc _

theorem WriteCall.reachable {call : WriteCall V G} (h : Reachable S s)
    (hleads : Leads (call.program S) s s') : Reachable S s' :=
  h.step (.putWrites call.bound call.config call.writes call.taskId call.taskPath) (by
    rw [WriteCall.program] at hleads
    split at hleads <;> exact hleads)

theorem Calls.reachable {calls : List (WriteCall V G × Bool)} (h : Calls S t ns id s calls s')
    (hs : Reachable S s) : Reachable S s' := by
  induction h with
  | nil => exact hs
  | returned call _ _ hends ih => exact call.reachable ih hends.leads
  | stopped call _ _ hleads ih => exact call.reachable ih hleads

/-- After any calls on a checkpoint, stopped or not, its pending writes are those of the map that
they write to; and a call that is made again until it returns leaves those of one call. -/
theorem pendingWrites_exact (hS : S.serde.Lawful) (hs : Reachable S s)
    (hfresh : Container.names s (writesPrefix t ns id) = [])
    {calls : List (WriteCall V G × Bool)} (hcalls : Calls S t ns id s calls s') :
    (∃ cuts, Cuts S calls cuts ∧ ∀ config, Gets s config t ns id → ∃ tuple,
      view s (getTuple S config) = .ok (some tuple) ∧
      view s' (getTuple S config) = .ok (some { tuple with
        pendingWrites := readBack (Registers.writeAll keepsFirst ∅ cuts.flatten) })) ∧
    ∀ (call : WriteCall V G) s₁ s₂ s₃, Asks call.config t ns (some id) →
      Relation.ReflTransGen (Leads (call.program S)) s' s₁ →
      Ends (call.program S) s₁ (.ok ()) s₂ → Ends (call.program S) s' (.ok ()) s₃ →
      ∀ config, Gets s config t ns id → ∃ tuple,
        view s₂ (getTuple S config) = .ok (some tuple) ∧
        view s₃ (getTuple S config) = .ok (some tuple) := by
  obtain ⟨cuts, hcuts, hm⟩ := hcalls.recorded hfresh
  have hreach := hcalls.reachable hs
  refine ⟨⟨cuts, hcuts, fun config h => hm.view_getTuple hS (hs.sound hS) (hreach.sound hS) h⟩, ?_⟩
  intro call s₁ s₂ s₃ hasks hcut hagain honce config h
  have hreach₁ : Reachable S s₁ := by
    clear hagain
    induction hcut with
    | refl => exact hreach
    | tail _ hleads ih => exact call.reachable ih hleads
  obtain ⟨m', hm₂, hsame⟩ := call.again hasks hm hcut hagain
  have hm₃ := call.ends hasks hm honce
  obtain ⟨tuple, htuple, hview₂⟩ := hm₂.view_getTuple hS (hs.sound hS)
    ((call.reachable hreach₁ hagain.leads).sound hS) h
  obtain ⟨tuple', htuple', hview₃⟩ := hm₃.view_getTuple hS (hs.sound hS)
    ((call.reachable hreach honce.leads).sound hS) h
  rw [htuple] at htuple'
  cases htuple'
  rw [readBack_congr hsame] at hview₂
  exact ⟨_, hview₂, hview₃⟩

def unwritten : Store := TextSerde.rehearse [TextSerde.putOf "t" "" "a" ∅ ∅] ∅

def someWrites : WriteCall String Empty where
  asynchronous := true
  bound := none
  config := checkpointConfig "t" "" "a"
  writes := [("x", "1"), ("__interrupt__", "2"), ("__resume__", "3"), ("__interrupt__", "4")]
  taskId := "task"
  taskPath := ""

theorem pendingWrites_exact_someWrites : ∃ s' tuple,
    Ends (someWrites.program TextSerde.textSaver) unwritten (.ok ()) s' ∧
    view s' (getTuple TextSerde.textSaver (checkpointConfig "t" "" "a" : RunnableConfig Empty)) =
      .ok (some tuple) ∧
    tuple.pendingWrites = [("task", "__resume__", "3"), ("task", "__interrupt__", "4"),
      ("task", "x", "1")] := by
  have hok : ((someWrites.program TextSerde.textSaver).run (serve (fun _ => .ok ()) 0)
      unwritten).1.isOk := by decide +kernel
  have hends : Ends (someWrites.program TextSerde.textSaver) unwritten (.ok ())
      ((someWrites.program TextSerde.textSaver).run (serve (fun _ => .ok ()) 0) unwritten).2 := by
    have hrun := ends_run (fun _ => .ok ()) 0 (someWrites.program TextSerde.textSaver) unwritten
    cases hresult : ((someWrites.program TextSerde.textSaver).run (serve (fun _ => .ok ()) 0)
      unwritten).1 with
    | ok u => rw [hresult] at hrun; exact hrun
    | error e => rw [hresult] at hok; cases hok
  have hreach : Reachable TextSerde.textSaver unwritten := TextSerde.reachable_rehearse .empty _
  have hfresh : Container.names unwritten (writesPrefix "t" "" "a") = [] := by decide +kernel
  have hgets : Gets unwritten (checkpointConfig "t" "" "a" : RunnableConfig Empty) "t" "" "a" :=
    ⟨((hreach.sound TextSerde.lawful_textSerde).named.mem_checkpointIds).mp (by decide +kernel),
      .inl ⟨by decide, ⟨rfl, rfl, rfl⟩⟩⟩
  obtain ⟨⟨cuts, hcuts, hread⟩, -⟩ := pendingWrites_exact TextSerde.lawful_textSerde hreach hfresh
    (.returned someWrites .nil ⟨rfl, rfl, rfl⟩ hends)
  obtain ⟨tuple, -, hview⟩ := hread _ hgets
  have hcut : cuts = [someWrites.entries TextSerde.textSaver] := by
    cases hcuts with
    | cons hcut hrest =>
      cases hrest
      rw [hcut.2 rfl]
  have hback : readBack (Registers.writeAll keepsFirst ∅ cuts.flatten) =
      [("task", "__resume__", "3"), ("task", "__interrupt__", "4"), ("task", "x", "1")] := by
    rw [hcut]
    decide +kernel
  exact ⟨_, _, hends, hview, hback⟩

end LangGraphFunctions.Checkpointers.AzureBlob

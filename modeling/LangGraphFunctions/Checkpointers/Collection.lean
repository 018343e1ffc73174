import LangGraphFunctions.Checkpointers.BlobTuples

/-! What the collection of orphaned values finds and deletes. -/

namespace LangGraphFunctions.Checkpointers.AzureBlob

open Lib

variable {V R G : Type} {S : Saver V R G} {s s' : Store} {t ns id : String} {C : Store → Prop}

def loadedAt (S : Saver V R G) (s : Store) (t ns id : String) : Option (CheckpointData R) :=
  (typedAt s (checkpointBlobPath t ns id)).bind fun typed => (loadCheckpoint S typed).toOption

def references (data : CheckpointData R) : List (String × String) :=
  data.channelVersions.items.map fun e => (e.1, e.2.text)

def retainedAt (S : Saver V R G) (s : Store) (t ns : String) : Option (List (String × String)) :=
  (checkpointIds s t ns).foldlM (fun retained id =>
    (loadedAt S s t ns id).map fun data => retained ++ references data) []

theorem view_collectRetained (retained : Option (List (String × String))) (id : String) :
    view s (collectRetained S t ns retained id) = .ok (retained.bind fun retained =>
      (loadedAt S s t ns id).map fun data => retained ++ references data) := by
  cases retained with
  | none => rfl
  | some retained =>
    rw [collectRetained, view_bind (view_downloadTypedBlob _), Option.bind_some, loadedAt]
    cases typedAt s (checkpointBlobPath t ns id) with
    | none => rfl
    | some typed =>
      simp only [Option.bind_some]
      cases loadCheckpoint S typed <;> rfl

theorem view_collectRetainedVersions (t ns : String) :
    view s (collectRetainedVersions S t ns) = .ok (retainedAt S s t ns) := by
  have hfold (ids : List String) (retained : Option (List (String × String))) :
      view s (ids.foldlM (collectRetained S t ns) retained) = .ok (retained.bind fun retained =>
        ids.foldlM (fun retained id => (loadedAt S s t ns id).map fun data =>
          retained ++ references data) retained) := by
    induction ids generalizing retained with
    | nil => cases retained <;> rfl
    | cons id ids ih =>
      rw [List.foldlM_cons, view_bind (view_collectRetained retained id), ih]
      cases retained <;> rfl
  rw [collectRetainedVersions, view_bind (view_listCheckpointIds t ns), hfold]
  rfl

theorem foldlM_references {ids : List String} {retained l : List (String × String)}
    (h : ids.foldlM (fun retained id => (loadedAt S s t ns id).map fun data =>
      retained ++ references data) retained = some l) (p : String × String) :
    p ∈ l ↔ p ∈ retained ∨ ∃ id ∈ ids, ∃ data, loadedAt S s t ns id = some data ∧
      p ∈ references data := by
  induction ids generalizing retained with
  | nil =>
    cases h
    simp
  | cons id ids ih =>
    rw [List.foldlM_cons] at h
    obtain ⟨retained', hretained, h⟩ := Option.bind_eq_some_iff.mp h
    obtain ⟨data, hdata, rfl⟩ := Option.map_eq_some_iff.mp hretained
    rw [ih h, List.mem_append]
    simp only [List.mem_cons, exists_eq_or_imp, hdata, Option.some_inj, exists_eq_left', or_assoc]

theorem foldlM_references_none {ids : List String} {retained : List (String × String)} :
    ids.foldlM (fun retained id => (loadedAt S s t ns id).map fun data =>
      retained ++ references data) retained = none ↔ ∃ id ∈ ids, loadedAt S s t ns id = none := by
  induction ids generalizing retained with
  | nil => simp
  | cons id ids ih =>
    rw [List.foldlM_cons]
    cases hloaded : loadedAt S s t ns id with
    | none => simp [hloaded]
    | some data =>
      simp only [Option.map_some, Option.bind_eq_bind, Option.bind_some, ih, List.mem_cons,
        exists_eq_or_imp, hloaded, reduceCtorEq, false_or]

def Referenced (S : Saver V R G) (s : Store) (t ns channel version : String) : Prop :=
  ∃ id data, Committed s t ns id ∧ loadedAt S s t ns id = some data ∧
    ∃ v, data.channelVersions.get? channel = some v ∧ v.text = version

theorem Named.mem_retainedAt (hs : Named s) {l : List (String × String)}
    (h : retainedAt S s t ns = some l) (channel version : String) :
    (channel, version) ∈ l ↔ Referenced S s t ns channel version := by
  rw [foldlM_references h, or_iff_right List.not_mem_nil]
  constructor
  · rintro ⟨id, hid, data, hdata, hmem⟩
    obtain ⟨e, he, heq⟩ := List.mem_map.mp hmem
    cases heq
    exact ⟨id, data, hs.mem_checkpointIds.mp hid, hdata, e.2, Dict.get?_eq_some_iff.mpr he, rfl⟩
  · rintro ⟨id, data, hc, hdata, v, hv, rfl⟩
    refine ⟨id, hs.mem_checkpointIds.mpr hc, data, hdata, ?_⟩
    exact List.mem_map.mpr ⟨_, Dict.get?_eq_some_iff.mp hv, rfl⟩

theorem Named.retainedAt_eq_none (hs : Named s) :
    retainedAt S s t ns = none ↔ ∃ id, Committed s t ns id ∧ loadedAt S s t ns id = none := by
  rw [retainedAt, foldlM_references_none]
  exact exists_congr fun id => and_congr_left fun _ => hs.mem_checkpointIds

def valueBlobs (s : Store) (t ns : String) : List (String × Option (String × String) × Option Int) :=
  (items s (valuesPrefix t ns)).map fun blob =>
    (blob.name, parseValueBlobPath t ns blob.name, blob.lastModified)

def orphansAt (retained : List (String × String)) (s : Store) (t ns : String) (cutoff : Int)
    (recent : Bool) : List String :=
  (((valueBlobs s t ns).filter fun blob => isOrphan retained blob.2.1).filter fun blob =>
    isRecent cutoff blob.2.2 == recent).map (·.1)

/-- What the collection deletes of a namespace. -/
def garbage (S : Saver V R G) (s : Store) (t : String) (cutoff : Int) (ns : String) : List String :=
  match latestAt s t ns, retainedAt S s t ns with
  | some _, some retained => orphansAt retained s t ns cutoff false
  | _, _ => []

def postponed (S : Saver V R G) (s : Store) (t : String) (cutoff : Int) (ns : String) : List String :=
  match latestAt s t ns, retainedAt S s t ns with
  | some _, some retained => orphansAt retained s t ns cutoff true
  | _, _ => []

/-- The survivors of the namespace cannot be trusted. -/
def untrusted (S : Saver V R G) (s : Store) (t ns : String) : Bool :=
  (latestAt s t ns).isNone || (retainedAt S s t ns).isNone

def removed (S : Saver V R G) (s : Store) (t : String) (cutoff : Int) (dryRun : Bool) (ns : String) :
    List String :=
  if dryRun then [] else garbage S s t cutoff ns

def collected (S : Saver V R G) (s : Store) (t : String) (cutoff : Int) (dryRun : Bool)
    (nss : List String) : OrphanedValueCollectionResult where
  dryRun
  wouldDelete := nss.flatMap (garbage S s t cutoff)
  deleted := nss.flatMap (removed S s t cutoff dryRun)
  skippedNamespaces := (nss.filter (untrusted S s t)).map (t, ·)
  skippedRecent := nss.flatMap (postponed S s t cutoff)

attribute [local irreducible] parseValueBlobPath

theorem mem_valueBlobs {blob : String × Option (String × String) × Option Int}
    (h : blob ∈ valueBlobs s t ns) : blob.1 ∈ Container.names s (valuesPrefix t ns) ∧
      blob.2.1 = parseValueBlobPath t ns blob.1 ∧
      blob.2.2 = (s.get? blob.1).bind (·.lastModified) := by
  obtain ⟨item, hitem, rfl⟩ := List.mem_map.mp h
  obtain ⟨name, hname, rfl⟩ := List.mem_map.mp hitem
  exact ⟨hname, rfl, rfl⟩

theorem mem_orphansAt {retained : List (String × String)} {cutoff : Int} {recent : Bool}
    {name : String} : name ∈ orphansAt retained s t ns cutoff recent ↔
      name ∈ Container.names s (valuesPrefix t ns) ∧
      isOrphan retained (parseValueBlobPath t ns name) ∧
      isRecent cutoff ((s.get? name).bind (·.lastModified)) = recent := by
  simp only [orphansAt, List.mem_map, List.mem_filter, beq_iff_eq]
  constructor
  · rintro ⟨blob, ⟨⟨hmem, horphan⟩, hrecent⟩, rfl⟩
    obtain ⟨hname, hparse, hmodified⟩ := mem_valueBlobs hmem
    rw [hparse] at horphan
    rw [hmodified] at hrecent
    exact ⟨hname, horphan, hrecent⟩
  · rintro ⟨hname, horphan, hrecent⟩
    exact ⟨_, ⟨⟨List.mem_map.mpr ⟨_, List.mem_map.mpr ⟨name, hname, rfl⟩, rfl⟩, horphan⟩, hrecent⟩, rfl⟩

theorem startswith_garbage {cutoff : Int} {name : String} (h : name ∈ garbage S s t cutoff ns) :
    Names.startswith name (valuesPrefix t ns) := by
  rw [garbage] at h
  split at h
  · exact Container.startswith_of_mem_names (mem_orphansAt.mp h).1
  · exact absurd h List.not_mem_nil

def Decisive (t ns name : String) : Prop :=
  Names.startswith name (checkpointsPrefix t ns) ∨ name = latestBlobPath t ns

theorem not_decisive_of_value {name : String} (h : Names.startswith name (valuesPrefix t ns))
    (t' ns' : String) : ¬ Decisive t' ns' name := by
  have hplain (top : String) (htop : '/' ∉ top.toList) (t ns : String) :
      Names.Plain '/' (namespaceSegments t ns ++ [top]) :=
    (plain_namespaceSegments t ns).append fun s hs => List.mem_singleton.mp hs ▸ htop
  rw [valuesPrefix_eq] at h
  rintro (h' | rfl)
  · rw [checkpointsPrefix_eq] at h'
    have hsegments := Names.directory_unique (hplain "values" (by decide) t ns)
      (hplain "checkpoints" (by decide) t' ns') rfl h h'
    exact absurd hsegments (by simp [namespaceSegments])
  · rw [← valuesPrefix_eq] at h
    obtain ⟨_, _, hkey⟩ := Key.startswith_valuesPrefix (k := .latest t' ns').mp h
    cases hkey

theorem looks_collectRetained (retained : Option (List (String × String))) (id : String) :
    Looks (Decisive t ns) (collectRetained S t ns retained id) := by
  cases retained with
  | none => exact looks_ret _
  | some retained =>
    have hname : Decisive t ns (checkpointBlobPath t ns id) :=
      .inl (Key.startswith_checkpointsPrefix (k := .checkpoint t ns id).mpr ⟨rfl, rfl, rfl⟩)
    refine looks_bind (looks_downloadTypedBlob hname) fun blob => ?_
    cases blob with
    | none => exact looks_ret _
    | some blob =>
      dsimp only
      split <;> exact looks_ret _

theorem looks_collectRetainedVersions (t ns : String) :
    Looks (Decisive t ns) (collectRetainedVersions S t ns) :=
  looks_bind (looks_listCheckpointIds fun _ h => .inl h) fun _ =>
    Prog.uses_foldlM _ fun retained id _ => looks_collectRetained retained id

theorem retainedAt_congr (h : Container.Agree (Decisive t ns) s s') :
    retainedAt S s t ns = retainedAt S s' t ns := by
  have hview := view_congr (looks_collectRetainedVersions (S := S) t ns) h
  rw [view_collectRetainedVersions, view_collectRetainedVersions] at hview
  exact Except.ok.inj hview

theorem latestAt_congr (h : Container.Agree (Decisive t ns) s s') :
    latestAt s t ns = latestAt s' t ns := by
  rw [latestAt, latestAt, h _ (.inr rfl)]

theorem agree_values {names : List String}
    (h : ∀ name ∈ names, ∃ ns, Names.startswith name (valuesPrefix t ns)) (t' ns' : String) :
    Container.Agree (Decisive t' ns') s (Container.eraseAll s names) :=
  Container.agree_eraseAll (fun name hname => by
    obtain ⟨ns, hns⟩ := h name hname
    exact not_decisive_of_value hns t' ns') s

theorem garbage_eraseAll {names : List String} {cutoff : Int}
    (h : ∀ name ∈ names, ∃ ns', ns' ≠ ns ∧ Names.startswith name (valuesPrefix t ns')) :
    garbage S (Container.eraseAll s names) t cutoff ns = garbage S s t cutoff ns ∧
    postponed S (Container.eraseAll s names) t cutoff ns = postponed S s t cutoff ns ∧
    untrusted S (Container.eraseAll s names) t ns = untrusted S s t ns := by
  have hagree := agree_values (s := s) (fun name hname => (h name hname).imp fun _ h => h.2) t ns
  have hvalues : Container.Agree (Names.startswith · (valuesPrefix t ns)) s
      (Container.eraseAll s names) := by
    refine Container.agree_eraseAll (fun name hname hstart => ?_) s
    obtain ⟨ns', hne, hstart'⟩ := h name hname
    rw [valuesPrefix] at hstart hstart'
    exact hne (namespacePrefix_unique (Names.startswith_append (namespacePrefix t ns') hstart')
      (Names.startswith_append (namespacePrefix t ns) hstart)).2
  have horphans (retained : List (String × String)) (recent : Bool) :
      orphansAt retained (Container.eraseAll s names) t ns cutoff recent =
        orphansAt retained s t ns cutoff recent := by
    have hitems : items (Container.eraseAll s names) (valuesPrefix t ns) =
        items s (valuesPrefix t ns) := by
      rw [items, items, ← hvalues.names fun _ h => h]
      refine List.map_congr_left fun name hname => ?_
      rw [hvalues name (Container.startswith_of_mem_names hname)]
    rw [orphansAt, orphansAt, valueBlobs, valueBlobs, hitems]
  simp only [garbage, postponed, untrusted, ← latestAt_congr hagree, ← retainedAt_congr hagree,
    horphans, and_self]

theorem keeps_deleteOrphans {result : OrphanedValueCollectionResult} {h : String}
    {retained : List (String × String)} {names : List String}
    {Q : Except Exn (OrphanedValueCollectionResult × Bool) → Store → Prop}
    (hlatest : latestAt s t ns = some h) (hretained : retainedAt S s t ns = some retained)
    (hnames : ∀ name ∈ names, Names.startswith name (valuesPrefix t ns) ∧
      isOrphan retained (parseValueBlobPath t ns name))
    (hC : ∀ l, l <+: names → C (Container.eraseAll s l))
    (hok : Q (.ok ({ result with deleted := result.deleted ++ names }, false))
      (Container.eraseAll s names)) :
    Keeps C (names.foldlM (deleteOrphan S t ns) (result, false)) Q s := by
  induction names generalizing s result with
  | nil =>
    rw [List.append_nil] at hok
    exact hok
  | cons name names ih =>
    obtain ⟨⟨hstart, horphan⟩, hrest⟩ := List.forall_mem_cons.mp hnames
    have hagree : Container.Agree (Decisive t ns) s (Container.eraseAll s [name]) :=
      agree_values (fun x hx => ⟨ns, List.mem_singleton.mp hx ▸ hstart⟩) t ns
    have hs := hC [] List.nil_prefix
    have htail : Keeps C (names.foldlM (deleteOrphan S t ns)
        ({ result with deleted := result.deleted ++ [name] }, false)) Q (s.erase name) := by
      refine ih ((latestAt_congr hagree).symm.trans hlatest)
        ((retainedAt_congr hagree).symm.trans hretained) hrest (fun l hl => ?_) ?_
      · exact hC (name :: l) ((List.prefix_cons_inj name).mpr hl)
      · rw [List.append_assoc]
        exact hok
    have hretains : isRetained retained (parseValueBlobPath t ns name) = false := by
      cases hparse : parseValueBlobPath t ns name with
      | none => rfl
      | some channelVersion =>
        rw [hparse, isOrphan, Bool.not_eq_true'] at horphan
        exact horphan
    have hdelete : Keeps C (deleteBlobIfThere name >>= fun _ =>
        (return ({ result with deleted := result.deleted ++ [name] }, false) : Call G _))
        (Prog.Post service Eq (fun _ _ _ s' => C s') Q (names.foldlM (deleteOrphan S t ns))) s :=
      keeps_bind (keeps_deleteBlobIfThere hs (hC [name] ⟨names, rfl⟩) htail)
    rw [List.foldlM_cons]
    refine Prog.safe_bind.mpr ?_
    refine keeps_look_bind (looks_readLatestCheckpointId (N := fun _ => True) trivial) hs
      (fun latest hview => ?_) fun e he => ?_
    · rw [view_readLatestCheckpointId, hlatest] at hview
      cases hview
      refine keeps_look_bind (looks_collectRetainedVersions t ns) hs (fun fresh hview => ?_)
        fun e he => ?_
      · rw [view_collectRetainedVersions, hretained] at hview
        cases hview
        simp only [hretains, Bool.false_eq_true, if_false]
        exact hdelete
      · rw [view_collectRetainedVersions] at he
        cases he
    · rw [view_readLatestCheckpointId] at he
      cases he

def OrphanedValueCollectionResult.step (result : OrphanedValueCollectionResult) (S : Saver V R G)
    (s : Store) (t : String) (cutoff : Int) (ns : String) : OrphanedValueCollectionResult :=
  { result with
    wouldDelete := result.wouldDelete ++ garbage S s t cutoff ns
    deleted := result.deleted ++ removed S s t cutoff result.dryRun ns
    skippedNamespaces := result.skippedNamespaces ++ if untrusted S s t ns then [(t, ns)] else []
    skippedRecent := result.skippedRecent ++ postponed S s t cutoff ns }

theorem step_untrusted {result : OrphanedValueCollectionResult} {cutoff : Int}
    (h : untrusted S s t ns) : result.step S s t cutoff ns = result.skip t ns ∧
      removed S s t cutoff result.dryRun ns = [] := by
  have hnone : garbage S s t cutoff ns = [] ∧ postponed S s t cutoff ns = [] := by
    rw [untrusted, Bool.or_eq_true, Option.isNone_iff_eq_none, Option.isNone_iff_eq_none] at h
    rw [garbage, postponed]
    cases hlatest : latestAt s t ns with
    | none => exact ⟨rfl, rfl⟩
    | some h' =>
      rw [h.resolve_left (by rw [hlatest]; exact Option.some_ne_none _)]
      exact ⟨rfl, rfl⟩
  simp only [OrphanedValueCollectionResult.step, OrphanedValueCollectionResult.skip, removed, hnone,
    h, if_true, List.append_nil, ite_self, and_self]

theorem orphansAt_false (retained : List (String × String)) (cutoff : Int) :
    orphansAt retained s t ns cutoff false = (((valueBlobs s t ns).filter fun blob =>
      isOrphan retained blob.2.1).filter fun blob => !isRecent cutoff blob.2.2).map (·.1) := by
  simp only [orphansAt, beq_false]

theorem orphansAt_true (retained : List (String × String)) (cutoff : Int) :
    orphansAt retained s t ns cutoff true = (((valueBlobs s t ns).filter fun blob =>
      isOrphan retained blob.2.1).filter fun blob => isRecent cutoff blob.2.2).map (·.1) := by
  simp only [orphansAt, beq_true]

theorem view_listValueBlobs (t ns : String) :
    view s (listValueBlobs t ns : Call G _) = .ok (valueBlobs s t ns) := by
  rw [listValueBlobs, view_bind (view_listBlobs _)]
  rfl

theorem looks_listValueBlobs (t ns : String) :
    Looks (fun _ => True) (listValueBlobs t ns : Call G _) :=
  looks_listBlobs_bind (fun _ _ => trivial) fun _ _ => looks_ret _

theorem keeps_collectNamespace {result : OrphanedValueCollectionResult} {cutoff : Int}
    {Q : Except Exn OrphanedValueCollectionResult → Store → Prop}
    (hC : ∀ l, l <+: removed S s t cutoff result.dryRun ns → C (Container.eraseAll s l))
    (hok : Q (.ok (result.step S s t cutoff ns))
      (Container.eraseAll s (removed S s t cutoff result.dryRun ns))) :
    Keeps C (collectNamespace S t cutoff result ns) Q s := by
  have hs := hC [] List.nil_prefix
  have hskip (h : untrusted S s t ns) : Q (.ok (result.skip t ns)) s := by
    obtain ⟨hstep, hnone⟩ := @step_untrusted _ _ _ S s t ns result cutoff h
    rw [hstep, hnone] at hok
    exact hok
  refine keeps_look_bind (looks_readLatestCheckpointId (N := fun _ => True) trivial) hs
    (fun latest hview => ?_) fun e he => ?_
  · rw [view_readLatestCheckpointId, Except.ok.injEq] at hview
    cases latest with
    | none => exact hskip (by rw [untrusted, hview]; rfl)
    | some h =>
      refine keeps_look_bind (looks_collectRetainedVersions t ns) hs (fun retained hretained => ?_)
        fun e he => ?_
      · rw [view_collectRetainedVersions, Except.ok.injEq] at hretained
        cases retained with
        | none => exact hskip (by rw [untrusted, hretained, Bool.or_eq_true]; exact .inr rfl)
        | some retained =>
          have hgarbage : garbage S s t cutoff ns = orphansAt retained s t ns cutoff false := by
            rw [garbage, hview, hretained]
          have hpostponed : postponed S s t cutoff ns = orphansAt retained s t ns cutoff true := by
            rw [postponed, hview, hretained]
          have htrusted : untrusted S s t ns = false := by
            rw [untrusted, hview, hretained]
            rfl
          refine keeps_look_bind (looks_listValueBlobs t ns) hs (fun blobs hblobs => ?_) fun e he => ?_
          · rw [view_listValueBlobs, Except.ok.injEq] at hblobs
            subst hblobs
            simp only [← orphansAt_false, ← orphansAt_true]
            rw [OrphanedValueCollectionResult.step, htrusted] at hok
            rw [removed, hgarbage] at hC hok
            rw [hpostponed] at hok
            cases hdry : result.dryRun with
            | true =>
              simp only [hdry, if_true, Bool.false_eq_true, if_false, List.append_nil] at hok ⊢
              exact hok
            | false =>
              simp only [hdry, Bool.false_eq_true, if_false, List.append_nil] at hC hok ⊢
              refine keeps_bind (keeps_deleteOrphans hview hretained (fun name hname => ?_) hC hok)
              obtain ⟨hmem, horphan, -⟩ := mem_orphansAt.mp hname
              exact ⟨Container.startswith_of_mem_names hmem, horphan⟩
          · rw [view_listValueBlobs] at he
            cases he
      · rw [view_collectRetainedVersions] at he
        cases he
  · rw [view_readLatestCheckpointId] at he
    cases he

def OrphanedValueCollectionResult.over (result : OrphanedValueCollectionResult) (S : Saver V R G)
    (s : Store) (t : String) (cutoff : Int) (nss : List String) : OrphanedValueCollectionResult :=
  { result with
    wouldDelete := result.wouldDelete ++ nss.flatMap (garbage S s t cutoff)
    deleted := result.deleted ++ nss.flatMap (removed S s t cutoff result.dryRun)
    skippedNamespaces := result.skippedNamespaces ++ (nss.filter (untrusted S s t)).map (t, ·)
    skippedRecent := result.skippedRecent ++ nss.flatMap (postponed S s t cutoff) }

theorem over_cons (result : OrphanedValueCollectionResult) (cutoff : Int) (nss : List String) :
    result.over S s t cutoff (ns :: nss) =
      (result.step S s t cutoff ns).over S s t cutoff nss := by
  simp only [OrphanedValueCollectionResult.over, OrphanedValueCollectionResult.step,
    List.flatMap_cons, List.append_assoc, List.filter_cons]
  cases untrusted S s t ns <;> rfl

theorem removed_eraseAll {names : List String} {cutoff : Int} {dryRun : Bool}
    (h : ∀ name ∈ names, ∃ ns', ns' ≠ ns ∧ Names.startswith name (valuesPrefix t ns')) :
    removed S (Container.eraseAll s names) t cutoff dryRun ns = removed S s t cutoff dryRun ns := by
  rw [removed, removed, (garbage_eraseAll h).1]

theorem over_eraseAll (result : OrphanedValueCollectionResult) {cutoff : Int}
    {names nss : List String} (h : ∀ ns ∈ nss, ∀ name ∈ names,
      ∃ ns', ns' ≠ ns ∧ Names.startswith name (valuesPrefix t ns')) :
    result.over S (Container.eraseAll s names) t cutoff nss = result.over S s t cutoff nss ∧
      nss.flatMap (removed S (Container.eraseAll s names) t cutoff result.dryRun) =
        nss.flatMap (removed S s t cutoff result.dryRun) := by
  have hgarbage : nss.flatMap (garbage S (Container.eraseAll s names) t cutoff) =
      nss.flatMap (garbage S s t cutoff) :=
    List.flatMap_congr fun ns hns => (garbage_eraseAll (h ns hns)).1
  have hremoved : nss.flatMap (removed S (Container.eraseAll s names) t cutoff result.dryRun) =
      nss.flatMap (removed S s t cutoff result.dryRun) :=
    List.flatMap_congr fun ns hns => removed_eraseAll (h ns hns)
  have hpostponed : nss.flatMap (postponed S (Container.eraseAll s names) t cutoff) =
      nss.flatMap (postponed S s t cutoff) :=
    List.flatMap_congr fun ns hns => (garbage_eraseAll (h ns hns)).2.1
  have huntrusted : nss.filter (untrusted S (Container.eraseAll s names) t) =
      nss.filter (untrusted S s t) :=
    List.filter_congr fun ns hns => (@garbage_eraseAll _ _ _ S s t ns names cutoff (h ns hns)).2.2
  rw [OrphanedValueCollectionResult.over, OrphanedValueCollectionResult.over, hgarbage, hremoved,
    hpostponed, huntrusted]
  exact ⟨rfl, rfl⟩

theorem startswith_removed {cutoff : Int} {dryRun : Bool} {name : String}
    (h : name ∈ removed S s t cutoff dryRun ns) : Names.startswith name (valuesPrefix t ns) := by
  rw [removed] at h
  split at h
  · exact absurd h List.not_mem_nil
  · exact startswith_garbage h

theorem keeps_collectNamespaces {result : OrphanedValueCollectionResult} {cutoff : Int}
    {nss : List String} {Q : Except Exn OrphanedValueCollectionResult → Store → Prop}
    (hnss : nss.Nodup)
    (hC : ∀ l, l <+: nss.flatMap (removed S s t cutoff result.dryRun) → C (Container.eraseAll s l))
    (hok : Q (.ok (result.over S s t cutoff nss))
      (Container.eraseAll s (nss.flatMap (removed S s t cutoff result.dryRun)))) :
    Keeps C (nss.foldlM (collectNamespace S t cutoff) result) Q s := by
  induction nss generalizing s result with
  | nil =>
    simp only [OrphanedValueCollectionResult.over, List.flatMap_nil, List.filter_nil, List.map_nil,
      List.append_nil] at hok
    exact hok
  | cons ns nss ih =>
    obtain ⟨hns, hnss⟩ := List.nodup_cons.mp hnss
    rw [List.flatMap_cons] at hC hok
    rw [over_cons, Container.eraseAll_append] at hok
    have hother : ∀ ns' ∈ nss, ∀ name ∈ removed S s t cutoff result.dryRun ns,
        ∃ ns'', ns'' ≠ ns' ∧ Names.startswith name (valuesPrefix t ns'') :=
      fun ns' hns' name hname => ⟨ns, fun h => hns (by rwa [h]), startswith_removed hname⟩
    obtain ⟨hover, hremoved⟩ :=
      @over_eraseAll _ _ _ S s t (result.step S s t cutoff ns) cutoff _ _ hother
    rw [List.foldlM_cons]
    refine keeps_bind (keeps_collectNamespace (fun l hl => hC l (hl.trans (List.prefix_append _ _))) ?_)
    refine ih hnss (fun l hl => ?_) ?_
    · rw [hremoved] at hl
      rw [← Container.eraseAll_append]
      exact hC _ ((List.prefix_append_right_inj _).mpr hl)
    · rw [hover, hremoved]
      exact hok

theorem keeps_collectOrphanedValues {Q : Except Exn OrphanedValueCollectionResult → Store → Prop}
    {checkpointNs : Option String} {dryRun : Bool} {gracePeriodSeconds : Int}
    (hC : ∀ now l, l <+: (targets s t checkpointNs).flatMap
      (removed S s t (now - gracePeriodSeconds) dryRun) → C (Container.eraseAll s l))
    (hok : ∀ now, Q (.ok (collected S s t (now - gracePeriodSeconds) dryRun
      (targets s t checkpointNs))) (Container.eraseAll s ((targets s t checkpointNs).flatMap
        (removed S s t (now - gracePeriodSeconds) dryRun)))) :
    Keeps C (collectOrphanedValues S t checkpointNs dryRun gracePeriodSeconds) Q s := by
  have hs := hC 0 [] List.nil_prefix
  refine keeps_look_bind (looks_targetNamespaces t checkpointNs) hs (fun nss hnss => ?_) fun e he => ?_
  · rw [view_targetNamespaces, Except.ok.injEq] at hnss
    subst hnss
    rintro _ rfl now s' ⟨verdict, now', h⟩
    cases h
    exact ⟨hs, keeps_collectNamespaces (nodup_targets s t checkpointNs) (hC now) (hok now)⟩
  · rw [view_targetNamespaces] at he
    cases he

theorem run_collectOrphanedValues (verdict : G → Except Exn Unit) (now : Int)
    (checkpointNs : Option String) (dryRun : Bool) (gracePeriodSeconds : Int) :
    (collectOrphanedValues S t checkpointNs dryRun gracePeriodSeconds).run (serve verdict now) s =
      (.ok (collected S s t (now - gracePeriodSeconds) dryRun (targets s t checkpointNs)),
        Container.eraseAll s ((targets s t checkpointNs).flatMap
          (removed S s t (now - gracePeriodSeconds) dryRun))) := by
  have hpass : Keeps (fun _ => True) ((targets s t checkpointNs).foldlM
      (collectNamespace S t (now - gracePeriodSeconds)) ⟨dryRun, [], [], [], []⟩) (fun r s' =>
        r = .ok (collected S s t (now - gracePeriodSeconds) dryRun (targets s t checkpointNs)) ∧
        s' = Container.eraseAll s ((targets s t checkpointNs).flatMap
          (removed S s t (now - gracePeriodSeconds) dryRun))) s :=
    keeps_collectNamespaces (nodup_targets s t checkpointNs) (fun _ _ => trivial) ⟨rfl, rfl⟩
  rw [collectOrphanedValues, Prog.run_bind, run_look (looks_targetNamespaces t checkpointNs),
    view_targetNamespaces]
  exact Prod.ext (keeps_run hpass verdict now).1 (keeps_run hpass verdict now).2

end LangGraphFunctions.Checkpointers.AzureBlob

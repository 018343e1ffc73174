import LangGraphFunctions.Checkpointers.BlobFootprints
import LangGraphFunctions.Checkpointers.CollectionRuns

/-! The collection of orphaned values while others move the container. -/

namespace LangGraphFunctions.Checkpointers.AzureBlob

open Lib

variable {V R G α β : Type} {S : Saver V R G} {s s' s₀ : Store} {t ns id name : String}
  {N : String → Prop} {cutoff now : Int} {M : Store → Store → Prop} {Inv : Store → Prop}

attribute [local irreducible] parseValueBlobPath

def Clock (now : Int) : (o : Op G) → Store → o.Ans → Store → Prop
  | .utcnow, _, a, _ => a ≤ now
  | _, _, _, _ => True

def clocked (now : Int) : Prog.Service (interface G) Store := service.restrict (Clock now)

abbrev Spared (now : Int) (M : Store → Store → Prop) (name : String) (p : Call G α)
    (Q : Except Exn α → Store → Prop) (s : Store) : Prop :=
  p.Safe (clocked now) M (fun _ s _ s' => s'.get? name = s.get? name) Q s

def Stable (M : Store → Store → Prop) (Inv : Store → Prop) : Prop := ∀ s s', M s s' → Inv s → Inv s'

theorem spared_view (hM : Stable M Inv) {p : Call G α} (hp : Looks N p)
    (hN : ∀ s, Inv s → Container.Agree N s₀ s) (hs : Inv s) :
    Spared now M name p (fun r s' => r = view s₀ p ∧ Inv s') s := by
  induction p generalizing s with
  | ret a => exact ⟨rfl, hs⟩
  | raise e => exact ⟨rfl, hs⟩
  | call o k ih =>
    intro s₁ hR a s₂ hstep
    have hcall := Prog.uses_call.mp hp
    have hs₁ := hM _ _ hR hs
    obtain ⟨ha, hsame⟩ := still o s₁ a s₂ hcall.1 hstep.1
    rw [← answers_congr (hN s₁ hs₁) o hcall.1] at ha
    subst ha hsame
    exact ⟨rfl, ih _ (hcall.2 _ (listed_answers o hcall.1)) hs₁⟩

theorem spared_look (hM : Stable M Inv) {p : Call G α} (hp : Looks N p) (hs : Inv s) :
    Spared now M name p (fun _ s' => Inv s') s := by
  induction p generalizing s with
  | ret a => exact hs
  | raise e => exact hs
  | call o k ih =>
    intro s₁ hR a s₂ hstep
    have hcall := Prog.uses_call.mp hp
    obtain ⟨rfl, rfl⟩ := still o s₁ a s₂ hcall.1 hstep.1
    exact ⟨rfl, ih _ (hcall.2 _ (listed_answers o hcall.1)) (hM _ _ hR hs)⟩

theorem spared_look_bind (hM : Stable M Inv) {p : Call G α} {f : α → Call G β}
    {Q : Except Exn β → Store → Prop} (hp : Looks N p) (hs : Inv s)
    (hok : ∀ a s', Inv s' → Spared now M name (f a) Q s')
    (herror : ∀ e s', Inv s' → Q (.error e) s') : Spared now M name (p >>= f) Q s := by
  apply Prog.Safe.bind
  apply Prog.Safe.mono (spared_look hM hp hs)
  intro r s' h
  exact ⟨fun a _ => hok a s' h, fun e _ => herror e s' h⟩

theorem spared_listBlobs_bind (hM : Stable M Inv) {pre : String} {f : List BlobItem → Call G β}
    {Q : Except Exn β → Store → Prop} (hs : Inv s)
    (hok : ∀ s', Inv s' → Spared now M name (f (items s' pre)) Q s') :
    Spared now M name (listBlobs pre >>= f) Q s := by
  intro s₁ hR a s₂ hstep
  obtain ⟨verdict, n, h⟩ := hstep.1
  cases h
  exact ⟨rfl, hok s₁ (hM _ _ hR hs)⟩

theorem spared_deleteBlobIfThere {path : String} {Q : Except Exn Unit → Store → Prop}
    (hM : Stable M Inv) (hpath : path ≠ name) (hs : Inv s)
    (herase : ∀ s, Inv s → Inv (s.erase path)) (hQ : ∀ s', Inv s' → Q (.ok ()) s') :
    Spared now M name (deleteBlobIfThere path : Call G Unit) Q s := by
  intro s₁ hR a s₂ hstep
  obtain ⟨verdict, n, h⟩ := hstep.1
  have hs₁ := hM _ _ hR hs
  simp only [serve] at h
  split at h
  · cases h
    have hget : (s₁.erase path).get? name = s₁.get? name := by
      rw [Dict.get?_erase, if_neg (Ne.symm hpath)]
    exact ⟨hget, hQ _ (herase s₁ hs₁)⟩
  · cases h
    exact ⟨rfl, hQ _ hs₁⟩

def Stands (s₀ : Store) (t ns id : String) (s : Store) : Prop :=
  Container.Agree (· = checkpointBlobPath t ns id) s₀ s

variable {data : CheckpointData R}

theorem Stands.mem_checkpointIds (h : Stands s₀ t ns id s)
    (hloaded : loadedAt S s₀ t ns id = some data) :
    id ∈ checkpointIds s t ns := by
  obtain ⟨typed, htyped, -⟩ := Option.bind_eq_some_iff.mp hloaded
  obtain ⟨b, hb, -⟩ := Option.bind_eq_some_iff.mp htyped
  have hget := h _ rfl
  rw [hb] at hget
  rw [checkpointIds, List.mem_reverse, mem_sortedSet]
  apply List.mem_filterMap.mpr
  refine ⟨(Key.checkpoint t ns id).path, Container.mem_names.mpr ⟨?_, b, hget.symm⟩,
    checkpointIdOf_checkpoint t ns id⟩
  exact Key.startswith_checkpointsPrefix.mpr ⟨rfl, rfl, rfl⟩

theorem looks_collectRetained_marker (retained : Option (List (String × String))) :
    Looks (· = checkpointBlobPath t ns id) (collectRetained S t ns retained id) := by
  cases retained with
  | none => exact looks_ret _
  | some retained =>
    have hmarker : checkpointBlobPath t ns id = checkpointBlobPath t ns id := rfl
    refine looks_bind (looks_downloadTypedBlob hmarker) fun blob => ?_
    cases blob with
    | none => exact looks_ret _
    | some blob =>
      dsimp only
      split <;> exact looks_ret _

theorem spared_collectRetained (hM : Stable M Inv) (hstands : ∀ s, Inv s → Stands s₀ t ns id s)
    (hloaded : loadedAt S s₀ t ns id = some data) (retained : Option (List (String × String)))
    (hs : Inv s) : Spared now M name (collectRetained S t ns retained id)
      (fun r s' => r = .ok (retained.map (· ++ references data)) ∧ Inv s') s := by
  have hlooks : Looks (· = checkpointBlobPath t ns id) (collectRetained S t ns retained id) :=
    looks_collectRetained_marker retained
  apply Prog.Safe.mono (spared_view hM hlooks hstands hs)
  rintro r s' ⟨rfl, hs'⟩
  refine ⟨?_, hs'⟩
  rw [view_collectRetained, hloaded]
  cases retained <;> rfl

theorem spared_collectRetained_mono (hM : Stable M Inv) (id : String)
    (retained : Option (List (String × String))) (hs : Inv s) :
    Spared now M name (collectRetained S t ns retained id)
      (fun r s' => (∀ l', r = .ok (some l') → ∃ l, retained = some l ∧ l ⊆ l') ∧ Inv s') s := by
  cases retained with
  | none =>
    refine ⟨fun l' h => ?_, hs⟩
    cases h
  | some retained =>
    refine spared_look_bind hM (looks_downloadTypedBlob (N := fun _ => True) trivial) hs
      (fun blob s' hs' => ?_) fun e s' hs' => ⟨fun l' h => ?_, hs'⟩
    · cases blob with
      | none =>
        refine ⟨fun l' h => ?_, hs'⟩
        cases h
      | some blob =>
        dsimp only
        split
        · refine ⟨fun l' h => ?_, hs'⟩
          cases h
        · refine ⟨fun l' h => ?_, hs'⟩
          cases h
          exact ⟨retained, rfl, List.subset_append_left _ _⟩
    · cases h

theorem spared_collectRetainedVersions (hM : Stable M Inv)
    (hstands : ∀ s, Inv s → Stands s₀ t ns id s) (hloaded : loadedAt S s₀ t ns id = some data)
    (hs : Inv s) : Spared now M name (collectRetainedVersions S t ns)
      (fun r s' => (∀ l, r = .ok (some l) → references data ⊆ l) ∧ Inv s') s := by
  refine Prog.Safe.bind (spared_listBlobs_bind hM hs fun s₁ hs₁ => ⟨?_, ?_⟩)
  · intro ids hids
    cases hids
    rw [filterMap_items]
    refine Prog.safe_foldlM (fun done (retained : Option (List (String × String))) s =>
      (id ∈ done → ∀ l, retained = some l → references data ⊆ l) ∧ Inv s) ?_ ?_ ?_
    · intro done x rest retained s hids hinv
      have hmono : Spared now M name (collectRetained S t ns retained x) _ s :=
        spared_collectRetained_mono hM x retained hinv.2
      by_cases hx : x = id
      · subst hx
        apply Prog.Safe.mono (spared_collectRetained hM hstands hloaded retained hinv.2)
        rintro r s' ⟨rfl, hs'⟩
        refine ⟨fun _ l hl => ?_, hs'⟩
        obtain ⟨found, -, rfl⟩ := Option.map_eq_some_iff.mp hl
        exact List.subset_append_right _ _
      · apply Prog.Safe.mono hmono
        intro r s' h
        cases r with
        | error e => exact ⟨fun l hl => (by cases hl), h.2⟩
        | ok retained' =>
          refine ⟨fun hid l hl => ?_, h.2⟩
          obtain ⟨found, hfound, hsub⟩ := h.1 l (congrArg _ hl)
          have hdone : id ∈ done := by
            rcases List.mem_append.mp hid with hid | hid
            · exact hid
            · exact absurd (List.mem_singleton.mp hid).symm hx
          exact List.Subset.trans (hinv.1 hdone found hfound) hsub
    · intro retained s hinv
      refine ⟨fun l hl => hinv.1 ?_ l (Except.ok.inj hl), hinv.2⟩
      exact (hstands s₁ hs₁).mem_checkpointIds hloaded
    · exact ⟨fun h => absurd h List.not_mem_nil, hs₁⟩
  · intro e he
    cases he

variable {p : String × String} {threadId : String}

def Refound (S : Saver V R G) (now : Int) (M : Store → Store → Prop) (name : String)
    (Inv : Store → Prop) : Prop :=
  ∃ t ns p, name = valueBlobPath t ns p.1 p.2 ∧ ∀ s, Inv s →
    Spared now M name (collectRetainedVersions S t ns)
      (fun r s' => (∀ l, r = .ok (some l) → p ∈ l) ∧ Inv s') s

def Recent (cutoff : Int) (name : String) (s : Store) : Prop :=
  ∀ b, s.get? name = some b → isRecent cutoff b.lastModified

/-- Why a pass over a thread leaves a blob alone, in states that meet `Inv`. -/
structure Shield (S : Saver V R G) (threadId : String) (now cutoff : Int) (M : Store → Store → Prop)
    (name : String) (Inv : Store → Prop) : Prop where
  stable : Stable M Inv
  erase : ∀ s, Inv s → ∀ path t ns, Names.startswith path (valuesPrefix t ns) → path ≠ name →
    Inv (s.erase path)
  reason : (∀ ns, ¬ Names.startswith name (valuesPrefix threadId ns)) ∨
    (∀ s, Inv s → Recent cutoff name s) ∨ Refound S now M name Inv

def Deletable (S : Saver V R G) (threadId ns : String) (now : Int) (M : Store → Store → Prop)
    (name : String) (Inv : Store → Prop) (path : String) : Prop :=
  Names.startswith path (valuesPrefix threadId ns) ∧ (path = name → Refound S now M name Inv)

theorem valueBlobPath_unique {t' ns' : String}
    (h : Names.startswith (valueBlobPath t ns p.1 p.2) (valuesPrefix t' ns')) :
    t = t' ∧ ns = ns' := by
  obtain ⟨channel, version, hkey⟩ :=
    Key.startswith_valuesPrefix (k := .value t ns p.1 p.2).mp h
  cases hkey
  exact ⟨rfl, rfl⟩

variable {path : String}

theorem Shield.spared_deleteOrphan (h : Shield S threadId now cutoff M name Inv)
    (hpath : Deletable S threadId ns now M name Inv path)
    (st : OrphanedValueCollectionResult × Bool) (hs : Inv s) :
    Spared now M name (deleteOrphan S threadId ns st path) (fun _ s' => Inv s') s := by
  obtain ⟨result, broken⟩ := st
  cases broken with
  | true => exact hs
  | false =>
    refine spared_look_bind h.stable (looks_readLatestCheckpointId (N := fun _ => True) trivial) hs
      (fun latest s₁ hs₁ => ?_) fun e s' hs' => hs'
    cases latest with
    | none => exact hs₁
    | some latest =>
      by_cases hsame : path = name
      · subst hsame
        obtain ⟨t, ns', p, rfl, hscan⟩ := hpath.2 rfl
        obtain ⟨rfl, rfl⟩ := valueBlobPath_unique hpath.1
        apply Prog.Safe.bind
        apply Prog.Safe.mono (hscan s₁ hs₁)
        rintro r s₂ ⟨hfound, hs₂⟩
        refine ⟨fun fresh hfresh => ?_, fun e he => hs₂⟩
        cases fresh with
        | none => exact hs₂
        | some fresh =>
          have hretained : isRetained fresh
              (parseValueBlobPath t ns' (valueBlobPath t ns' p.1 p.2)) := by
            rw [parseValueBlobPath_value, isRetained, List.contains_iff_mem]
            exact hfound fresh hfresh
          dsimp only
          rw [if_pos hretained]
          exact hs₂
      · refine spared_look_bind h.stable (looks_collectRetainedVersions threadId ns) hs₁
          (fun fresh s₂ hs₂ => ?_) fun e s' hs' => hs'
        cases fresh with
        | none => exact hs₂
        | some fresh =>
          dsimp only
          split
          · exact hs₂
          · apply Prog.Safe.bind
            refine spared_deleteBlobIfThere h.stable hsame hs₂ (fun s hs => ?_) fun s' hs' => ?_
            · exact h.erase s hs path threadId ns hpath.1 hsame
            · exact ⟨fun _ _ => hs', fun e he => hs'⟩

theorem Shield.spared_deleteOrphans (h : Shield S threadId now cutoff M name Inv)
    {names : List String} (hnames : ∀ path ∈ names, Deletable S threadId ns now M name Inv path)
    (st : OrphanedValueCollectionResult × Bool) (hs : Inv s) :
    Spared now M name (names.foldlM (deleteOrphan S threadId ns) st) (fun _ s' => Inv s') s := by
  refine Prog.safe_foldlM (fun _ _ s => Inv s) ?_ (fun _ _ hs => hs) hs
  intro done path rest st s hsplit hs
  have hmem : path ∈ names := by simp [hsplit]
  apply Prog.Safe.mono (h.spared_deleteOrphan (hnames path hmem) st hs)
  intro r s' hs'
  cases r <;> exact hs'

theorem Recent.not_old {limit : Int} (h : Recent cutoff name s) (hlimit : limit ≤ cutoff) {b : Blob}
    (hb : s.get? name = some b) : isRecent limit b.lastModified := by
  have hnew := h b hb
  cases hmodified : b.lastModified with
  | none => rfl
  | some modified =>
    rw [hmodified, isRecent, decide_eq_true_eq] at hnew
    rw [isRecent, decide_eq_true_eq]
    exact lt_of_le_of_lt hlimit hnew

theorem Shield.deletable_of_listed (h : Shield S threadId now cutoff M name Inv) {limit : Int}
    (hlimit : limit ≤ cutoff) {retained : List (String × String)} (hs : Inv s)
    (hpath : path ∈ orphansAt retained s threadId ns limit false) :
    Deletable S threadId ns now M name Inv path := by
  obtain ⟨hname, -, hold⟩ := mem_orphansAt.mp hpath
  have hstart := Container.startswith_of_mem_names hname
  refine ⟨hstart, ?_⟩
  rintro rfl
  rcases h.reason with hforeign | hrecent | hrefound
  · exact absurd hstart (hforeign ns)
  · obtain ⟨-, b, hb⟩ := Container.mem_names.mp hname
    rw [hb, Option.bind_some, (hrecent s hs).not_old hlimit hb] at hold
    cases hold
  · exact hrefound

theorem mem_orphansAt_listed {limit : Int} {retained : List (String × String)}
    (h : path ∈ ((((items s (valuesPrefix t ns)).map fun blob =>
      (blob.name, parseValueBlobPath t ns blob.name, blob.lastModified)).filter fun blob =>
        isOrphan retained blob.2.1).filter fun blob => !isRecent limit blob.2.2).map (·.1)) :
    path ∈ orphansAt retained s t ns limit false := by
  rw [orphansAt, valueBlobs]
  simpa using h

theorem Shield.spared_collectNamespace (h : Shield S threadId now cutoff M name Inv) {limit : Int}
    (hlimit : limit ≤ cutoff) (result : OrphanedValueCollectionResult) (ns : String) (hs : Inv s) :
    Spared now M name (collectNamespace S threadId limit result ns) (fun _ s' => Inv s') s := by
  refine spared_look_bind h.stable (looks_readLatestCheckpointId (N := fun _ => True) trivial) hs
    (fun latest s₁ hs₁ => ?_) fun e s' hs' => hs'
  cases latest with
  | none => exact hs₁
  | some latest =>
    refine spared_look_bind h.stable (looks_collectRetainedVersions threadId ns) hs₁
      (fun retained s₂ hs₂ => ?_) fun e s' hs' => hs'
    cases retained with
    | none => exact hs₂
    | some retained =>
      apply Prog.Safe.bind
      rw [listValueBlobs]
      refine spared_listBlobs_bind h.stable hs₂ fun s₃ hs₃ =>
      ⟨fun blobs hblobs => ?_, fun e he => ?_⟩
      · cases hblobs
        dsimp only
        split
        · exact hs₃
        · apply Prog.Safe.bind
          apply Prog.Safe.mono (h.spared_deleteOrphans (fun path hpath => ?_) _ hs₃)
          · intro r s' hs'
            exact ⟨fun _ _ => hs', fun _ _ => hs'⟩
          · exact h.deletable_of_listed hlimit hs₃ (mem_orphansAt_listed hpath)
      · cases he

theorem Shield.spared_collectOrphanedValues {gracePeriodSeconds : Int}
    (h : Shield S threadId now (now - gracePeriodSeconds) M name Inv) (checkpointNs : Option String)
    (dryRun : Bool) (hs : Inv s) :
    Spared now M name (collectOrphanedValues S threadId checkpointNs dryRun gracePeriodSeconds)
      (fun _ s' => Inv s') s := by
  refine spared_look_bind h.stable (looks_targetNamespaces threadId checkpointNs) hs
    (fun namespaces s₁ hs₁ => ?_) fun e s' hs' => hs'
  intro s₂ hR clock s₃ hstep
  obtain ⟨⟨verdict, n, hserve⟩, hclock⟩ := hstep
  cases hserve
  refine ⟨rfl, ?_⟩
  refine Prog.safe_foldlM (fun _ _ s => Inv s) ?_ (fun _ _ hs => hs) (h.stable _ _ hR hs₁)
  intro done ns rest result s _ hs
  apply Prog.Safe.mono (h.spared_collectNamespace (Int.sub_le_sub_right hclock _) result ns hs)
  intro r s' hs'
  cases r <;> exact hs'

/-- What the others may do while a pass runs: they leave the markers of `kept` alone, and what they
put under a value of `young` is newer than the cutoff. -/
structure Rely (t ns : String) (kept : String → Prop) (young : String × String → Prop)
    (cutoff : Int) (s s' : Store) : Prop where
  kept : ∀ id, kept id → Container.Agree (· = checkpointBlobPath t ns id) s s'
  young : ∀ p, young p → ∀ b, s'.get? (valueBlobPath t ns p.1 p.2) = some b →
    s.get? (valueBlobPath t ns p.1 p.2) = some b ∨ isRecent cutoff b.lastModified

def Covered (S : Saver V R G) (t ns : String) (kept : String → Prop)
    (young : String × String → Prop) (cutoff : Int) (s : Store) (p : String × String) : Prop :=
  (∃ id data, kept id ∧ loadedAt S s t ns id = some data ∧ p ∈ references data) ∨
    young p ∧ Recent cutoff (valueBlobPath t ns p.1 p.2) s

variable {kept : String → Prop} {young : String × String → Prop}

theorem Rely.refl (s : Store) : Rely t ns kept young cutoff s s where
  kept _ _ := Container.Agree.refl _ s
  young _ _ _ h := .inl h

theorem Rely.trans {s'' : Store} (h : Rely t ns kept young cutoff s s')
    (h' : Rely t ns kept young cutoff s' s'') : Rely t ns kept young cutoff s s'' where
  kept id hid := (h.kept id hid).trans (h'.kept id hid)
  young p hp b hb := by
    rcases h'.young p hp b hb with hb | hrecent
    · exact h.young p hp b hb
    · exact .inr hrecent

theorem decisive_marker (t ns id : String) : Decisive t ns (checkpointBlobPath t ns id) :=
  .inl (Key.startswith_checkpointsPrefix (k := .checkpoint t ns id).mpr ⟨rfl, rfl, rfl⟩)

theorem stable_stands (hid : kept id) :
    Stable (Rely t ns kept young cutoff) (Stands s₀ t ns id) :=
  fun _ _ hmove hs => Container.Agree.trans hs (hmove.kept id hid)

theorem Stands.erase (hs : Stands s₀ t ns id s) {t' ns' : String}
    (hpath : Names.startswith path (valuesPrefix t' ns')) : Stands s₀ t ns id (s.erase path) := by
  apply Container.Agree.trans hs
  intro other hother
  subst hother
  rw [Dict.get?_erase, if_neg]
  rintro rfl
  exact not_decisive_of_value hpath t ns (decisive_marker t ns id)

theorem shield_kept (hid : kept id) {data : CheckpointData R}
    (hloaded : loadedAt S s₀ t ns id = some data) (hp : p ∈ references data) :
    Shield S threadId now cutoff (Rely t ns kept young cutoff) (valueBlobPath t ns p.1 p.2)
      (Stands s₀ t ns id) where
  stable := stable_stands hid
  erase _ hs _ _ _ hpath _ := Stands.erase hs hpath
  reason := by
    refine .inr (.inr ⟨t, ns, p, rfl, fun s hs => ?_⟩)
    apply Prog.Safe.mono (spared_collectRetainedVersions (stable_stands hid) (fun _ hs => hs)
      hloaded hs)
    rintro r s' ⟨hfound, hs'⟩
    exact ⟨fun l hl => hfound l hl hp, hs'⟩

theorem shield_young (hp : young p) :
    Shield S threadId now cutoff (Rely t ns kept young cutoff) (valueBlobPath t ns p.1 p.2)
      (Recent cutoff (valueBlobPath t ns p.1 p.2)) where
  stable := by
    intro s s' hmove hs b hb
    rcases hmove.young p hp b hb with hb | hrecent
    · exact hs b hb
    · exact hrecent
  erase := by
    intro s hs path _ _ _ hne b hb
    rw [Dict.get?_erase, if_neg (Ne.symm hne)] at hb
    exact hs b hb
  reason := .inr (.inl fun _ hs => hs)

theorem shield_foreign (h : ∀ ns, ¬ Names.startswith name (valuesPrefix threadId ns)) :
    Shield S threadId now cutoff M name (fun _ => True) where
  stable _ _ _ _ := trivial
  erase _ _ _ _ _ _ _ := trivial
  reason := .inl h

variable {q : Call G OrphanedValueCollectionResult} {u : List (Event (interface G) Store)}
  {checkpointNs : Option String} {dryRun : Bool} {gracePeriodSeconds : Int}

theorem Shield.exec (h : Shield S threadId now (now - gracePeriodSeconds)
      (Rely t ns kept young (now - gracePeriodSeconds)) name Inv) (hs : Inv s)
    (hx : Exec (clocked now) (Rely t ns kept young (now - gracePeriodSeconds))
      (collectOrphanedValues S threadId checkpointNs dryRun gracePeriodSeconds) s u q s') :
    ∀ e ∈ u, e.Satisfies fun _ s _ s' => s'.get? name = s.get? name :=
  (hx.safe Rely.refl Rely.trans (h.spared_collectOrphanedValues checkpointNs dryRun hs)).2

/-- A pass among others: it leaves the values that a kept checkpoint refers to, the young ones, and
all that is no value of its thread. -/
theorem collection_spares_covered
    (hx : Exec (clocked now) (Rely t ns kept young (now - gracePeriodSeconds))
      (collectOrphanedValues S threadId checkpointNs dryRun gracePeriodSeconds) s u q s') :
    (∀ p, Covered S t ns kept young (now - gracePeriodSeconds) s p →
      ∀ e ∈ u, e.Satisfies fun _ s _ s' =>
        s'.get? (valueBlobPath t ns p.1 p.2) = s.get? (valueBlobPath t ns p.1 p.2)) ∧
    ∀ name, (∀ ns, ¬ Names.startswith name (valuesPrefix threadId ns)) →
      ∀ e ∈ u, e.Satisfies fun _ s _ s' => s'.get? name = s.get? name := by
  constructor
  · rintro p (⟨id, data, hid, hloaded, hp⟩ | ⟨hyoung, hrecent⟩)
    · exact (shield_kept hid hloaded hp).exec (Container.Agree.refl _ s) hx
    · exact (shield_young hyoung).exec hrecent hx
  · intro name hname
    exact (shield_foreign hname).exec trivial hx

theorem exec_serve {R : Store → Store → Prop} (verdict : G → Except Exn Unit) (now : Int)
    (p : Call G α) (s : Store) : ∃ u, Exec (clocked now) R p s u
      (.ofExcept (p.run (serve verdict now) s).1) (p.run (serve verdict now) s).2 := by
  induction p generalizing s with
  | ret a => exact ⟨[], .stop⟩
  | raise e => exact ⟨[], .stop⟩
  | call o k ih =>
    obtain ⟨u, h⟩ := ih (serve verdict now o s).1 (serve verdict now o s).2
    have hclock : Clock now o s (serve verdict now o s).1 (serve verdict now o s).2 := by
      cases o with
      | utcnow => exact le_refl now
      | _ => trivial
    exact ⟨_, .call ⟨⟨verdict, now, rfl⟩, hclock⟩ h⟩

theorem references_supersededValue :
    ∃ data, loadedAt TextSerde.textSaver supersededValue "t" "" "b" = some data ∧
      references data = [("x", "2")] := by
  apply Option.map_eq_some_iff.mp
  decide +kernel

theorem collection_spares_covered_supersededValue : ∃ u,
    Exec (clocked 7) (Rely "t" "" (· = "b") (fun _ => False) (7 - 0))
      (collectOrphanedValues TextSerde.textSaver "t" none false 0) supersededValue u
      (.ofExcept (pass TextSerde.textSaver (fun _ => .ok ()) 7 "t" none false 0 supersededValue).1)
      (pass TextSerde.textSaver (fun _ => .ok ()) 7 "t" none false 0 supersededValue).2 ∧
    (pass TextSerde.textSaver (fun _ => .ok ()) 7 "t" none false 0 supersededValue).2.get?
      (valueBlobPath "t" "" "x" "1") = none ∧
    ∀ e ∈ u, e.Satisfies fun _ s _ s' =>
      s'.get? (valueBlobPath "t" "" "x" "2") = s.get? (valueBlobPath "t" "" "x" "2") := by
  obtain ⟨data, hloaded, hreferences⟩ := references_supersededValue
  obtain ⟨u, hx⟩ := exec_serve (R := Rely "t" "" (· = "b") (fun _ => False) (7 - 0)) (fun _ => .ok ())
    7 (collectOrphanedValues TextSerde.textSaver "t" none false 0) supersededValue
  have hgone : ((pass TextSerde.textSaver (fun _ => .ok ()) 7 "t" none false 0 supersededValue).2.get?
      (valueBlobPath "t" "" "x" "1")).isNone := by decide +kernel
  refine ⟨u, hx, Option.isNone_iff_eq_none.mp hgone, ?_⟩
  apply (collection_spares_covered hx).1 ("x", "2")
  exact .inl ⟨"b", data, rfl, hloaded, hreferences ▸ List.mem_singleton.mpr rfl⟩

def Part (t ns id : String) (data : CheckpointData R) (name : String) : Prop :=
  Names.startswith name (checkpointBasePrefix t ns id) ∨
    ∃ p ∈ references data, name = valueBlobPath t ns p.1 p.2

theorem startswith_base (rest : String) :
    Names.startswith (checkpointBasePrefix t ns id ++ rest) (checkpointBasePrefix t ns id) :=
  Names.startswith_iff.mpr ⟨rest, rfl⟩

theorem looks_loadChannelValues (data : CheckpointData R) :
    Looks (Part t ns id data) (loadChannelValues S t ns data.channelVersions) := by
  refine Prog.uses_foldlM _ fun values entry hentry => ?_
  have hpart : Part t ns id data (valueBlobPath t ns entry.1 entry.2.text) :=
    .inr ⟨(entry.1, entry.2.text), List.mem_map.mpr ⟨entry, hentry, rfl⟩, rfl⟩
  refine looks_bind (looks_downloadTypedBlob hpart) fun blob => ?_
  cases blob with
  | none => exact looks_ret _
  | some blob =>
    dsimp only
    split
    · exact looks_ret _
    · exact looks_bind (looks_ofExcept _) fun _ => looks_ret _

theorem view_buildTuple_congr (hloaded : loadedAt S s t ns id = some data)
    (h : Container.Agree (Part t ns id data) s s') (config : RunnableConfig G) :
    view s (buildTuple S t ns id config) = view s' (buildTuple S t ns id config) := by
  obtain ⟨typed, htyped, hload⟩ := Option.bind_eq_some_iff.mp hloaded
  have hdata : loadCheckpoint S typed = .ok data := by
    cases hdata : loadCheckpoint S typed with
    | error e => rw [hdata] at hload; cases hload
    | ok data' => rw [hdata] at hload; cases hload; rfl
  have hmarker := h (checkpointBlobPath t ns id) (.inl (startswith_base _))
  have htyped' : typedAt s' (checkpointBlobPath t ns id) = some typed := by
    rw [← htyped, typedAt, typedAt, hmarker]
  rw [buildTuple, view_bind ((view_downloadTypedBlob _).trans (congrArg _ htyped)),
    view_bind ((view_downloadTypedBlob _).trans (congrArg _ htyped'))]
  dsimp only
  rw [view_bind ((view_ofExcept _).trans hdata), view_bind ((view_ofExcept _).trans hdata)]
  refine view_congr ?_ h
  refine looks_bind (looks_loadChannelValues data) fun values => ?_
  refine looks_bind (looks_downloadTypedBlob (.inl (startswith_base _))) fun metadata => ?_
  cases metadata with
  | none => exact looks_ret _
  | some metadata =>
    refine looks_bind (looks_ofExcept _) fun _ => looks_bind ?_ fun _ => looks_ret _
    exact (looks_loadPendingWrites S).mono fun _ h => .inl (startswith_writesPrefix h)

theorem exists_clock (u : List (Event (interface G) Store)) :
    ∃ now, ∀ e ∈ u, e.Satisfies (Clock now) := by
  induction u with
  | nil => exact ⟨0, fun e he => absurd he List.not_mem_nil⟩
  | cons e u ih =>
    obtain ⟨now, h⟩ := ih
    have hlater (later : Int) (hle : now ≤ later) (e' : Event (interface G) Store)
        (he' : e' ∈ u) : e'.Satisfies (Clock later) := by
      have hsat := h e' he'
      cases e' with
      | env => trivial
      | call o s a s' =>
        cases o with
        | utcnow => exact le_trans hsat hle
        | _ => trivial
    cases e with
    | env => exact ⟨now, List.forall_mem_cons.mpr ⟨trivial, h⟩⟩
    | call o s a s' =>
      cases o with
      | utcnow =>
        have hmax := hlater (max a now) (le_max_right a now)
        exact ⟨max a now, List.forall_mem_cons.mpr ⟨le_max_left a now, hmax⟩⟩
      | _ => exact ⟨now, List.forall_mem_cons.mpr ⟨trivial, h⟩⟩

theorem not_value_of_base (h : Names.startswith name (checkpointBasePrefix t ns id))
    (t' ns' : String) :
    ¬ Names.startswith name (valuesPrefix t' ns') :=
  fun hvalue => not_decisive_of_value hvalue t ns (.inl (startswith_checkpointBase h))

theorem rely_of_part (h : Container.Agree (Part t ns id data) s s') :
    Rely t ns (· = id) (fun _ => False) cutoff s s' where
  kept id' hid := by
    subst hid
    exact fun name hname => h name (.inl (hname ▸ startswith_base _))
  young _ hp := hp.elim

/-- Whatever else others do, a checkpoint that they leave alone reads the same before, during and
after a pass. -/
theorem collection_keeps_tuple {config : RunnableConfig G} (hconfig : Asks config t ns (some id))
    (hid : id ≠ "") (hloaded : loadedAt S s t ns id = some data)
    (hx : Exec service (Container.Agree (Part t ns id data))
      (collectOrphanedValues S threadId checkpointNs dryRun gracePeriodSeconds) s u q s')
    (verdict : G → Except Exn Unit) (now : Int) :
    ((getTuple S config).run (serve verdict now) s').1 =
      ((getTuple S config).run (serve verdict now) s).1 := by
  obtain ⟨last, hclock⟩ := exists_clock u
  have hrun := Exec.restrict hx hclock
  have hspared (name : String) (hname : Part t ns id data name) :
      ∀ e ∈ u, e.Satisfies fun _ s _ s' => s'.get? name = s.get? name := by
    have hagree : ∀ s s', Container.Agree (Part t ns id data) s s' →
        Rely t ns (· = id) (fun _ => False) (last - gracePeriodSeconds) s s' :=
      fun _ _ => rely_of_part
    rcases hname with hbase | ⟨p, hp, rfl⟩
    · have hshield : Shield S threadId last (last - gracePeriodSeconds)
          (Container.Agree (Part t ns id data)) name fun _ => True :=
        shield_foreign fun ns' => not_value_of_base hbase threadId ns'
      have hsafe := hshield.spared_collectOrphanedValues checkpointNs dryRun (s := s) trivial
      exact (hrun.safe (Container.Agree.refl _) Container.Agree.trans hsafe).2
    · have hshield : Shield S threadId last (last - gracePeriodSeconds)
          (Rely t ns (· = id) (fun _ => False) (last - gracePeriodSeconds))
          (valueBlobPath t ns p.1 p.2) (Stands s t ns id) := shield_kept rfl hloaded hp
      have hsafe := hshield.spared_collectOrphanedValues checkpointNs dryRun
        (Container.Agree.refl _ s)
      exact (hrun.safe (Container.Agree.refl _) Container.Agree.trans (hsafe.rely hagree)).2
  have hagree : Container.Agree (Part t ns id data) s s' := by
    have hmoves : ∀ {s₁ s₂}, Container.Agree (Part t ns id data) s₁ s₂ →
        Container.Agree (Part t ns id data) s s₁ → Container.Agree (Part t ns id data) s s₂ :=
      fun hmove h => h.trans hmove
    refine hx.invariant hmoves (fun e he => ?_) (Container.Agree.refl _ s)
    cases e with
    | env => trivial
    | call o s₁ a s₂ =>
      intro h name hname
      exact (h name hname).trans (hspared name hname _ he).symm
  rw [run_look (looks_getTuple config), run_look (looks_getTuple config), view_getTuple hconfig hid,
    view_getTuple hconfig hid, view_buildTuple_congr hloaded hagree]

theorem collection_keeps_tuple_supersededValue :
    ((getTuple TextSerde.textSaver ⟨some ⟨some "t", some "", some "b", none⟩⟩).run
      (serve (fun _ => .ok ()) 9)
      (pass TextSerde.textSaver (fun _ => .ok ()) 7 "t" none false 0 supersededValue).2).1 =
    ((getTuple TextSerde.textSaver ⟨some ⟨some "t", some "", some "b", none⟩⟩).run
      (serve (fun _ => .ok ()) 9) supersededValue).1 := by
  obtain ⟨data, hloaded, -⟩ := references_supersededValue
  obtain ⟨u, hx⟩ := ends_run (fun _ => .ok ()) 7
    (collectOrphanedValues TextSerde.textSaver "t" none false 0) supersededValue
  have hmoves : Exec service (Container.Agree (Part "t" "" "b" data))
      (collectOrphanedValues TextSerde.textSaver "t" none false 0) supersededValue u
      (.ofExcept (pass TextSerde.textSaver (fun _ => .ok ()) 7 "t" none false 0 supersededValue).1)
      (pass TextSerde.textSaver (fun _ => .ok ()) 7 "t" none false 0 supersededValue).2 :=
    Exec.among hx (Container.Agree.refl _)
  exact collection_keeps_tuple ⟨rfl, rfl, rfl⟩ (by decide) hloaded hmoves (fun _ => .ok ()) 9

end LangGraphFunctions.Checkpointers.AzureBlob

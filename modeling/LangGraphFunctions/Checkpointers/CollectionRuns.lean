import LangGraphFunctions.Checkpointers.BlobReach
import LangGraphFunctions.Checkpointers.TextSerde

/-! The collection of orphaned values on a quiescent container. -/

namespace LangGraphFunctions.Checkpointers.AzureBlob

open Lib

variable {V R G : Type} {S : Saver V R G} {s s' : Store} {t ns id : String} {cutoff : Int}
  {checkpointNs : Option String}

def Stamped (s : Store) : Prop := ∀ name b, s.get? name = some b → b.lastModified.isSome

theorem stamped_of_step {o : Op G} {a : o.Ans} (h : service.step o s a s') (hs : Stamped s) :
    Stamped s' := by
  obtain ⟨verdict, now, h⟩ := h
  cases o with
  | downloadBlob blob => simp only [serve] at h; split at h <;> cases h <;> exact hs
  | getBlobProperties blob => simp only [serve] at h; split at h <;> cases h <;> exact hs
  | uploadBlob blob payload metadata =>
    cases h
    intro name b hb
    rw [Dict.get?_set] at hb
    split at hb
    · cases hb
      rfl
    · exact hs name b hb
  | deleteBlob blob =>
    simp only [serve] at h
    split at h
    · cases h
      intro name b hb
      rw [Dict.get?_erase] at hb
      split at hb
      · cases hb
      · exact hs name b hb
    · cases h
      exact hs
  | listBlobs => cases h; exact hs
  | check => cases h; exact hs
  | utcnow => cases h; exact hs

theorem keeps_stamped {α : Type} (p : Call G α) (hs : Stamped s) :
    Keeps Stamped p (fun _ _ => True) s := by
  induction p generalizing s with
  | ret a => trivial
  | raise e => trivial
  | call o k ih =>
    rintro _ rfl a s' hstep
    exact ⟨stamped_of_step hstep hs, ih a (stamped_of_step hstep hs)⟩

theorem Reachable.stamped (h : Reachable S s) : Stamped s := by
  induction h with
  | empty =>
    intro name b hb
    cases hb
  | step q _ hleads ih => exact hleads.keeps (keeps_stamped _ ih) ih

def Newer (cutoff : Int) (b : Blob) : Prop := ∃ modified, b.lastModified = some modified ∧ cutoff < modified

theorem Stamped.isRecent_iff (hs : Stamped s) {name : String} {b : Blob} (h : s.get? name = some b) :
    isRecent cutoff ((s.get? name).bind (·.lastModified)) ↔ Newer cutoff b := by
  obtain ⟨modified, hmodified⟩ := Option.isSome_iff_exists.mp (hs name b h)
  rw [h, Option.bind_some, Newer, hmodified, isRecent, decide_eq_true_eq]
  simp

theorem untrusted_iff (hs : Named s) : untrusted S s t ns ↔
    latestAt s t ns = none ∨ ∃ id, Committed s t ns id ∧ loadedAt S s t ns id = none := by
  rw [untrusted, Bool.or_eq_true, Option.isNone_iff_eq_none, Option.isNone_iff_eq_none,
    hs.retainedAt_eq_none]

theorem Named.mem_garbage (hs : Named s) (hstamped : Stamped s) (htrusted : ¬ untrusted S s t ns)
    {channel version : String} : valueBlobPath t ns channel version ∈ garbage S s t cutoff ns ↔
      ∃ b, s.get? (valueBlobPath t ns channel version) = some b ∧
        ¬ Referenced S s t ns channel version ∧ ¬ Newer cutoff b := by
  rw [untrusted, Bool.or_eq_true, not_or, Option.isNone_iff_eq_none, Option.isNone_iff_eq_none] at htrusted
  obtain ⟨h, hlatest⟩ := Option.ne_none_iff_exists'.mp htrusted.1
  obtain ⟨retained, hretained⟩ := Option.ne_none_iff_exists'.mp htrusted.2
  have hstart : Names.startswith (valueBlobPath t ns channel version) (valuesPrefix t ns) :=
    Key.startswith_valuesPrefix (k := .value t ns channel version).mpr ⟨channel, version, rfl⟩
  simp only [garbage, hlatest, hretained]
  rw [mem_orphansAt, parseValueBlobPath_value, isOrphan, Bool.not_eq_true', Container.mem_names]
  rw [← Bool.not_eq_true, ← Bool.not_eq_true, List.contains_iff_mem, hs.mem_retainedAt hretained]
  constructor
  · rintro ⟨⟨-, b, hb⟩, hnot, hold⟩
    exact ⟨b, hb, hnot, fun hnew => hold ((hstamped.isRecent_iff hb).mpr hnew)⟩
  · rintro ⟨b, hb, hnot, hold⟩
    exact ⟨⟨hstart, b, hb⟩, hnot, fun hnew => hold ((hstamped.isRecent_iff hb).mp hnew)⟩

theorem garbage_swept {nss : List String} (hns : ns ∈ nss) :
    garbage S (Container.eraseAll s (nss.flatMap (garbage S s t cutoff))) t cutoff ns = [] := by
  have hvalue (name) (hname : name ∈ nss.flatMap (garbage S s t cutoff)) :
      ∃ ns, Names.startswith name (valuesPrefix t ns) := by
    obtain ⟨ns', -, h⟩ := List.mem_flatMap.mp hname
    exact ⟨ns', startswith_garbage h⟩
  have hagree := agree_values (s := s) hvalue t ns
  rw [garbage, ← latestAt_congr hagree, ← retainedAt_congr hagree]
  cases hlatest : latestAt s t ns with
  | none => rfl
  | some h =>
    cases hretained : retainedAt S s t ns with
    | none => rfl
    | some retained =>
      have hold : garbage S s t cutoff ns = orphansAt retained s t ns cutoff false := by
        rw [garbage, hlatest, hretained]
      refine List.eq_nil_iff_forall_not_mem.mpr fun name hname => ?_
      obtain ⟨hmem, horphan, hrecent⟩ := mem_orphansAt.mp hname
      rw [Container.names_eraseAll, List.mem_filter, decide_eq_true_eq] at hmem
      rw [Container.get?_eraseAll, if_neg hmem.2] at hrecent
      refine hmem.2 (List.mem_flatMap.mpr ⟨ns, hns, ?_⟩)
      rw [hold]
      exact mem_orphansAt.mpr ⟨hmem.1, horphan, hrecent⟩

theorem Named.targets_eraseAll (hs : Named s) (names : List String) {ns : String}
    (h : ns ∈ targets (Container.eraseAll s names) t checkpointNs) : ns ∈ targets s t checkpointNs := by
  cases checkpointNs with
  | some ns' => exact h
  | none =>
    obtain ⟨k, ⟨b, hb⟩, ht, hns⟩ := (hs.eraseAll names).mem_namespaces.mp h
    rw [Container.get?_eraseAll] at hb
    split at hb
    · cases hb
    · exact hs.mem_namespaces.mpr ⟨k, ⟨b, hb⟩, ht, hns⟩

abbrev pass (S : Saver V R G) (verdict : G → Except Exn Unit) (now : Int) (t : String)
    (checkpointNs : Option String) (dryRun : Bool) (gracePeriodSeconds : Int) (s : Store) :
    Except Exn OrphanedValueCollectionResult × Store :=
  (collectOrphanedValues S t checkpointNs dryRun gracePeriodSeconds).run (serve verdict now) s

theorem Named.names_swept (hs : Named s) (hstamped : Stamped s) {nss : List String}
    (hns : ns ∈ nss) (htrusted : ¬ untrusted S s t ns) (name : String) :
    name ∈ Container.names (Container.eraseAll s (nss.flatMap (garbage S s t cutoff)))
        (valuesPrefix t ns) ↔
      ∃ channel version b, name = valueBlobPath t ns channel version ∧ s.get? name = some b ∧
        (Referenced S s t ns channel version ∨ Newer cutoff b) := by
  rw [Container.names_eraseAll, List.mem_filter, decide_eq_true_eq]
  have hmine (channel version : String) :
      valueBlobPath t ns channel version ∈ nss.flatMap (garbage S s t cutoff) ↔
        valueBlobPath t ns channel version ∈ garbage S s t cutoff ns := by
    constructor
    · intro h
      obtain ⟨ns', -, hmem⟩ := List.mem_flatMap.mp h
      obtain ⟨_, _, hkey⟩ := Key.startswith_valuesPrefix (k := .value t ns channel version).mp
        (startswith_garbage hmem)
      cases hkey
      exact hmem
    · exact fun h => List.mem_flatMap.mpr ⟨ns, hns, h⟩
  constructor
  · rintro ⟨hname, hnot⟩
    obtain ⟨k, rfl, ⟨b, hb⟩, hstart⟩ := hs.of_mem_names hname
    obtain ⟨channel, version, rfl⟩ := Key.startswith_valuesPrefix.mp hstart
    refine ⟨channel, version, b, rfl, hb, ?_⟩
    by_contra hneither
    rw [not_or] at hneither
    exact hnot ((hmine channel version).mpr ((hs.mem_garbage hstamped htrusted).mpr ⟨b, hb, hneither⟩))
  · rintro ⟨channel, version, b, rfl, hb, hkept⟩
    refine ⟨Container.mem_names.mpr ⟨?_, b, hb⟩, fun h => ?_⟩
    · exact Key.startswith_valuesPrefix (k := .value t ns channel version).mpr ⟨channel, version, rfl⟩
    · obtain ⟨b', hb', hnot, hold⟩ :=
        (hs.mem_garbage hstamped htrusted).mp ((hmine channel version).mp h)
      rw [hb, Option.some_inj] at hb'
      subst hb'
      exact hkept.elim hnot hold

/-- A dry run tells what a pass deletes, and a pass leaves what is referred to or recent. -/
theorem collection_exact (hS : S.serde.Lawful) (hs : Reachable S s) (verdict : G → Except Exn Unit)
    (now : Int) (t : String) (checkpointNs : Option String) (gracePeriodSeconds : Int) :
    ∃ dry real again s',
      pass S verdict now t checkpointNs true gracePeriodSeconds s = (.ok dry, s) ∧
      pass S verdict now t checkpointNs false gracePeriodSeconds s = (.ok real, s') ∧
      pass S verdict now t checkpointNs false gracePeriodSeconds s' = (.ok again, s') ∧
      real.deleted = dry.wouldDelete ∧ s' = Container.eraseAll s dry.wouldDelete ∧
      real.skippedRecent = dry.skippedRecent ∧ real.skippedNamespaces = dry.skippedNamespaces ∧
      again.deleted = [] ∧
      ∀ ns ∈ targets s t checkpointNs,
        ((t, ns) ∈ dry.skippedNamespaces ↔
          latestAt s t ns = none ∨ ∃ id, Committed s t ns id ∧ loadedAt S s t ns id = none) ∧
        ((t, ns) ∉ dry.skippedNamespaces → ∀ name,
          name ∈ Container.names s' (valuesPrefix t ns) ↔
            ∃ channel version b, name = valueBlobPath t ns channel version ∧ s.get? name = some b ∧
              (Referenced S s t ns channel version ∨ Newer (now - gracePeriodSeconds) b)) := by
  have hnamed := (hs.sound hS).named
  have hskipped (dryRun : Bool) (ns) (hns : ns ∈ targets s t checkpointNs) :
      (t, ns) ∈ (collected S s t (now - gracePeriodSeconds) dryRun
        (targets s t checkpointNs)).skippedNamespaces ↔ untrusted S s t ns := by
    rw [collected, List.mem_map]
    constructor
    · rintro ⟨ns', hmem, heq⟩
      cases heq
      exact (List.mem_filter.mp hmem).2
    · exact fun h => ⟨ns, List.mem_filter.mpr ⟨hns, h⟩, rfl⟩
  have hdry : (targets s t checkpointNs).flatMap
      (removed S s t (now - gracePeriodSeconds) true) = [] :=
    List.flatMap_eq_nil_iff.mpr fun ns _ => rfl
  have hagain : ((targets (Container.eraseAll s ((targets s t checkpointNs).flatMap
      (garbage S s t (now - gracePeriodSeconds)))) t checkpointNs).flatMap
      (removed S (Container.eraseAll s ((targets s t checkpointNs).flatMap
        (garbage S s t (now - gracePeriodSeconds)))) t (now - gracePeriodSeconds) false)) = [] :=
    List.flatMap_eq_nil_iff.mpr fun ns hns => garbage_swept (hnamed.targets_eraseAll _ hns)
  have hsecond := run_collectOrphanedValues (S := S) (t := t)
    (s := Container.eraseAll s ((targets s t checkpointNs).flatMap
      (garbage S s t (now - gracePeriodSeconds)))) verdict now checkpointNs false gracePeriodSeconds
  rw [hagain] at hsecond
  refine ⟨collected S s t (now - gracePeriodSeconds) true (targets s t checkpointNs), _, _, _, ?_,
    run_collectOrphanedValues verdict now checkpointNs false gracePeriodSeconds, hsecond,
    rfl, rfl, rfl, rfl, hagain, fun ns hns => ⟨?_, fun htrusted => ?_⟩⟩
  · rw [pass, run_collectOrphanedValues, hdry]
    rfl
  · rw [hskipped true ns hns, untrusted_iff hnamed]
  · rw [hskipped true ns hns] at htrusted
    exact hnamed.names_swept hs.stamped hns htrusted

def supersededValue : Store :=
  TextSerde.rehearse
    [TextSerde.putOf "t" "" "a" (Dict.ofList [("x", .int 1)]) (Dict.ofList [("x", "old")]),
      TextSerde.putOf "t" "" "b" (Dict.ofList [("x", .int 2)]) (Dict.ofList [("x", "new")]),
      .deleteOldCheckpoints "t" 1 none] ∅

theorem reachable_supersededValue : Reachable TextSerde.textSaver supersededValue :=
  TextSerde.reachable_rehearse .empty _

theorem collection_exact_supersededValue : ∃ dry real again s',
    pass TextSerde.textSaver (fun _ => .ok ()) 7 "t" none true 0 supersededValue =
      (.ok dry, supersededValue) ∧
    pass TextSerde.textSaver (fun _ => .ok ()) 7 "t" none false 0 supersededValue = (.ok real, s') ∧
    pass TextSerde.textSaver (fun _ => .ok ()) 7 "t" none false 0 s' = (.ok again, s') ∧
    real.deleted = dry.wouldDelete ∧ dry.wouldDelete = [valueBlobPath "t" "" "x" "1"] := by
  obtain ⟨dry, real, again, s', hdry, hreal, hagain, hdeleted, -⟩ :=
    collection_exact TextSerde.lawful_textSerde reachable_supersededValue (fun _ => .ok ()) 7 "t"
      none 0
  have hwould : ((pass TextSerde.textSaver (fun _ => .ok ()) 7 "t" none true 0
      supersededValue).1.toOption.map (·.wouldDelete)) = some [valueBlobPath "t" "" "x" "1"] := by
    decide +kernel
  rw [hdry] at hwould
  exact ⟨dry, real, again, s', hdry, hreal, hagain, hdeleted, Option.some.inj hwould⟩

end LangGraphFunctions.Checkpointers.AzureBlob

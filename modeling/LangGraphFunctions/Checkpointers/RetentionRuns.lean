import LangGraphFunctions.Checkpointers.BlobReach
import LangGraphFunctions.Checkpointers.TextSerde

/-! Retention: what is left at the end, what is seen meanwhile, and what a second call repairs. -/

namespace LangGraphFunctions.Checkpointers.AzureBlob

open Lib

variable {V R G : Type} {S : Saver V R G} {s s' : Store} {t ns id : String} {r : Retention}
  {checkpointNs : Option String} {l : List String}

theorem committed_eraseAll {names : List String} :
    Committed (Container.eraseAll s names) t ns id ↔
      (Key.checkpoint t ns id).path ∉ names ∧ Committed s t ns id := by
  simp only [Committed, Stored, Container.get?_eraseAll]
  by_cases h : (Key.checkpoint t ns id).path ∈ names <;> simp [h]

theorem Named.checkpointIds_eraseAll (hs : Named s) (names : List String) :
    checkpointIds (Container.eraseAll s names) t ns = (checkpointIds s t ns).filter
      fun id => decide ((Key.checkpoint t ns id).path ∉ names) := by
  refine (pairwise_checkpointIds _ t ns).eq_of_mem_iff
    ((pairwise_checkpointIds s t ns).filter _) fun id => ?_
  rw [(hs.eraseAll names).mem_checkpointIds, committed_eraseAll, List.mem_filter,
    decide_eq_true_eq, hs.mem_checkpointIds, and_comm]

theorem marker_mem_cut (hs : Named s)
    (hl : l <+: deletions r.doomed s t (targets s t checkpointNs))
    (h : (Key.checkpoint t ns id).path ∈ l) :
    ns ∈ targets s t checkpointNs ∧ id ∈ r.doomed (checkpointIds s t ns) := by
  obtain ⟨ns', hns, id', hid, k, hk, -, rfl, hkid, -⟩ := mem_cut r.doomed_sublist hl hs h
  rw [Key.path_inj] at hk
  subst hk
  cases hkid
  exact ⟨hns, hid⟩

theorem mem_deletions {k : Key} (hns : ns ∈ targets s t checkpointNs)
    (hid : id ∈ r.doomed (checkpointIds s t ns)) :
    k.path ∈ checkpointBlobs s t ns id →
      k.path ∈ deletions r.doomed s t (targets s t checkpointNs) := fun h =>
  List.mem_flatMap.mpr ⟨ns, hns, List.mem_flatMap.mpr ⟨id, hid, h⟩⟩

theorem Retention.filter_doomed {ids : List String} (h : ids.Nodup) (p : String → Bool)
    (hp : ∀ id ∈ ids, id ∉ r.doomed ids → p id) : r.doomed (ids.filter p) = (r.doomed ids).filter p := by
  cases r with
  | before checkpointId =>
    simp only [Retention.doomed, List.filter_filter, Bool.and_comm]
  | old keepLast =>
    have hkept : (ids.take keepLast).filter p = ids.take keepLast := by
      refine List.filter_eq_self.mpr fun id hid => hp id (List.mem_of_mem_take hid) fun hd => ?_
      rw [← List.take_append_drop keepLast ids] at h
      exact List.disjoint_of_nodup_append h hid hd
    simp only [Retention.doomed]
    conv_lhs => rw [← List.take_append_drop keepLast ids, List.filter_append, hkept]
    by_cases hle : keepLast ≤ ids.length
    · rw [List.drop_append_of_le_length (by rw [List.length_take_of_le hle]),
        List.drop_eq_nil_of_le (by rw [List.length_take_of_le hle]), List.nil_append]
    · rw [List.drop_eq_nil_of_le (show ids.length ≤ keepLast from Nat.le_of_not_le hle), List.filter_nil,
        List.append_nil, List.drop_eq_nil_of_le (by rw [List.length_take]; omega)]

theorem Retention.filter_kept {ids : List String} (h : ids.Nodup) :
    ids.filter (fun id => decide (id ∉ r.doomed ids)) = r.kept ids := by
  cases r with
  | before checkpointId =>
    refine List.filter_congr fun id hid => ?_
    simp only [Retention.doomed, List.mem_filter, hid, true_and, decide_eq_true_eq, not_lt]
  | old keepLast =>
    have hdisjoint : (ids.take keepLast).Disjoint (ids.drop keepLast) := by
      rw [← List.take_append_drop keepLast ids] at h
      exact List.disjoint_of_nodup_append h
    have hfilter (p : String → Bool) (hkept : ∀ id ∈ ids.take keepLast, p id)
        (hdoomed : ∀ id ∈ ids.drop keepLast, ¬ p id) : ids.filter p = ids.take keepLast := by
      conv_lhs => rw [← List.take_append_drop keepLast ids]
      rw [List.filter_append, List.filter_eq_self.mpr hkept, List.filter_eq_nil_iff.mpr hdoomed,
        List.append_nil]
    exact hfilter _ (fun id hid => decide_eq_true (hdisjoint hid))
      fun id hid hkept => of_decide_eq_true hkept hid

theorem Named.checkpointIds_deleted (hs : Named s) (hns : ns ∈ targets s t checkpointNs) :
    checkpointIds (Container.eraseAll s (deletions r.doomed s t (targets s t checkpointNs))) t ns =
      r.kept (checkpointIds s t ns) := by
  rw [hs.checkpointIds_eraseAll, ← Retention.filter_kept (nodup_checkpointIds s t ns)]
  refine List.filter_congr fun id hid => decide_eq_decide.mpr (not_congr ⟨fun h => ?_, fun h => ?_⟩)
  · exact (marker_mem_cut hs List.prefix_rfl h).2
  · exact mem_deletions hns h (mem_checkpointBlobs.mpr ⟨⟨rfl, rfl, rfl⟩, hs.mem_checkpointIds.mp hid⟩)

theorem agree_cut (hs : Named s) (hl : l <+: deletions r.doomed s t (targets s t checkpointNs))
    {t' : String} (h : Committed (Container.eraseAll s l) t' ns id) :
    Container.Agree (Region t' ns id) s (Container.eraseAll s l) := by
  refine Container.agree_eraseAll (fun name hname hregion => ?_) s
  obtain ⟨ns', -, id', -, k, rfl, rfl, rfl, hkid, hmarker⟩ := mem_cut r.doomed_sublist hl hs hname
  cases hregion with
  | inl hvalue =>
    obtain ⟨_, _, rfl⟩ := Key.startswith_valuesPrefix.mp hvalue
    cases hkid
  | inr hbase =>
    obtain ⟨rfl, rfl, hid⟩ := Key.startswith_checkpointBasePrefix.mp hbase
    rw [hkid] at hid
    cases hid
    exact (committed_eraseAll.mp h).1 hmarker

theorem view_buildTuple_cut (hs : Named s)
    (hl : l <+: deletions r.doomed s t (targets s t checkpointNs)) {t' : String}
    (h : Committed (Container.eraseAll s l) t' ns id) (config : RunnableConfig G) :
    view (Container.eraseAll s l) (buildTuple S t' ns id config) =
      view s (buildTuple S t' ns id config) :=
  (view_congr (looks_buildTuple S config) (agree_cut hs hl h)).symm

def lost (s s' : Store) (t : String) (nss : List String) : Nat :=
  (nss.map fun ns => (checkpointIds s t ns).length - (checkpointIds s' t ns).length).sum

theorem Retention.length_kept (r : Retention) (ids : List String) :
    ids.length - (r.kept ids).length = (r.doomed ids).length := by
  cases r with
  | old keepLast =>
    simp only [Retention.kept, Retention.doomed, List.length_take, List.length_drop]
    omega
  | before checkpointId =>
    have hsplit := List.length_eq_length_filter_add (l := ids) (checkpointId ≤ ·)
    have hdoomed : ids.filter (fun id => !decide (checkpointId ≤ id)) =
        ids.filter (· < checkpointId) := by
      refine List.filter_congr fun id _ => ?_
      rw [← decide_not, decide_eq_decide, not_le]
    rw [hdoomed] at hsplit
    simp only [Retention.kept, Retention.doomed]
    omega

/-- Retention leaves the ids it is asked to keep and counts the others, and as long as it runs the
checkpoints that are left are read as before it. -/
theorem retention_exact (hS : S.serde.Lawful) (hs : Reachable S s) (r : Retention) (t : String)
    (checkpointNs : Option String) :
    (∀ s', Leads (r.program t checkpointNs : Call G Nat) s s' → ∀ t' ns,
      (∀ id (config : RunnableConfig G), id ∈ checkpointIds s' t' ns → id ≠ "" →
        Asks config t' ns (some id) → view s' (getTuple S config) = view s (getTuple S config)) ∧
      ∀ asked (config : RunnableConfig G), Asks config t' ns asked → asked.getD "" = "" →
        (∀ id, Latest s' t' ns id → ∃ tuple,
          view s (buildTuple S t' ns id (checkpointConfig t' ns id)) = .ok (some tuple) ∧
          view s' (getTuple S config) = .ok (some tuple)) ∧
        ((∀ id, ¬ Committed s' t' ns id) → view s' (getTuple S config) = .ok none)) ∧
    ∀ result s', Ends (r.program t checkpointNs : Call G Nat) s result s' →
      (∀ ns ∈ targets s t checkpointNs, checkpointIds s' t ns = r.kept (checkpointIds s t ns)) ∧
      (∀ t' ns, ¬ (t' = t ∧ ns ∈ targets s t checkpointNs) →
        checkpointIds s' t' ns = checkpointIds s t' ns) ∧
      result = .ok (lost s s' t (targets s t checkpointNs)) := by
  have hsound := hs.sound hS
  refine ⟨fun s' hleads t' ns => ?_, fun result s' hends => ?_⟩
  · obtain ⟨l, hl, rfl⟩ := r.leads hleads
    have hsound' := hsound.cut r.doomed_sublist hl
    refine ⟨fun id config hid hne hasks => ?_, fun asked config hasks hasked => ⟨fun id hlatest => ?_,
      fun hnone => hsound'.view_latest_none hasks hasked hnone⟩⟩
    · rw [view_getTuple hasks hne, view_getTuple hasks hne]
      exact view_buildTuple_cut hsound.named hl (hsound'.named.mem_checkpointIds.mp hid) config
    · obtain ⟨tuple, htuple⟩ := hsound'.view_buildTuple hlatest.1 (checkpointConfig t' ns id)
      refine ⟨tuple, ?_, (hsound'.view_latest hasks hasked hlatest).trans htuple⟩
      exact (view_buildTuple_cut hsound.named hl hlatest.1 _).symm.trans htuple
  · obtain ⟨rfl, rfl⟩ := r.ends hends
    have hkept (ns) (hns : ns ∈ targets s t checkpointNs) :=
      hsound.named.checkpointIds_deleted (r := r) hns
    refine ⟨hkept, fun t' ns hother => ?_, ?_⟩
    · rw [hsound.named.checkpointIds_eraseAll]
      refine List.filter_eq_self.mpr fun id _ => decide_eq_true fun h => hother ?_
      obtain ⟨ns', hns, id', -, k, hk, rfl, rfl, -, -⟩ :=
        mem_cut r.doomed_sublist List.prefix_rfl hsound.named h
      rw [Key.path_inj] at hk
      subst hk
      exact ⟨rfl, hns⟩
    · refine congrArg Except.ok (congrArg List.sum (List.map_congr_left fun ns hns => ?_))
      rw [hkept ns hns, r.length_kept]

theorem retention_exact_keepOne :
    ["a"] = (Retention.old 1).kept (checkpointIds TextSerde.twoCheckpoints "t" "") ∧
    checkpointIds ((Retention.program (.old 1) "t" none : Call Empty Nat).run
      (serve (fun _ => .ok ()) 0) TextSerde.twoCheckpoints).2 "t" "" =
        (Retention.old 1).kept (checkpointIds TextSerde.twoCheckpoints "t" "") :=
  ⟨by decide +kernel,
    ((retention_exact TextSerde.lawful_textSerde TextSerde.reachable_twoCheckpoints (.old 1) "t" none).2 _ _
      (ends_run _ _ _ _)).1 "" (by decide +kernel)⟩

/-- A request for the empty id is one for the latest checkpoint, which retention may delete first. -/
theorem retention_emptyId : ¬ ∀ s s', Reachable TextSerde.textSaver s →
    Leads (Retention.program (.old 0) "t" (some "") : Call Empty Nat) s s' →
    ∀ id (config : RunnableConfig Empty), id ∈ checkpointIds s' "t" "" →
      Asks config "t" "" (some id) →
      view s' (getTuple TextSerde.textSaver config) = view s (getTuple TextSerde.textSaver config) := by
  intro h
  have hread := h TextSerde.twoCheckpoints _ TextSerde.reachable_twoCheckpoints
    (leads_stoppedAfter (fun _ => .ok ()) 0 4 _ _) "" (checkpointConfig "t" "" "") (by decide +kernel)
    ⟨rfl, rfl, rfl⟩
  have hid := congrArg (fun r : Except Exn (Option (CheckpointTuple String Unit Empty)) =>
    (r.toOption.join).map (·.checkpoint.id)) hread
  exact absurd hid (by decide +kernel)

/-- The checkpoints that an interrupted call has begun to delete, and not finished, stay as they
are: a second call does not find them any more. -/
theorem retention_resumed {s₁ s₂ : Store} {result : Except Exn Nat} (hS : S.serde.Lawful)
    (hs : Reachable S s) (hcut : Leads (r.program t checkpointNs : Call G Nat) s s₁)
    (hagain : Ends (r.program t checkpointNs : Call G Nat) s₁ result s₂) :
    (∀ ns ∈ targets s t checkpointNs, ∀ id ∈ r.doomed (checkpointIds s t ns),
      checkpointBlobs s₂ t ns id = []) ↔
    ∀ ns ∈ targets s t checkpointNs, ∀ id ∈ r.doomed (checkpointIds s t ns),
      id ∉ checkpointIds s₁ t ns → checkpointBlobs s₁ t ns id = [] := by
  have hnamed := (hs.sound hS).named
  obtain ⟨l, hl, rfl⟩ := r.leads hcut
  obtain ⟨-, rfl⟩ := r.ends hagain
  have hnamed₁ := hnamed.eraseAll l
  refine forall_congr' fun ns => forall_congr' fun hns => forall_congr' fun id =>
    forall_congr' fun hid => ?_
  have hblobs : checkpointBlobs (Container.eraseAll (Container.eraseAll s l)
      (deletions r.doomed (Container.eraseAll s l) t
        (targets (Container.eraseAll s l) t checkpointNs))) t ns id =
      (checkpointBlobs (Container.eraseAll s l) t ns id).filter
        (· ∉ deletions r.doomed (Container.eraseAll s l) t
          (targets (Container.eraseAll s l) t checkpointNs)) :=
    Container.names_eraseAll ..
  rw [hblobs]
  by_cases hleft : id ∈ checkpointIds (Container.eraseAll s l) t ns
  · have hcommitted := hnamed₁.mem_checkpointIds.mp hleft
    have htarget : ns ∈ targets (Container.eraseAll s l) t checkpointNs := by
      cases checkpointNs with
      | some ns' => exact hns
      | none => exact hnamed₁.mem_namespaces.mpr ⟨_, hcommitted, rfl, rfl⟩
    have hdoomed : id ∈ r.doomed (checkpointIds (Container.eraseAll s l) t ns) := by
      rw [hnamed.checkpointIds_eraseAll] at hleft ⊢
      rw [Retention.filter_doomed (nodup_checkpointIds s t ns)]
      · exact List.mem_filter.mpr ⟨hid, (List.mem_filter.mp hleft).2⟩
      · exact fun id' _ hkept => decide_eq_true fun h => hkept (marker_mem_cut hnamed hl h).2
    refine iff_of_true (List.filter_eq_nil_iff.mpr fun name hname => ?_) fun h => absurd hleft h
    have hmem : name ∈ deletions r.doomed (Container.eraseAll s l) t
        (targets (Container.eraseAll s l) t checkpointNs) :=
      List.mem_flatMap.mpr ⟨ns, htarget, List.mem_flatMap.mpr ⟨id, hdoomed, hname⟩⟩
    exact fun h => of_decide_eq_true h hmem
  · have hnone : (checkpointBlobs (Container.eraseAll s l) t ns id).filter
        (· ∉ deletions r.doomed (Container.eraseAll s l) t
          (targets (Container.eraseAll s l) t checkpointNs)) =
        checkpointBlobs (Container.eraseAll s l) t ns id := by
      refine List.filter_eq_self.mpr fun name hname => decide_eq_true fun h => hleft ?_
      obtain ⟨k, rfl, -, hstart⟩ := hnamed₁.of_mem_names hname
      obtain ⟨-, hkns, hkid⟩ := Key.startswith_checkpointBasePrefix.mp hstart
      obtain ⟨ns', -, id', hid', k', hk, -, hkns', hkid', -⟩ :=
        mem_cut r.doomed_sublist List.prefix_rfl hnamed₁ h
      rw [Key.path_inj] at hk
      subst hk
      rw [hkns] at hkns'
      rw [hkid] at hkid'
      cases hkid'
      subst hkns'
      exact (r.doomed_sublist _).subset hid'
    rw [hnone]
    exact ⟨fun h _ => h, fun h => h hleft⟩

/-- A call stopped right after the marker of its only checkpoint, and run again. -/
theorem retention_interrupted : ¬ ∀ s s₁ s₂ result, Reachable TextSerde.textSaver s →
    Leads (Retention.program (.old 0) "t" (some "") : Call Empty Nat) s s₁ →
    Ends (Retention.program (.old 0) "t" (some "") : Call Empty Nat) s₁ result s₂ →
    ∀ id ∈ (Retention.old 0).doomed (checkpointIds s "t" ""), checkpointBlobs s₂ "t" "" id = [] := by
  intro h
  have hblobs := h (TextSerde.rehearse [TextSerde.putOf "t" "" "a" ∅ ∅] ∅) _ _ _
    (TextSerde.reachable_rehearse .empty _) (leads_stoppedAfter (fun _ => .ok ()) 0 3 _ _)
    (ends_run (fun _ => .ok ()) 0 _ _) "a" (by decide +kernel)
  exact absurd hblobs (by decide +kernel)

theorem retention_resumed_afterMarker : ¬ ∀ ns ∈ targets TextSerde.twoCheckpoints "t" (some ""),
    ∀ id ∈ (Retention.old 0).doomed (checkpointIds TextSerde.twoCheckpoints "t" ns),
      id ∉ checkpointIds (stoppedAfter (fun _ => .ok ()) 0 3
        (Retention.program (.old 0) "t" (some "") : Call Empty Nat) TextSerde.twoCheckpoints) "t" ns →
      checkpointBlobs (stoppedAfter (fun _ => .ok ()) 0 3
        (Retention.program (.old 0) "t" (some "") : Call Empty Nat) TextSerde.twoCheckpoints) "t" ns id = [] :=
  fun h => absurd ((retention_resumed TextSerde.lawful_textSerde TextSerde.reachable_twoCheckpoints
    (leads_stoppedAfter (fun _ => .ok ()) 0 3 _ _) (ends_run (fun _ => .ok ()) 0 _ _)).mpr h
    "" (by decide +kernel) "a" (by decide +kernel)) (by decide +kernel)

end LangGraphFunctions.Checkpointers.AzureBlob

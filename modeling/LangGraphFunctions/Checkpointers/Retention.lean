import LangGraphFunctions.Checkpointers.BlobSound

/-! Which blobs the retention helpers delete, in which order, and what the readers see meanwhile. -/

namespace LangGraphFunctions.Checkpointers.AzureBlob

open Lib

variable {V R G : Type} {S : Saver V R G} {s s' : Store} {t ns id : String} {C : Store → Prop}
  {pick : List String → List String}

def doomedBlobs (s : Store) (t ns : String) (ids : List String) : List String :=
  ids.flatMap (checkpointBlobs s t ns)

def deletions (pick : List String → List String) (s : Store) (t : String) (nss : List String) :
    List String :=
  nss.flatMap fun ns => doomedBlobs s t ns (pick (checkpointIds s t ns))

def doomedCount (pick : List String → List String) (s : Store) (t : String) (nss : List String) :
    Nat :=
  (nss.map fun ns => (pick (checkpointIds s t ns)).length).sum

theorem checkpointBase_unique {name id id' : String}
    (h : Names.startswith name (checkpointBasePrefix t ns id))
    (h' : Names.startswith name (checkpointBasePrefix t ns id')) : id = id' := by
  have hplain (id : String) : Names.Plain '/' (checkpointSegments t ns id) :=
    ((plain_namespaceSegments t ns).append (by simp [Names.Plain])).append
      (by simp [Names.Plain, plain_escape])
  rw [checkpointBasePrefix_eq] at h h'
  have hsegments := Names.directory_unique (hplain id) (hplain id') rfl h h'
  exact escape_injective (by simpa [checkpointSegments] using hsegments)

theorem startswith_checkpointBase {name : String}
    (h : Names.startswith name (checkpointBasePrefix t ns id)) :
    Names.startswith name (checkpointsPrefix t ns) := by
  rw [checkpointBasePrefix, String.append_assoc] at h
  exact Names.startswith_append (checkpointsPrefix t ns) h

theorem startswith_checkpoints {name : String} (h : Names.startswith name (checkpointsPrefix t ns)) :
    Names.startswith name (namespacePrefix t ns) := by
  rw [checkpointsPrefix] at h
  exact Names.startswith_append (namespacePrefix t ns) h

theorem startswith_of_mem_doomedBlobs {ids : List String} {name : String}
    (h : name ∈ doomedBlobs s t ns ids) : Names.startswith name (checkpointsPrefix t ns) := by
  obtain ⟨id, -, hname⟩ := List.mem_flatMap.mp h
  exact startswith_checkpointBase (Container.startswith_of_mem_names hname)

theorem checkpointBlobs_eraseAll {names : List String}
    (h : ∀ name ∈ names, ¬ Names.startswith name (checkpointBasePrefix t ns id)) :
    checkpointBlobs (Container.eraseAll s names) t ns id = checkpointBlobs s t ns id :=
  ((Container.agree_eraseAll h s).names fun _ hname => hname).symm

theorem checkpointIds_eraseAll {names : List String}
    (h : ∀ name ∈ names, ¬ Names.startswith name (checkpointsPrefix t ns)) :
    checkpointIds (Container.eraseAll s names) t ns = checkpointIds s t ns := by
  rw [checkpointIds, checkpointIds, (Container.agree_eraseAll h s).names fun _ hname => hname]

theorem doomedBlobs_eraseAll {names ids : List String}
    (h : ∀ name ∈ names, ∀ id ∈ ids, ¬ Names.startswith name (checkpointBasePrefix t ns id)) :
    doomedBlobs (Container.eraseAll s names) t ns ids = doomedBlobs s t ns ids :=
  List.flatMap_congr fun id hid => checkpointBlobs_eraseAll fun name hname => h name hname id hid

theorem forM_items {pre : String} (f : String → Call G PUnit) :
    ((items s pre).forM fun blob => f blob.name) = (Container.names s pre).forM f := by
  rw [items]
  induction Container.names s pre with
  | nil => rfl
  | cons name names ih => exact bind_congr fun _ => ih

theorem keeps_deleteCheckpointBlobs {Q : Except Exn PUnit → Store → Prop}
    (hC : ∀ l, l <+: checkpointBlobs s t ns id → C (Container.eraseAll s l))
    (hok : Q (.ok ()) (Container.eraseAll s (checkpointBlobs s t ns id))) :
    Keeps C (deleteCheckpointBlobs t ns id : Call G Unit) Q s := by
  have hlist : Looks (fun _ => True) (listBlobs (checkpointBasePrefix t ns id) : Call G _) :=
    looks_bind (looks_perform fun _ _ => trivial) looks_ofExcept
  refine keeps_look_bind hlist (hC [] List.nil_prefix) (fun blobs hblobs => ?_) fun e he => ?_
  · rw [view_listBlobs] at hblobs
    cases hblobs
    rw [forM_items]
    exact keeps_deleteAll hC hok
  · cases he

theorem keeps_deleteAllCheckpoints {Q : Except Exn PUnit → Store → Prop} {ids : List String}
    (hids : ids.Nodup) (hC : ∀ l, l <+: doomedBlobs s t ns ids → C (Container.eraseAll s l))
    (hok : Q (.ok ()) (Container.eraseAll s (doomedBlobs s t ns ids))) :
    Keeps C (ids.forM (deleteCheckpointBlobs t ns) : Call G PUnit) Q s := by
  induction ids generalizing s with
  | nil => exact hok
  | cons id ids ih =>
    obtain ⟨hid, hids⟩ := List.nodup_cons.mp hids
    have hrest : doomedBlobs (Container.eraseAll s (checkpointBlobs s t ns id)) t ns ids =
        doomedBlobs s t ns ids := by
      refine doomedBlobs_eraseAll fun name hname id' hid' h => hid ?_
      rw [checkpointBase_unique (Container.startswith_of_mem_names hname) h]
      exact hid'
    have happend : doomedBlobs s t ns (id :: ids) =
        checkpointBlobs s t ns id ++ doomedBlobs s t ns ids := rfl
    change Keeps C (deleteCheckpointBlobs t ns id >>= fun _ => ids.forM (deleteCheckpointBlobs t ns))
      Q s
    refine keeps_bind (keeps_deleteCheckpointBlobs (fun l hl => hC l ?_) ?_)
    · exact hl.trans (happend ▸ List.prefix_append _ _)
    · refine ih hids (fun l hl => ?_) ?_
      · rw [← Container.eraseAll_append]
        rw [hrest] at hl
        exact hC _ (happend ▸ (List.prefix_append_right_inj _).mpr hl)
      · rw [hrest, ← Container.eraseAll_append]
        exact hok

theorem not_startswith_other {names : List String} {ns' : String} (hne : ns ≠ ns')
    (h : ∀ name ∈ names, Names.startswith name (checkpointsPrefix t ns)) :
    ∀ name ∈ names, ¬ Names.startswith name (checkpointsPrefix t ns') := fun name hname h' =>
  hne (namespacePrefix_unique (startswith_checkpoints (h name hname)) (startswith_checkpoints h')).2

theorem deletions_eraseAll {names nss : List String}
    (h : ∀ ns ∈ nss, ∀ name ∈ names, ¬ Names.startswith name (checkpointsPrefix t ns)) :
    deletions pick (Container.eraseAll s names) t nss = deletions pick s t nss := by
  refine List.flatMap_congr fun ns hns => ?_
  rw [checkpointIds_eraseAll (h ns hns)]
  exact doomedBlobs_eraseAll fun name hname id _ hid =>
    h ns hns name hname (startswith_checkpointBase hid)

theorem doomedCount_eraseAll {names nss : List String}
    (h : ∀ ns ∈ nss, ∀ name ∈ names, ¬ Names.startswith name (checkpointsPrefix t ns)) :
    doomedCount pick (Container.eraseAll s names) t nss = doomedCount pick s t nss := by
  refine congrArg List.sum (List.map_congr_left fun ns hns => ?_)
  rw [checkpointIds_eraseAll (h ns hns)]

theorem keeps_deleteDoomed {Q : Except Exn Nat → Store → Prop} {nss : List String} {n : Nat}
    (hpick : ∀ l, (pick l).Sublist l) (hnss : nss.Nodup)
    (hC : ∀ l, l <+: deletions pick s t nss → C (Container.eraseAll s l))
    (hok : Q (.ok (n + doomedCount pick s t nss))
      (Container.eraseAll s (deletions pick s t nss))) :
    Keeps C (nss.foldlM (deleteDoomed pick t) n : Call G Nat) Q s := by
  induction nss generalizing s n with
  | nil => exact hok
  | cons ns nss ih =>
    obtain ⟨hns, hnss⟩ := List.nodup_cons.mp hnss
    have hother : ∀ ns' ∈ nss, ∀ name ∈ doomedBlobs s t ns (pick (checkpointIds s t ns)),
        ¬ Names.startswith name (checkpointsPrefix t ns') := fun ns' hns' =>
      not_startswith_other (fun h => hns (by rwa [h])) fun _ => startswith_of_mem_doomedBlobs
    have happend : deletions pick s t (ns :: nss) =
        doomedBlobs s t ns (pick (checkpointIds s t ns)) ++ deletions pick s t nss := rfl
    have hcount : doomedCount pick s t (ns :: nss) =
        (pick (checkpointIds s t ns)).length + doomedCount pick s t nss := List.sum_cons
    have hlist : Looks (fun _ => True) (listCheckpointIds t ns : Call G _) :=
      looks_listCheckpointIds fun _ _ => trivial
    rw [List.foldlM_cons]
    refine keeps_bind (keeps_look_bind hlist (hC [] List.nil_prefix) (fun ids hids => ?_)
      fun e he => ?_)
    · rw [view_listCheckpointIds] at hids
      cases hids
      have hnodup := (nodup_checkpointIds s t ns).sublist (hpick _)
      refine keeps_bind (keeps_deleteAllCheckpoints hnodup (fun l hl => hC l ?_) ?_)
      · exact hl.trans (happend ▸ List.prefix_append _ _)
      · refine ih hnss (fun l hl => ?_) ?_
        · rw [deletions_eraseAll hother] at hl
          rw [← Container.eraseAll_append]
          exact hC _ (happend ▸ (List.prefix_append_right_inj _).mpr hl)
        · rw [deletions_eraseAll hother, doomedCount_eraseAll hother, ← Container.eraseAll_append,
            Nat.add_assoc, ← hcount]
          exact hok
    · rw [view_listCheckpointIds] at he
      cases he

inductive Retention
  | old (keepLast : Nat)
  | before (checkpointId : String)

/-- The ids that go, and those that stay, of the ids of a namespace, newest first. -/
def Retention.doomed : Retention → List String → List String
  | old keepLast, ids => ids.drop keepLast
  | before checkpointId, ids => ids.filter (· < checkpointId)

def Retention.kept : Retention → List String → List String
  | old keepLast, ids => ids.take keepLast
  | before checkpointId, ids => ids.filter (checkpointId ≤ ·)

def Retention.program : Retention → String → Option String → Call G Nat
  | old keepLast, t, checkpointNs => deleteOldCheckpoints t keepLast checkpointNs
  | before checkpointId, t, checkpointNs => deleteCheckpointsBefore t checkpointId checkpointNs

theorem Retention.doomed_sublist (r : Retention) (ids : List String) :
    (r.doomed ids).Sublist ids := by
  cases r with
  | old => exact List.drop_sublist ..
  | before => exact List.filter_sublist

theorem Retention.keeps (r : Retention) (t : String) (checkpointNs : Option String)
    {Q : Except Exn Nat → Store → Prop}
    (hC : ∀ l, l <+: deletions r.doomed s t (targets s t checkpointNs) → C (Container.eraseAll s l))
    (hok : Q (.ok (doomedCount r.doomed s t (targets s t checkpointNs)))
      (Container.eraseAll s (deletions r.doomed s t (targets s t checkpointNs)))) :
    Keeps C (r.program t checkpointNs : Call G Nat) Q s := by
  have hnodup := nodup_targets s t checkpointNs
  have hloop : Keeps C (targetNamespaces t checkpointNs >>= fun nss =>
      nss.foldlM (deleteDoomed r.doomed t) 0 : Call G Nat) Q s := by
    refine keeps_look_bind (looks_targetNamespaces t checkpointNs) (hC [] List.nil_prefix)
      (fun nss hnss => ?_) fun e he => ?_
    · rw [view_targetNamespaces] at hnss
      cases hnss
      rw [← Nat.zero_add (doomedCount ..)] at hok
      exact keeps_deleteDoomed r.doomed_sublist hnodup hC hok
    · rw [view_targetNamespaces] at he
      cases he
  cases r with
  | old keepLast =>
    rw [Retention.program, deleteOldCheckpoints, if_neg (Int.natCast_nonneg keepLast).not_gt]
    exact hloop
  | before checkpointId => exact hloop

theorem Retention.leads {r : Retention} {checkpointNs : Option String}
    (h : Leads (r.program t checkpointNs : Call G Nat) s s') :
    ∃ l, l <+: deletions r.doomed s t (targets s t checkpointNs) ∧ s' = Container.eraseAll s l :=
  h.keeps (C := fun s' => ∃ l, l <+: deletions r.doomed s t (targets s t checkpointNs) ∧
      s' = Container.eraseAll s l)
    (Q := fun _ _ => True) (r.keeps t checkpointNs (fun l hl => ⟨l, hl, rfl⟩) trivial)
    ⟨[], List.nil_prefix, rfl⟩

theorem Retention.ends {r : Retention} {checkpointNs : Option String} {result : Except Exn Nat}
    (h : Ends (r.program t checkpointNs : Call G Nat) s result s') :
    result = .ok (doomedCount r.doomed s t (targets s t checkpointNs)) ∧
      s' = Container.eraseAll s (deletions r.doomed s t (targets s t checkpointNs)) :=
  h.keeps (C := fun _ => True)
    (Q := fun result s' => result = .ok (doomedCount r.doomed s t (targets s t checkpointNs)) ∧
      s' = Container.eraseAll s (deletions r.doomed s t (targets s t checkpointNs)))
    (r.keeps t checkpointNs (fun _ _ => trivial) ⟨rfl, rfl⟩)

end LangGraphFunctions.Checkpointers.AzureBlob

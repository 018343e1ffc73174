import LangGraphFunctions.Checkpointers.BlobFootprints
import LangGraphFunctions.Checkpointers.CollectionRuns
import LangGraphFunctions.Lib.Transcript

/-! What the record of a collection says about the run that made it. -/

namespace LangGraphFunctions.Checkpointers.AzureBlob

open Lib

variable {V R G α β : Type} {S : Saver V R G} {t ns : String} {cutoff : Int}

inductive Change
  | upload (name : String)
  | delete (name : String)
  deriving DecidableEq

def changes : (o : Op G) × o.Ans → List Change
  | ⟨.uploadBlob blob _ _, _⟩ => [.upload blob]
  | ⟨.deleteBlob blob, _⟩ => [.delete blob]
  | _ => []

abbrev Records (p : Call G α) (T : Except Exn α → List Change → Prop) : Prop :=
  p.Writes (I := interface G) Listed changes T

theorem records_look {N : String → Prop} {p : Call G α} (hp : Looks N p) :
    Records p fun _ u => u = [] := by
  induction p with
  | ret a => rfl
  | raise e => rfl
  | call o k ih =>
    intro a ha
    have hcall := Prog.uses_call.mp hp
    apply Prog.Writes.mono (ih a (hcall.2 a ha))
    rintro r u rfl
    cases o with
    | uploadBlob => exact hcall.1.elim
    | deleteBlob => exact hcall.1.elim
    | _ => rfl

theorem records_look_bind {N : String → Prop} {p : Call G α} {q : α → Call G β}
    {T : Except Exn β → List Change → Prop} (hp : Looks N p) (hok : ∀ a, Records (q a) T)
    (herror : ∀ e, T (.error e) []) : Records (p >>= q) T := by
  apply Prog.writes_bind (records_look hp)
  · rintro a u rfl
    exact hok a
  · rintro e u rfl
    exact herror e

structure Audited (before after : OrphanedValueCollectionResult) (names l : List String) :
    Prop where
  dryRun : after.dryRun = before.dryRun
  wouldDelete : after.wouldDelete = before.wouldDelete ++ names
  deleted : after.deleted = before.deleted ++ l
  sublist : l.Sublist names
  dry : before.dryRun → l = []

theorem Audited.refl (result : OrphanedValueCollectionResult) : Audited result result [] [] := by
  constructor <;> simp

theorem Audited.trans {a b c : OrphanedValueCollectionResult} {names names' l l' : List String}
    (h : Audited a b names l) (h' : Audited b c names' l') :
    Audited a c (names ++ names') (l ++ l') where
  dryRun := h'.dryRun.trans h.dryRun
  wouldDelete := by rw [h'.wouldDelete, h.wouldDelete, List.append_assoc]
  deleted := by rw [h'.deleted, h.deleted, List.append_assoc]
  sublist := h.sublist.append h'.sublist
  dry hdry := by rw [h.dry hdry, h'.dry (h.dryRun.trans hdry)]; rfl

theorem records_deleteBlobIfThere (name : String) :
    Records (deleteBlobIfThere name : Call G Unit) fun _ u => u = [.delete name] := by
  intro a _
  cases a with
  | ok _ => rfl
  | error e => cases e <;> rfl

theorem records_deleteOrphan (st : OrphanedValueCollectionResult × Bool) (name : String) :
    Records (deleteOrphan S t ns st name) fun r u => ∀ st', r = .ok st' →
      ∃ l, u = l.map Change.delete ∧ l.Sublist [name] ∧ st'.1.dryRun = st.1.dryRun ∧
        st'.1.wouldDelete = st.1.wouldDelete ∧ st'.1.deleted = st.1.deleted ++ l := by
  have hnone (broken : Bool) (result : OrphanedValueCollectionResult)
      (hdry : result.dryRun = st.1.dryRun) (hwould : result.wouldDelete = st.1.wouldDelete)
      (hdeleted : result.deleted = st.1.deleted) :
      Records (return (result, broken) : Call G _) fun r u => ∀ st', r = .ok st' →
        ∃ l, u = l.map Change.delete ∧ l.Sublist [name] ∧ st'.1.dryRun = st.1.dryRun ∧
          st'.1.wouldDelete = st.1.wouldDelete ∧ st'.1.deleted = st.1.deleted ++ l := by
    intro st' hst
    cases hst
    exact ⟨[], rfl, List.nil_sublist _, hdry, hwould, by rw [hdeleted, List.append_nil]⟩
  obtain ⟨result, broken⟩ := st
  cases broken with
  | true => exact hnone true result rfl rfl rfl
  | false =>
    refine records_look_bind (looks_readLatestCheckpointId (N := fun _ => True) trivial)
      (fun latest => ?_) fun e st' h => by cases h
    cases latest with
    | none => exact hnone true _ rfl rfl rfl
    | some latest =>
      refine records_look_bind (looks_collectRetainedVersions t ns) (fun fresh => ?_)
        fun e st' h => by cases h
      cases fresh with
      | none => exact hnone true _ rfl rfl rfl
      | some fresh =>
        dsimp only
        split
        · exact hnone false result rfl rfl rfl
        · apply Prog.writes_bind (records_deleteBlobIfThere name)
          · rintro _ u rfl st' hst
            cases hst
            exact ⟨[name], rfl, List.Sublist.refl _, rfl, rfl, rfl⟩
          · rintro e u _ st' hst
            cases hst

theorem records_deleteOrphans (result : OrphanedValueCollectionResult) (names : List String) :
    Records (names.foldlM (deleteOrphan S t ns) (result, false)) fun r u => ∀ st', r = .ok st' →
      ∃ l, u = l.map Change.delete ∧ l.Sublist names ∧ st'.1.dryRun = result.dryRun ∧
        st'.1.wouldDelete = result.wouldDelete ∧ st'.1.deleted = result.deleted ++ l := by
  refine Prog.writes_foldlM (fun done (st : OrphanedValueCollectionResult × Bool) u =>
    ∃ l, u = l.map Change.delete ∧ l.Sublist done ∧ st.1.dryRun = result.dryRun ∧
      st.1.wouldDelete = result.wouldDelete ∧ st.1.deleted = result.deleted ++ l) ?_ ?_
  · rintro done name rest st _ _ ⟨l, rfl, hsub, hdry, hwould, hdeleted⟩
    apply Prog.Writes.mono (records_deleteOrphan st name)
    rintro r v h st' hst
    obtain ⟨l', rfl, hsub', hdry', hwould', hdeleted'⟩ := h st' hst
    refine ⟨l ++ l', List.map_append.symm, hsub.append hsub', hdry'.trans hdry, hwould'.trans hwould,
      ?_⟩
    rw [hdeleted', hdeleted, List.append_assoc]
  · exact ⟨[], rfl, List.nil_sublist _, rfl, rfl, (List.append_nil _).symm⟩

theorem records_listValueBlobs_bind
    {q : List (String × Option (String × String) × Option Int) → Call G β}
    {T : Except Exn β → List Change → Prop}
    (hok : ∀ blobs, (∀ blob ∈ blobs, Names.startswith blob.1 (valuesPrefix t ns)) →
      Records (q blobs) T)
    (herror : ∀ e, T (.error e) []) : Records (listValueBlobs t ns >>= q) T := by
  intro listed hlisted
  cases listed with
  | error e => exact herror e
  | ok blobs =>
    apply hok
    intro blob hblob
    obtain ⟨item, hitem, rfl⟩ := List.mem_map.mp hblob
    exact hlisted item hitem

theorem records_collectNamespace (result : OrphanedValueCollectionResult) (ns : String) :
    Records (collectNamespace S t cutoff result ns) fun r u => ∀ after, r = .ok after →
      ∃ names l, u = l.map Change.delete ∧ Audited result after names l ∧
        ∀ name ∈ names, ∃ ns, Names.startswith name (valuesPrefix t ns) := by
  have hskip : Records (return result.skip t ns : Call G _) fun r u => ∀ after, r = .ok after →
      ∃ names l, u = l.map Change.delete ∧ Audited result after names l ∧
        ∀ name ∈ names, ∃ ns, Names.startswith name (valuesPrefix t ns) := by
    intro after hafter
    cases hafter
    exact ⟨[], [], rfl, ⟨rfl, (List.append_nil _).symm, (List.append_nil _).symm,
      List.Sublist.refl _, fun _ => rfl⟩, fun name h => absurd h List.not_mem_nil⟩
  refine records_look_bind (looks_readLatestCheckpointId (N := fun _ => True) trivial)
    (fun latest => ?_) fun e after h => by cases h
  cases latest with
  | none => exact hskip
  | some latest =>
    refine records_look_bind (looks_collectRetainedVersions t ns) (fun retained => ?_)
      fun e after h => by cases h
    cases retained with
    | none => exact hskip
    | some retained =>
      refine records_listValueBlobs_bind (fun blobs hblobs => ?_) fun e after h => by cases h
      have hvalues (name : String) (h : name ∈ ((blobs.filter fun blob =>
          isOrphan retained blob.2.1).filter fun blob => !isRecent cutoff blob.2.2).map (·.1)) :
          ∃ ns, Names.startswith name (valuesPrefix t ns) := by
        obtain ⟨blob, hblob, rfl⟩ := List.mem_map.mp h
        exact ⟨ns, hblobs blob (List.mem_of_mem_filter (List.mem_of_mem_filter hblob))⟩
      dsimp only
      split
      · intro after hafter
        cases hafter
        exact ⟨_, [], rfl, ⟨rfl, rfl, (List.append_nil _).symm, List.nil_sublist _, fun _ => rfl⟩,
          hvalues⟩
      · rename_i hdry
        apply Prog.writes_bind (records_deleteOrphans _ _)
        · intro st u h after hafter
          cases hafter
          obtain ⟨l, rfl, hsub, hdryRun, hwould, hdeleted⟩ := h st rfl
          exact ⟨_, l, List.append_nil _, ⟨hdryRun, hwould, hdeleted, hsub, fun h => absurd h hdry⟩,
            hvalues⟩
        · intro e u _ after h
          cases h

/-- However the container answers, and whatever others do to it, a pass that ends has asked for
exactly the deletions it has recorded, in that order and no other change; they are among the orphans
it has listed, which are values of the thread, and a dry run has asked for none. -/
theorem collection_recorded {checkpointNs : Option String} {dryRun : Bool}
    {gracePeriodSeconds : Int} {w : Transcript (interface G)} {result : OrphanedValueCollectionResult}
    (h : (collectOrphanedValues S t checkpointNs dryRun gracePeriodSeconds).Plays Listed w
      (.ret result)) :
    w.flatMap changes = result.deleted.map .delete ∧ result.deleted.Sublist result.wouldDelete ∧
      result.dryRun = dryRun ∧ (dryRun → result.deleted = []) ∧
      ∀ name ∈ result.wouldDelete, ∃ ns, Names.startswith name (valuesPrefix t ns) := by
  have hpass : Records (collectOrphanedValues S t checkpointNs dryRun gracePeriodSeconds)
      fun r u => ∀ after, r = .ok after → ∃ names l, u = l.map Change.delete ∧
        Audited ⟨dryRun, [], [], [], []⟩ after names l ∧
        ∀ name ∈ names, ∃ ns, Names.startswith name (valuesPrefix t ns) := by
    refine records_look_bind (looks_targetNamespaces t checkpointNs) (fun nss => ?_)
      fun e after h => by cases h
    intro clock _
    refine Prog.writes_foldlM (fun _ after u => ∃ names l, u = l.map Change.delete ∧
        Audited ⟨dryRun, [], [], [], []⟩ after names l ∧
        ∀ name ∈ names, ∃ ns, Names.startswith name (valuesPrefix t ns)) ?_ ?_
    · rintro done ns rest before _ _ ⟨names, l, rfl, hrecorded, hvalues⟩
      apply Prog.Writes.mono (records_collectNamespace before ns)
      rintro r v h after hafter
      obtain ⟨names', l', rfl, hrecorded', hvalues'⟩ := h after hafter
      refine ⟨names ++ names', l ++ l', List.map_append.symm, hrecorded.trans hrecorded', ?_⟩
      intro name hname
      exact (List.mem_append.mp hname).elim (hvalues name) (hvalues' name)
    · exact ⟨[], [], rfl, Audited.refl _, fun name h => absurd h List.not_mem_nil⟩
  obtain ⟨names, l, hchanges, hrecorded, hvalues⟩ :=
    (Prog.Plays.writes (r := .ok result) h hpass) _ rfl
  have hdeleted : result.deleted = l := hrecorded.deleted
  have hwould : result.wouldDelete = names := hrecorded.wouldDelete
  rw [hdeleted, hwould]
  exact ⟨hchanges, hrecorded.sublist, hrecorded.dryRun, hrecorded.dry, hvalues⟩

theorem collection_recorded_supersededValue : ∃ (w : Transcript (interface Empty)) (result : _),
    (collectOrphanedValues TextSerde.textSaver "t" none false 0).Plays Listed w (.ret result) ∧
    result.deleted = [valueBlobPath "t" "" "x" "1"] ∧
    w.flatMap changes = result.deleted.map .delete := by
  have hrun : ((collectOrphanedValues TextSerde.textSaver "t" none false 0).answered
      fun o => some (answers supersededValue o)).map (fun run => run.2.toOption.map (·.deleted)) =
      some (some [valueBlobPath "t" "" "x" "1"]) := by decide +kernel
  obtain ⟨run, hanswered, hended⟩ := Option.map_eq_some_iff.mp hrun
  obtain ⟨result, hresult, hdeleted⟩ := Option.map_eq_some_iff.mp hended
  obtain ⟨w, r⟩ := run
  cases r with
  | error e => cases hresult
  | ok result' =>
    cases hresult
    have hplays := Prog.plays_answered (A := Listed) (fun o a h => by
      cases h
      exact serve_listed _ _ o) hanswered
    exact ⟨w, result, hplays, hdeleted, (collection_recorded hplays).1⟩

end LangGraphFunctions.Checkpointers.AzureBlob

import LangGraphFunctions.Checkpointers.BlobKept
import LangGraphFunctions.Checkpointers.Collection

/-! Every container that operations of the saver lead to is sound. -/

namespace LangGraphFunctions.Checkpointers.AzureBlob

open Lib

variable {V R G : Type} {S : Saver V R G} {s s' : Store} {t ns id : String}

theorem looks_buildAny (config : RunnableConfig G) :
    Looks (fun _ => True) (buildTuple S t ns id config) :=
  (looks_buildTuple S config).mono fun _ _ => trivial

theorem looks_getLatestTuple (t ns : String) : Looks (fun _ => True) (getLatestTuple S t ns) := by
  have hscan : Looks (fun _ => True) (findLatestCheckpointId t ns >>= buildFound S t ns) := by
    refine looks_bind (looks_findLatestCheckpointId t ns) fun latest => ?_
    cases latest with
    | none => exact looks_ret _
    | some latest => exact looks_buildAny _
  refine looks_bind (looks_readLatestCheckpointId trivial) fun hint => ?_
  cases hint with
  | none => exact hscan
  | some hint =>
    refine looks_bind (looks_buildAny _) fun tuple => ?_
    cases tuple with
    | none => exact hscan
    | some tuple => exact looks_ret _

theorem looks_getTuple (config : RunnableConfig G) : Looks (fun _ => True) (getTuple S config) := by
  refine looks_bind (looks_ofExcept _) fun t => looks_bind (looks_ofExcept _) fun ns =>
    looks_bind (looks_ofExcept _) fun requested => ?_
  split
  · exact looks_getLatestTuple t ns
  · exact looks_buildAny _

theorem looks_listCheckpoint (filter : List (String × V)) (configId beforeId : Option String)
    (e : Enumeration V R G) (id : String) :
    Looks (fun _ => True) (listCheckpoint S filter configId beforeId t ns e id) := by
  rw [listCheckpoint]
  split
  · exact looks_ret _
  · refine looks_bind (looks_buildAny _) fun tuple => ?_
    cases tuple with
    | none => exact looks_ret _
    | some tuple =>
      change Looks _ (if S.passes filter tuple.metadata then _ else _)
      split <;> exact looks_ret _

theorem looks_listNamespace (filter : List (String × V)) (configId beforeId : Option String)
    (e : Enumeration V R G) (ns : String) :
    Looks (fun _ => True) (listNamespace S filter configId beforeId t e ns) := by
  rw [listNamespace]
  split
  · exact looks_ret _
  · refine looks_bind (looks_listCheckpointIds fun _ _ => trivial) fun ids => ?_
    exact Prog.uses_foldlM _ fun e id _ => looks_listCheckpoint filter configId beforeId e id

theorem looks_listThread (filter : List (String × V)) (configNs configId beforeId : Option String)
    (e : Enumeration V R G) (t : String) :
    Looks (fun _ => True) (listThread S filter configNs configId beforeId e t) := by
  rw [listThread]
  split
  · exact looks_ret _
  · refine looks_bind (looks_targetNamespaces t configNs) fun nss => ?_
    exact Prog.uses_foldlM _ fun e ns _ => looks_listNamespace filter configId beforeId e ns

theorem looks_targetThreads (config : Option (RunnableConfig G)) :
    Looks (fun _ => True) (targetThreads config) := by
  cases config with
  | some config => exact looks_ofExcept _
  | none => exact looks_listBlobs_bind (fun _ _ => trivial) fun _ _ => looks_ret _

theorem looks_list (q : Query V G) : Looks (fun _ => True) (list S q) := by
  refine looks_bind (looks_ofExcept _) fun configNs => looks_bind (looks_ofExcept _) fun configId =>
    looks_bind (looks_ofExcept _) fun beforeId => looks_bind (looks_targetThreads _) fun ts => ?_
  refine looks_bind (Prog.uses_foldlM _ fun e t _ => ?_) fun _ => looks_ret _
  exact looks_listThread q.filter configNs configId.join beforeId.join e t

theorem Sound.erase_values {names : List String} (hs : Sound S s)
    (h : ∀ name ∈ names, ∃ ns, Names.startswith name (valuesPrefix t ns)) :
    Sound S (Container.eraseAll s names) := by
  refine hs.eraseAll fun t' ns' id' hmem => ?_
  obtain ⟨ns, hns⟩ := h _ hmem
  obtain ⟨_, _, hkey⟩ := Key.startswith_valuesPrefix.mp hns
  cases hkey

theorem keeps_discard {α : Type} {C : Store → Prop} {p : Call G α}
    (h : Keeps C p (fun _ _ => True) s) : Keeps C (p.bind fun _ => return ()) (fun _ _ => True) s :=
  keeps_bind (h.mono fun r _ _ => by cases r <;> trivial)

theorem keeps_request (hS : S.serde.Lawful) (hs : Sound S s) (q : Request V R G) :
    Keeps (Sound S) (q.program S) (fun _ _ => True) s := by
  cases q with
  | getTuple config => exact keeps_discard (keeps_look (looks_getTuple config) hs trivial)
  | agetTuple config => exact keeps_discard (keeps_look (looks_getTuple config) hs trivial)
  | list q => exact keeps_discard (keeps_look (looks_list q) hs trivial)
  | alist q => exact keeps_discard (keeps_look (looks_list q) hs trivial)
  | put => exact keeps_discard (keeps_put hS hs ..)
  | aput => exact keeps_discard (keeps_put hS hs ..)
  | putWrites => exact keeps_putWrites hS hs ..
  | aputWrites => exact keeps_putWrites hS hs ..
  | deleteThread t => exact keeps_deleteThread hs t
  | adeleteThread t => exact keeps_deleteThread hs t
  | deleteCheckpointsBefore t id checkpointNs =>
    exact keeps_discard (keeps_retention hs (.before id) t checkpointNs)
  | deleteOldCheckpoints t keepLast checkpointNs =>
    refine keeps_discard ?_
    by_cases hneg : keepLast < 0
    · rw [deleteOldCheckpoints, if_pos hneg]
      trivial
    · rw [← Int.toNat_of_nonneg (Int.not_lt.mp hneg)]
      exact keeps_retention hs (.old keepLast.toNat) t checkpointNs
  | collectOrphanedValues t checkpointNs dryRun grace =>
    refine keeps_discard (keeps_collectOrphanedValues (fun now l hl => ?_) fun _ => trivial)
    refine hs.erase_values (t := t) fun name hname => ?_
    obtain ⟨ns, -, hns⟩ := List.mem_flatMap.mp (hl.subset hname)
    exact ⟨ns, startswith_removed hns⟩

theorem Reachable.sound (hS : S.serde.Lawful) (h : Reachable S s) : Sound S s := by
  induction h with
  | empty => exact sound_empty S
  | step q _ hleads ih => exact hleads.keeps (keeps_request hS ih q) ih

end LangGraphFunctions.Checkpointers.AzureBlob

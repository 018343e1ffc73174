import LangGraphFunctions.Checkpointers.BlobFootprints
import LangGraphFunctions.Checkpointers.TextSerde

/-! Threads, and the namespaces of a thread, do not meet in the container. -/

namespace LangGraphFunctions.Checkpointers.AzureBlob

open Lib

variable {V R G α β : Type} {S : Saver V R G} {s s' : Store} {t t' ns ns' : String}
  {ons ons' : Option String}

def Below (t : String) : Option String → String → Prop
  | some ns, name => Names.startswith name (namespacePrefix t ns)
  | none, name => Names.startswith name (threadPrefix t)

def Apart (t : String) (ons : Option String) (t' : String) (ons' : Option String) : Prop :=
  t ≠ t' ∨ ∃ ns ns', ons = some ns ∧ ons' = some ns' ∧ ns ≠ ns'

theorem Below.threadPrefix {name : String} (h : Below t ons name) :
    Names.startswith name (threadPrefix t) := by
  cases ons with
  | some ns => exact startswith_threadPrefix h
  | none => exact h

theorem Apart.not_below (h : Apart t ons t' ons') {name : String} (hname : Below t ons name) :
    ¬ Below t' ons' name := by
  intro hname'
  rcases h with hne | ⟨ns, ns', rfl, rfl, hne⟩
  · exact hne (threadPrefix_unique hname.threadPrefix hname'.threadPrefix)
  · exact hne (namespacePrefix_unique hname hname').2

def Covers (ons : Option String) (ns : String) : Prop := ∀ ns', ons = some ns' → ns = ns'

theorem Covers.below (h : Covers ons ns) (name : String)
    (hname : Names.startswith name (namespacePrefix t ns)) : Below t ons name := by
  cases ons with
  | some ns' => exact h ns' rfl ▸ hname
  | none => exact startswith_threadPrefix hname

theorem stays_targetNamespaces_bind {q : List String → Call G α}
    (hq : ∀ nss, (∀ ns ∈ nss, Covers ons ns) → Stays (Below t ons) (q nss)) :
    Stays (Below t ons) (targetNamespaces t ons >>= q) := by
  cases ons with
  | some ns =>
    refine hq [ns] fun ns' hmem ns'' h => ?_
    rw [List.mem_singleton.mp hmem]
    exact Option.some.inj h
  | none =>
    refine Prog.uses_call.mpr ⟨fun name hname => Names.startswith_append (threadPrefix t) hname, ?_⟩
    rintro (e | blobs) -
    · exact stays_raise e
    · exact hq _ fun _ _ _ h => by cases h

inductive Operation (S : Saver V R G) : {α : Type} → Call G α → String → Option String → Prop
  | getTuple {config : RunnableConfig G} {t ns : String} : configThreadId config = .ok t →
      configCheckpointNs config = .ok ns → Operation S (AzureBlob.getTuple S config) t (some ns)
  | agetTuple {config : RunnableConfig G} {t ns : String} : configThreadId config = .ok t →
      configCheckpointNs config = .ok ns → Operation S (AzureBlob.agetTuple S config) t (some ns)
  | list {q : Query V G} {config : RunnableConfig G} {t ns : String} : q.config = some config →
      configThreadId config = .ok t → configCheckpointNs config = .ok ns →
        Operation S (AzureBlob.list S q) t (some ns)
  | alist {q : Query V G} {config : RunnableConfig G} {t ns : String} : q.config = some config →
      configThreadId config = .ok t → configCheckpointNs config = .ok ns →
        Operation S (AzureBlob.alist S q) t (some ns)
  | pendingWrites {t ns id : String} : Operation S (loadPendingWrites S t ns id) t (some ns)
  | put {bound : Option G} {config : RunnableConfig G} {checkpoint : Checkpoint V R}
      {metadata : Dict String V} {newVersions : ChannelVersions} {t ns : String} :
      configThreadId config = .ok t → configCheckpointNs config = .ok ns →
        Operation S (AzureBlob.put S bound config checkpoint metadata newVersions) t (some ns)
  | aput {bound : Option G} {config : RunnableConfig G} {checkpoint : Checkpoint V R}
      {metadata : Dict String V} {newVersions : ChannelVersions} {t ns : String} :
      configThreadId config = .ok t → configCheckpointNs config = .ok ns →
        Operation S (AzureBlob.aput S bound config checkpoint metadata newVersions) t (some ns)
  | putWrites {bound : Option G} {config : RunnableConfig G} {writes : List (String × V)}
      {taskId taskPath t ns : String} :
      configThreadId config = .ok t → configCheckpointNs config = .ok ns →
        Operation S (AzureBlob.putWrites S bound config writes taskId taskPath) t (some ns)
  | aputWrites {bound : Option G} {config : RunnableConfig G} {writes : List (String × V)}
      {taskId taskPath t ns : String} :
      configThreadId config = .ok t → configCheckpointNs config = .ok ns →
        Operation S (AzureBlob.aputWrites S bound config writes taskId taskPath) t (some ns)
  | deleteThread {t : String} : Operation S (AzureBlob.deleteThread t) t none
  | adeleteThread {t : String} : Operation S (AzureBlob.adeleteThread t) t none
  | deleteCheckpointsBefore {t id : String} {ons : Option String} :
      Operation S (AzureBlob.deleteCheckpointsBefore t id ons) t ons
  | deleteOldCheckpoints {t : String} {keepLast : Int} {ons : Option String} :
      Operation S (AzureBlob.deleteOldCheckpoints t keepLast ons) t ons
  | collectOrphanedValues {t : String} {ons : Option String} {dryRun : Bool} {grace : Int} :
      Operation S (AzureBlob.collectOrphanedValues S t ons dryRun grace) t ons

theorem Operation.stays {p : Call G α} (h : Operation S p t ons) : Stays (Below t ons) p := by
  cases h with
  | getTuple ht hns => exact stays_getTuple (fun _ h => h) ht hns
  | agetTuple ht hns => exact stays_getTuple (fun _ h => h) ht hns
  | list hq ht hns => exact stays_list (fun _ h => h) hq ht hns
  | alist hq ht hns => exact stays_list (fun _ h => h) hq ht hns
  | pendingWrites => exact stays_loadPendingWrites fun _ h => h
  | put ht hns => exact stays_put (fun _ h => h) ht hns
  | aput ht hns => exact stays_put (fun _ h => h) ht hns
  | putWrites ht hns => exact stays_putWrites (fun _ h => h) ht hns
  | aputWrites ht hns => exact stays_putWrites (fun _ h => h) ht hns
  | deleteThread =>
    refine stays_listBlobs_bind (fun _ h => h) fun blobs hblobs => ?_
    exact stays_forM fun blob hblob => stays_deleteBlob (hblobs blob hblob)
  | adeleteThread =>
    refine stays_listBlobs_bind (fun _ h => h) fun blobs hblobs => ?_
    exact stays_forM fun blob hblob => stays_deleteBlob (hblobs blob hblob)
  | deleteCheckpointsBefore =>
    refine stays_targetNamespaces_bind fun nss hnss => ?_
    exact Prog.uses_foldlM _ fun n ns hns => stays_deleteDoomed (hnss ns hns).below _ n
  | @deleteOldCheckpoints _ keepLast =>
    rw [AzureBlob.deleteOldCheckpoints]
    by_cases hneg : keepLast < 0
    · rw [if_pos hneg]
      exact stays_raise _
    · rw [if_neg hneg]
      refine stays_targetNamespaces_bind fun nss hnss => ?_
      exact Prog.uses_foldlM _ fun n ns hns => stays_deleteDoomed (hnss ns hns).below _ n
  | collectOrphanedValues =>
    refine stays_targetNamespaces_bind fun nss hnss => ?_
    refine stays_bind (stays_perform trivial) fun now => ?_
    exact Prog.uses_foldlM _ fun result ns hns => stays_collectNamespace (hnss ns hns).below _ result

/-- What one operation leaves behind, ended or stopped, makes no difference to another. -/
structure Isolated (t' : String) (ons' : Option String) (s s' : Store) (q : Call G β) : Prop where
  blobs : ∀ name, Below t' ons' name → s.get? name = s'.get? name
  result : ∀ verdict now,
    (q.run (serve verdict now) s).1 = (q.run (serve verdict now) s').1
  outcomes : ∀ r, (∃ s₁, Ends q s r s₁) ↔ ∃ s₁, Ends q s' r s₁

theorem isolated {p : Call G α} {q : Call G β} (hp : Operation S p t ons)
    (hq : Operation S q t' ons') (hapart : Apart t ons t' ons') (h : Leads p s s') :
    Isolated t' ons' s s' q := by
  have hagree : Container.Agree (Below t' ons') s s' :=
    h.spares hp.stays fun _ hname => hapart.not_below hname
  refine ⟨hagree, fun verdict now => run_congr hq.stays verdict now hagree, fun r => ⟨?_, ?_⟩⟩
  · rintro ⟨s₁, hends⟩
    obtain ⟨s₁', h', -⟩ := hends.parallel hq.stays hagree
    exact ⟨s₁', h'⟩
  · rintro ⟨s₁, hends⟩
    obtain ⟨s₁', h', -⟩ := hends.parallel hq.stays hagree.symm
    exact ⟨s₁', h'⟩

def configOf (t : String) : RunnableConfig Empty := ⟨some ⟨some t, some "", none, none⟩⟩

theorem isolated_escaped : ∃ s', Leads (put TextSerde.textSaver none (configOf "a/")
      ⟨⟨"1", ∅, ()⟩, ∅⟩ ∅ ∅) TextSerde.twoCheckpoints s' ∧
    Isolated "a%2F" (some "") TextSerde.twoCheckpoints s'
      (getTuple TextSerde.textSaver (configOf "a%2F")) := by
  have hleads := leads_stoppedAfter (fun _ => .ok ()) 0 3 (put TextSerde.textSaver none
    (configOf "a/") ⟨⟨"1", ∅, ()⟩, ∅⟩ ∅ ∅) TextSerde.twoCheckpoints
  exact ⟨_, hleads, isolated (.put rfl rfl) (.getTuple rfl rfl) (.inl (by decide)) hleads⟩

end LangGraphFunctions.Checkpointers.AzureBlob

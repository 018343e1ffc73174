import LangGraphFunctions.Platform.StateUpdate
import LangGraphFunctions.Stores.RowRecords

/-! `search` and `count` of the two stores. -/

namespace LangGraphFunctions

open Lib Platform

/-- `_metadata_matches`, where `eq` compares two values. -/
def metadataMatches (eq : Json.Value → Json.Value → Bool) (thread : Thread) :
    Option JsonObject → Bool
  | none => true
  | some metadata =>
    match thread.metadata with
    | none => false
    | some own => metadata.items.all fun p => (own.get? p.1).any fun value => eq value p.2

def statusMatches (status : Option ThreadStatus) (thread : Thread) : Bool :=
  status.all fun status => thread.status = status

/-- `sort(key=created_at, reverse=True)`, which leaves equals in their order. -/
def newestFirst (threads : List Thread) : List Thread :=
  threads.mergeSort fun thread thread' => thread'.createdAt ≤ thread.createdAt

def checkPage (limit offset : Int) : Except Exn Unit :=
  if limit < 0 then .error (.valueError s!"limit must be non-negative, got {limit}")
  else if offset < 0 then .error (.valueError s!"offset must be non-negative, got {offset}")
  else .ok ()

def page (limit offset : Int) (threads : List Thread) : List Thread :=
  (threads.drop offset.toNat).take limit.toNat

namespace Platform.InMemoryThreadStore

def filteredThreads (eq : Json.Value → Json.Value → Bool) (threads : Threads)
    (metadata : Option JsonObject) (status : Option ThreadStatus) : List Thread :=
  (threads.items.map (·.2)).filter fun thread =>
    statusMatches status thread && metadataMatches eq thread metadata

def search (eq : Json.Value → Json.Value → Bool) (threads : Threads)
    (metadata : Option JsonObject) (status : Option ThreadStatus) (limit offset : Int) :
    Except Exn (List Thread) := do
  checkPage limit offset
  return page limit offset (newestFirst (filteredThreads eq threads metadata status))

def count (eq : Json.Value → Json.Value → Bool) (threads : Threads)
    (metadata : Option JsonObject) (status : Option ThreadStatus) : Nat :=
  (filteredThreads eq threads metadata status).length

end Platform.InMemoryThreadStore

namespace Stores.AzureTable

def queryFilter (status : Option ThreadStatus) (entity : Entity) : Bool :=
  entity.get? "PartitionKey" == some (.str partitionKey) &&
    status.all fun status => entity.get? "status" == some (.str status.text)

def queryThreads (status : Option ThreadStatus) : Call (List Thread) := do
  match ← queryEntities (queryFilter status) none with
  | .ok entities =>
    .ofExcept (entities.mapM fun found => entityToThread found.1 found.2.entity)
  | .error f => .raise (.ofFailure f)

def search (eq : Json.Value → Json.Value → Bool) (metadata : Option JsonObject)
    (status : Option ThreadStatus) (limit offset : Int) : Call (List Thread) := do
  .ofExcept (checkPage limit offset)
  let threads ← queryThreads status
  return page limit offset (newestFirst (threads.filter fun thread =>
    metadataMatches eq thread metadata))

def count (eq : Json.Value → Json.Value → Bool) (metadata : Option JsonObject)
    (status : Option ThreadStatus) : Call Nat := do
  let threads ← queryThreads status
  return (threads.filter fun thread => metadataMatches eq thread metadata).length

end Stores.AzureTable

theorem newestFirst_perm (threads : List Thread) : (newestFirst threads).Perm threads :=
  List.mergeSort_perm ..

theorem sorted_newestFirst (threads : List Thread) :
    (newestFirst threads).Pairwise fun thread thread' => thread'.createdAt ≤ thread.createdAt := by
  have h : (newestFirst threads).Pairwise fun thread thread' =>
      decide (thread'.createdAt ≤ thread.createdAt) := by
    apply List.pairwise_mergeSort
    · intro a b c hab hbc
      rw [decide_eq_true_eq] at hab hbc ⊢
      exact le_trans hbc hab
    · intro a b
      rw [Bool.or_eq_true, decide_eq_true_eq, decide_eq_true_eq]
      exact le_total _ _
  exact h.imp of_decide_eq_true

/-- The same threads, in the same order but for those of one time. -/
structure SameButTies (threads threads' : List Thread) : Prop where
  perm : threads.Perm threads'
  times : threads.map (·.createdAt) = threads'.map (·.createdAt)

theorem sameButTies_newestFirst {threads threads' : List Thread} (h : threads.Perm threads') :
    SameButTies (newestFirst threads) (newestFirst threads') := by
  have hperm := ((newestFirst_perm threads).trans h).trans (newestFirst_perm threads').symm
  have hsorted (threads : List Thread) :
      ((newestFirst threads).map (·.createdAt)).Pairwise fun a b => b ≤ a :=
    List.pairwise_map.mpr (sorted_newestFirst threads)
  exact ⟨hperm, (hperm.map _).eq_of_pairwise (fun _ _ _ _ hab hba => le_antisymm hba hab)
    (hsorted threads) (hsorted threads')⟩

theorem SameButTies.eq {threads threads' : List Thread} (h : SameButTies threads threads')
    (hnodup : (threads.map (·.createdAt)).Nodup) : threads = threads' := by
  refine List.ext_getElem h.perm.length_eq fun n hn hn' => ?_
  have htime : (threads.get ⟨n, hn⟩).createdAt = (threads'.get ⟨n, hn'⟩).createdAt := by
    have := congrArg (fun l => l[n]?) h.times
    simpa [hn, hn'] using this
  have hmem : threads'.get ⟨n, hn'⟩ ∈ threads := h.perm.mem_iff.mpr (List.get_mem ..)
  exact List.inj_on_of_nodup_map hnodup (List.get_mem ..) hmem htime

end LangGraphFunctions

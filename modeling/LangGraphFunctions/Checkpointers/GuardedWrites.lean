import LangGraphFunctions.Checkpointers.TextSerde
import LangGraphFunctions.Locks.OwnershipGuard

/-! Under an ownership guard every upload follows a check of its own. -/

namespace LangGraphFunctions.Checkpointers.AzureBlob

open Lib

variable {V R G α β : Type} {S : Saver V R G} {g : G}

def Op.isUpload : Op G → Bool
  | .uploadBlob .. => true
  | _ => false

def Unrejected (g : G) (w : Transcript (interface G)) : Prop :=
  ∀ e, (⟨.check g, .error e⟩ : (o : Op G) × o.Ans) ∉ w

/-- The last of the uploads and checks so far is a check that has passed. -/
def Passed (g : G) (w : Transcript (interface G)) : Prop :=
  ∃ v₁ v₂, w = v₁ ++ (⟨.check g, .ok ()⟩ : (o : Op G) × o.Ans) :: v₂ ∧ ∀ x ∈ v₂, ¬ x.1.isUpload

/-- What holds before each operation of a write under the guard. -/
structure Guarded (g : G) (o : Op G) (w : Transcript (interface G)) : Prop where
  unrejected : Unrejected g w
  passed : o.isUpload → Passed g w

def Checks (g : G) (p : Call G α) : Prop :=
  ∀ w, Unrejected g w → p.Along (fun _ _ => True) (Guarded g)
    (fun r w' => ∀ a, r = .ok a → Unrejected g w') w

theorem Unrejected.append {w : Transcript (interface G)} (h : Unrejected g w) {o : Op G} {a : o.Ans}
    (ho : ∀ e, (⟨o, a⟩ : (o : Op G) × o.Ans) ≠ ⟨.check g, .error e⟩) :
    Unrejected g (w ++ [⟨o, a⟩]) := by
  intro e hmem
  cases List.mem_append.mp hmem with
  | inl hmem => exact h e hmem
  | inr hmem => exact ho e (List.mem_singleton.mp hmem).symm

theorem checks_ret (a : α) : Checks g (Prog.ret a : Call G α) := fun _ h _ _ => h

theorem checks_raise (e : Exn) : Checks g (Prog.raise e : Call G α) := fun _ _ _ h => by cases h

theorem checks_ofExcept (r : Except Exn α) : Checks g (Prog.ofExcept r : Call G α) := by
  cases r with
  | ok a => exact checks_ret a
  | error e => exact checks_raise e

theorem checks_bind {p : Call G α} {q : α → Call G β} (hp : Checks g p) (hq : ∀ a, Checks g (q a)) :
    Checks g (p >>= q) := by
  intro w hw
  refine Prog.safe_bind.mpr ((hp w hw).mono fun r w' h => ?_)
  cases r with
  | ok a => exact hq a w' (h a rfl)
  | error e => exact fun a h => by cases h

theorem checks_forM {xs : List α} {body : α → Call G PUnit} (h : ∀ x ∈ xs, Checks g (body x)) :
    Checks g (xs.forM body) := by
  induction xs with
  | nil => exact checks_ret _
  | cons x xs ih =>
    exact checks_bind (h x List.mem_cons_self) fun _ => ih fun y hy => h y (List.mem_cons_of_mem x hy)

theorem checks_perform {o : Op G} (hupload : o.isUpload = false) (hcheck : ∀ g, o ≠ .check g) :
    Checks g (perform o) := by
  intro w hw
  refine Prog.along_call.mpr fun a _ => ⟨⟨hw, fun h => ?_⟩, fun _ _ => hw.append fun e h => ?_⟩
  · cases hupload.symm.trans h
  · exact hcheck g (congrArg Sigma.fst h)

theorem checks_downloadBlob (name : String) : Checks g (downloadBlob name) := by
  refine checks_bind (checks_perform rfl fun _ h => by cases h) fun a => ?_
  split
  · exact checks_ret _
  · exact checks_ret _
  · exact checks_raise _

theorem checks_blobExists (name : String) : Checks g (blobExists name) := by
  refine checks_bind (checks_perform rfl fun _ h => by cases h) fun a => ?_
  split
  · exact checks_ret _
  · exact checks_ret _
  · exact checks_raise _

theorem checks_findLatestCheckpointId (t ns : String) : Checks g (findLatestCheckpointId t ns) := by
  refine checks_bind (checks_bind ?_ fun _ => checks_ret _) fun _ => checks_ret _
  exact checks_bind (checks_perform rfl fun _ h => by cases h) fun _ => checks_ofExcept _

theorem checks_currentLatest (t ns : String) : Checks g (currentLatest t ns) := by
  refine checks_bind (checks_bind (checks_downloadBlob _) fun _ => checks_ret _) fun latest => ?_
  cases latest with
  | none => exact checks_findLatestCheckpointId t ns
  | some latest =>
    refine checks_bind (checks_blobExists _) fun there => ?_
    cases there with
    | true => exact checks_ret _
    | false => exact checks_findLatestCheckpointId t ns

theorem checks_settled (writeIndex : Int) (name : String) : Checks g (settled writeIndex name) := by
  rw [settled]
  split
  · exact checks_blobExists name
  · exact checks_ret _

theorem checks_guardedUpload (name : String) (payload : ByteArray)
    (metadata : Dict String String) : Checks g (guardedUpload (some g) name payload metadata) := by
  intro w hw
  refine Prog.along_call.mpr fun a _ => ⟨⟨hw, fun h => by cases h⟩, ?_⟩
  cases a with
  | error e => exact fun _ h => by cases h
  | ok _ =>
    have hw' : Unrejected g (w ++ [⟨.check g, .ok ()⟩]) := hw.append fun e h => by cases h
    refine Prog.along_call.mpr fun a _ => ⟨⟨hw', fun _ => ?_⟩, ?_⟩
    · exact ⟨w, [], rfl, fun _ h => absurd h List.not_mem_nil⟩
    · have hend := hw'.append (o := .uploadBlob name payload metadata) (a := a) fun e h => by cases h
      cases a with
      | ok _ => exact fun _ _ => hend
      | error e => exact fun _ h => by cases h

theorem checks_putValue {t ns : String} {values : Dict String V} {entry : String × Version} :
    Checks g (putValue S (some g) t ns values entry) := by
  rw [putValue]
  cases values.get? entry.1 with
  | none => exact checks_guardedUpload _ _ _
  | some v => exact checks_bind (checks_ofExcept _) fun _ => checks_guardedUpload _ _ _

section

variable {bound : Option G} {config : RunnableConfig G}
  (hguard : resolveOwnershipGuard bound config = some g)

include hguard

theorem writeGuard_eq : writeGuard S bound config = .ok (some g) := by
  rw [writeGuard, hguard]

theorem checks_put (checkpoint : Checkpoint V R) (metadata : Dict String V)
    (newVersions : ChannelVersions) :
    Checks g (put S bound config checkpoint metadata newVersions) := by
  rw [put, writeGuard_eq hguard]
  change Checks g (Prog.ofExcept (configThreadId config) >>= _)
  refine checks_bind (checks_ofExcept _) fun t => checks_bind (checks_ofExcept _) fun ns => ?_
  refine checks_bind (checks_ofExcept _) fun parent => ?_
  refine checks_bind (checks_currentLatest t ns) fun latest => ?_
  refine checks_bind (checks_guardedUpload _ _ _) fun _ => ?_
  refine checks_bind (checks_forM fun _ _ => checks_putValue) fun _ => ?_
  refine checks_bind (checks_ofExcept _) fun dumped => ?_
  refine checks_bind (checks_guardedUpload _ _ _) fun _ => ?_
  refine checks_bind (checks_ofExcept _) fun cdumped => ?_
  refine checks_bind (checks_guardedUpload _ _ _) fun _ => ?_
  refine checks_bind (checks_ofExcept _) fun payload => ?_
  exact checks_bind (checks_guardedUpload _ _ _) fun _ => checks_ret _

theorem checks_putWrites (writes : List (String × V)) (taskId taskPath : String) :
    Checks g (putWrites S bound config writes taskId taskPath) := by
  rw [putWrites, writeGuard_eq hguard]
  change Checks g (Prog.ofExcept (configThreadId config) >>= _)
  refine checks_bind (checks_ofExcept _) fun t => checks_bind (checks_ofExcept _) fun ns => ?_
  refine checks_bind (checks_ofExcept _) fun checkpointId => ?_
  cases checkpointId with
  | none => exact checks_raise _
  | some id =>
    refine checks_forM fun write _ => ?_
    rw [putWrite]
    refine checks_bind (checks_settled _ _) fun there => ?_
    cases there with
    | true => exact checks_ret _
    | false => exact checks_bind (checks_ofExcept _) fun _ => checks_guardedUpload _ _ _

end

inductive WriteUnder (S : Saver V R G) (g : G) : {α : Type} → Call G α → Prop
  | put {bound : Option G} {config : RunnableConfig G} (checkpoint : Checkpoint V R)
      (metadata : Dict String V) (newVersions : ChannelVersions) :
      resolveOwnershipGuard bound config = some g →
        WriteUnder S g (AzureBlob.put S bound config checkpoint metadata newVersions)
  | aput {bound : Option G} {config : RunnableConfig G} (checkpoint : Checkpoint V R)
      (metadata : Dict String V) (newVersions : ChannelVersions) :
      resolveOwnershipGuard bound config = some g →
        WriteUnder S g (AzureBlob.aput S bound config checkpoint metadata newVersions)
  | putWrites {bound : Option G} {config : RunnableConfig G} (writes : List (String × V))
      (taskId taskPath : String) : resolveOwnershipGuard bound config = some g →
        WriteUnder S g (AzureBlob.putWrites S bound config writes taskId taskPath)
  | aputWrites {bound : Option G} {config : RunnableConfig G} (writes : List (String × V))
      (taskId taskPath : String) : resolveOwnershipGuard bound config = some g →
        WriteUnder S g (AzureBlob.aputWrites S bound config writes taskId taskPath)

theorem WriteUnder.checks {p : Call G α} (h : WriteUnder S g p) : Checks g p := by
  cases h with
  | put checkpoint metadata newVersions h => exact checks_put h checkpoint metadata newVersions
  | aput checkpoint metadata newVersions h => exact checks_put h checkpoint metadata newVersions
  | putWrites writes taskId taskPath h => exact checks_putWrites h writes taskId taskPath
  | aputWrites writes taskId taskPath h => exact checks_putWrites h writes taskId taskPath

theorem nonempty_ans (o : Op G) : Nonempty o.Ans := by
  cases o with
  | utcnow => exact ⟨(0 : Int)⟩
  | _ => exact ⟨.error .notFoundError⟩

theorem WriteUnder.guarded {p : Call G α} (h : WriteUnder S g p) {w : Transcript (interface G)}
    {o : Op G} {k : o.Ans → Call G α}
    (hplays : p.Plays (fun _ _ => True) w (.call (I := interface G) o k)) : Guarded g o w := by
  obtain ⟨a⟩ := nonempty_ans o
  exact hplays.before (h.checks [] fun e h => absurd h List.not_mem_nil) (a := a) trivial

/-- The guard of the lease lock decides for good, and no upload follows a rejection. -/
theorem guard_fences {ι : Type} [DecidableEq ι] {blobPrefix : String}
    {t : List (Locks.AzureBlob.LeaseEvent ι)} {P : Locks.AzureBlob.Threads ι}
    (h : Locks.AzureBlob.LeaseRun blobPrefix t P) (S : Saver V R G) (g : G) :
    Locks.AzureBlob.GuardDecides t ∧ ∀ (α : Type) (p : Call G α), WriteUnder S g p →
      ∀ w o k, p.Plays (fun _ _ => True) w (.call (I := interface G) o k) → Guarded g o w :=
  ⟨Locks.AzureBlob.guardDecides h, fun _ _ hp _ _ _ hplays => hp.guarded hplays⟩

def guardedSaver : Saver String Unit Unit where
  serde := TextSerde.textSerde
  requireOwnershipGuard := true
  writesIdxMap := ∅
  getCheckpointMetadata _ metadata := metadata
  none := "None"
  eq v w := decide (v = w)

def guardedRun : List (Pool.Move Nat Locks.AzureBlob.Request) :=
  Pool.Move.calls 5 [(0, .acquire ("g", "t") 0 1), (1, .ownershipGuard ("g", "t") ""),
    (1, .check ("g", "t") ""), (0, .release ("g", "t") ""), (1, .check ("g", "t") "")]

theorem guard_fences_rehearsed : ∃ (t : List (Locks.AzureBlob.LeaseEvent Nat))
    (P : Locks.AzureBlob.Threads Nat), P.store.service.released = [0] ∧
      Locks.AzureBlob.GuardDecides t ∧ ∀ (α : Type) (p : Call Unit α), WriteUnder guardedSaver () p →
        ∀ w o k, p.Plays (fun _ _ => True) w (.call (I := interface Unit) o k) → Guarded () o w := by
  have h := Locks.AzureBlob.leaseRun_rehearse guardedRun (by decide +kernel)
  exact ⟨(Locks.AzureBlob.rehearse guardedRun).1, (Locks.AzureBlob.rehearse guardedRun).2,
    by decide +kernel, guard_fences h guardedSaver ()⟩

end LangGraphFunctions.Checkpointers.AzureBlob

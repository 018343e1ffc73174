import LangGraphFunctions.Checkpointers.BlobNames

/-! The operations of the saver, the containers that they lead to, and what these keep. -/

namespace LangGraphFunctions.Checkpointers.AzureBlob

open Lib

variable {V R G α β : Type} {s s' : Store} {t ns id : String} {N C : String → Prop}

inductive Request (V R G : Type)
  | getTuple (config : RunnableConfig G)
  | agetTuple (config : RunnableConfig G)
  | list (q : Query V G)
  | alist (q : Query V G)
  | put (bound : Option G) (config : RunnableConfig G) (checkpoint : Checkpoint V R)
      (metadata : Dict String V) (newVersions : ChannelVersions)
  | aput (bound : Option G) (config : RunnableConfig G) (checkpoint : Checkpoint V R)
      (metadata : Dict String V) (newVersions : ChannelVersions)
  | putWrites (bound : Option G) (config : RunnableConfig G) (writes : List (String × V))
      (taskId taskPath : String)
  | aputWrites (bound : Option G) (config : RunnableConfig G) (writes : List (String × V))
      (taskId taskPath : String)
  | deleteThread (threadId : String)
  | adeleteThread (threadId : String)
  | deleteCheckpointsBefore (threadId beforeCheckpointId : String) (checkpointNs : Option String)
  | deleteOldCheckpoints (threadId : String) (keepLast : Int) (checkpointNs : Option String)
  | collectOrphanedValues (threadId : String) (checkpointNs : Option String) (dryRun : Bool)
      (gracePeriodSeconds : Int)

def Request.program (S : Saver V R G) : Request V R G → Call G Unit
  | .getTuple config => (AzureBlob.getTuple S config).bind fun _ => return ()
  | .agetTuple config => (AzureBlob.agetTuple S config).bind fun _ => return ()
  | .list q => (AzureBlob.list S q).bind fun _ => return ()
  | .alist q => (AzureBlob.alist S q).bind fun _ => return ()
  | .put bound config checkpoint metadata newVersions =>
    (AzureBlob.put S bound config checkpoint metadata newVersions).bind fun _ => return ()
  | .aput bound config checkpoint metadata newVersions =>
    (AzureBlob.aput S bound config checkpoint metadata newVersions).bind fun _ => return ()
  | .putWrites bound config writes taskId taskPath =>
    AzureBlob.putWrites S bound config writes taskId taskPath
  | .aputWrites bound config writes taskId taskPath =>
    AzureBlob.aputWrites S bound config writes taskId taskPath
  | .deleteThread threadId => AzureBlob.deleteThread threadId
  | .adeleteThread threadId => AzureBlob.adeleteThread threadId
  | .deleteCheckpointsBefore threadId beforeCheckpointId checkpointNs =>
    (AzureBlob.deleteCheckpointsBefore threadId beforeCheckpointId checkpointNs).bind
      fun _ => return ()
  | .deleteOldCheckpoints threadId keepLast checkpointNs =>
    (AzureBlob.deleteOldCheckpoints threadId keepLast checkpointNs).bind fun _ => return ()
  | .collectOrphanedValues threadId checkpointNs dryRun gracePeriodSeconds =>
    (AzureBlob.collectOrphanedValues S threadId checkpointNs dryRun gracePeriodSeconds).bind
      fun _ => return ()

def Leads (p : Call G α) (s s' : Store) : Prop := ∃ t q, Exec service Eq p s t q s'

def Ends (p : Call G α) (s : Store) (r : Except Exn α) (s' : Store) : Prop :=
  ∃ t, Exec service Eq p s t (.ofExcept r) s'

/-- The containers that operations lead to, each of them possibly stopped on the way. -/
inductive Reachable (S : Saver V R G) : Store → Prop
  | empty : Reachable S ∅
  | step {before after : Store} (q : Request V R G) : Reachable S before →
      Leads (q.program S) before after → Reachable S after

/-- Every state after an operation of `p` meets `C`, and its outcome meets `Q`. -/
abbrev Keeps (C : Store → Prop) (p : Call G α) (Q : Except Exn α → Store → Prop) (s : Store) :
    Prop :=
  p.Safe service Eq (fun _ _ _ s' => C s') Q s

theorem Leads.keeps {C : Store → Prop} {Q : Except Exn α → Store → Prop} {p : Call G α}
    (h : Leads p s s') (hp : Keeps C p Q s) (hs : C s) : C s' := by
  obtain ⟨t, q, h⟩ := h
  exact h.reaches hp hs

theorem Ends.keeps {C : Store → Prop} {Q : Except Exn α → Store → Prop} {p : Call G α}
    {r : Except Exn α} (h : Ends p s r s') (hp : Keeps C p Q s) : Q r s' := by
  obtain ⟨t, h⟩ := h
  exact Prog.safe_ofExcept_iff.mp (h.ends hp)

theorem Ends.leads {p : Call G α} {r : Except Exn α} (h : Ends p s r s') : Leads p s s' :=
  h.imp fun _ h => ⟨_, h⟩

theorem ends_run (verdict : G → Except Exn Unit) (now : Int) (p : Call G α) (s : Store) :
    Ends p s (p.run (serve verdict now) s).1 (p.run (serve verdict now) s).2 := by
  induction p generalizing s with
  | ret a => exact ⟨[], .stop⟩
  | raise e => exact ⟨[], .stop⟩
  | call o k ih =>
    obtain ⟨t, h⟩ := ih (serve verdict now o s).1 (serve verdict now o s).2
    exact ⟨_, .call ⟨verdict, now, rfl⟩ h⟩

variable {C : Store → Prop} {Q : Except Exn β → Store → Prop}

theorem keeps_look {Q : Except Exn α → Store → Prop} {p : Call G α} (hp : Looks N p) (hs : C s)
    (hQ : Q (view s p) s) : Keeps C p Q s :=
  Prog.safe_still still hp listed_answers (fun _ _ _ => hs) hQ

theorem keeps_look_bind {p : Call G α} {q : α → Call G β} (hp : Looks N p) (hs : C s)
    (hok : ∀ a, view s p = .ok a → Keeps C (q a) Q s)
    (herror : ∀ e, view s p = .error e → Q (.error e) s) : Keeps C (p >>= q) Q s :=
  Prog.safe_still_bind still hp listed_answers (fun _ _ _ => hs) hok herror

theorem keeps_ofExcept_bind {r : Except Exn α} {q : α → Call G β}
    (hok : ∀ a, r = .ok a → Keeps C (q a) Q s) (herror : ∀ e, r = .error e → Q (.error e) s) :
    Keeps C (Prog.ofExcept r >>= q) Q s :=
  Prog.safe_ofExcept_bind hok herror

theorem keeps_bind {p : Call G α} {q : α → Call G β}
    (hp : Keeps C p (fun r s' => match r with
      | .ok a => Keeps C (q a) Q s'
      | .error e => Q (.error e) s') s) : Keeps C (p >>= q) Q s := by
  refine Prog.safe_bind.mpr (Prog.Safe.mono hp fun r s' h => ?_)
  cases r with
  | ok a => exact h
  | error e => exact h

def stoppedAfter (verdict : G → Except Exn Unit) (now : Int) : Nat → Call G α → Store → Store
  | n + 1, .call o k, s =>
    stoppedAfter verdict now n (k (serve verdict now o s).1) (serve verdict now o s).2
  | _, _, s => s

theorem leads_stoppedAfter (verdict : G → Except Exn Unit) (now : Int) (n : Nat) (p : Call G α)
    (s : Store) : Leads p s (stoppedAfter verdict now n p s) := by
  induction n generalizing p s with
  | zero => exact ⟨[], p, .stop⟩
  | succ n ih =>
    cases p with
    | ret a => exact ⟨[], _, .stop⟩
    | raise e => exact ⟨[], _, .stop⟩
    | call o k =>
      obtain ⟨t, q, h⟩ := ih (k (serve verdict now o s).1) (serve verdict now o s).2
      exact ⟨_, q, .call ⟨verdict, now, rfl⟩ h⟩

theorem keeps_run {Q : Except Exn α → Store → Prop} {p : Call G α} (h : Keeps C p Q s)
    (verdict : G → Except Exn Unit) (now : Int) :
    Q (p.run (serve verdict now) s).1 (p.run (serve verdict now) s).2 :=
  (ends_run verdict now p s).keeps h

theorem run_look {p : Call G α} (hp : Looks N p) (verdict : G → Except Exn Unit) (now : Int) :
    p.run (serve verdict now) s = (view s p, s) := by
  have hlook : Keeps (fun _ => True) p (fun r s' => r = view s p ∧ s' = s) s :=
    keeps_look hp trivial ⟨rfl, rfl⟩
  obtain ⟨hr, hs⟩ := keeps_run hlook verdict now
  exact Prod.ext hr hs

abbrev uploaded (payload : ByteArray) (metadata : Dict String String) (now : Int) : Blob :=
  ⟨payload, metadata, some now⟩

theorem keeps_guardedUpload {Q : Except Exn Unit → Store → Prop} {guard : Option G} {name : String}
    {payload : ByteArray} {metadata : Dict String String} (hs : C s)
    (hset : ∀ now, C (s.set name (uploaded payload metadata now)))
    (hok : ∀ now, Q (.ok ()) (s.set name (uploaded payload metadata now)))
    (herror : ∀ e, Q (.error e) s) : Keeps C (guardedUpload guard name payload metadata) Q s := by
  have hupload : Keeps C (uploadBlob name payload metadata : Call G Unit) Q s := by
    rintro _ rfl a s' ⟨verdict, now, h⟩
    cases h
    exact ⟨hset now, hok now⟩
  cases guard with
  | none => exact hupload
  | some guard =>
    rintro _ rfl a s' ⟨verdict, now, h⟩
    cases h
    refine ⟨hs, ?_⟩
    cases verdict guard with
    | ok _ => exact hupload
    | error e => exact herror e

theorem keeps_deleteBlobIfThere {Q : Except Exn Unit → Store → Prop} {name : String} (hs : C s)
    (herase : C (s.erase name)) (hok : Q (.ok ()) (s.erase name)) :
    Keeps C (deleteBlobIfThere name : Call G Unit) Q s := by
  rintro _ rfl a s' ⟨verdict, now, h⟩
  simp only [serve] at h
  cases hget : s.get? name with
  | some b =>
    rw [hget] at h
    cases h
    exact ⟨herase, hok⟩
  | none =>
    rw [hget] at h
    cases h
    rw [Container.erase_of_absent hget] at hok
    exact ⟨hs, hok⟩

theorem keeps_forM {Q : Except Exn PUnit → Store → Prop} (Inv : Store → Prop) {xs : List α}
    {body : α → Call G PUnit} (hinit : Inv s) (hbody : ∀ x ∈ xs, ∀ s, Inv s →
      Keeps C (body x) (fun r s' => (∀ u, r = .ok u → Inv s') ∧ ∀ e, r = .error e → Q (.error e) s') s)
    (hend : ∀ s, Inv s → Q (.ok ()) s) : Keeps C (xs.forM body) Q s := by
  induction xs generalizing s with
  | nil => exact hend s hinit
  | cons x xs ih =>
    change Keeps C (body x >>= fun _ => xs.forM body) Q s
    refine keeps_bind (Prog.Safe.mono (hbody x List.mem_cons_self s hinit) fun r s' h => ?_)
    cases r with
    | ok a => exact ih (h.1 a rfl) fun y hy => hbody y (List.mem_cons_of_mem x hy)
    | error e => exact h.2 e rfl

theorem keeps_deleteAll {Q : Except Exn PUnit → Store → Prop} {names : List String}
    (hC : ∀ l, l <+: names → C (Container.eraseAll s l))
    (hok : Q (.ok ()) (Container.eraseAll s names)) :
    Keeps C (names.forM fun name => (deleteBlobIfThere name : Call G Unit)) Q s := by
  induction names generalizing s with
  | nil => exact hok
  | cons name names ih =>
    change Keeps C (deleteBlobIfThere name >>= fun _ => names.forM deleteBlobIfThere) Q s
    refine keeps_bind (keeps_deleteBlobIfThere (hC [] List.nil_prefix) (hC [name] ⟨names, rfl⟩) ?_)
    exact ih (fun l hl => hC (name :: l) (List.prefix_cons_inj name |>.mpr hl)) hok

theorem keeps_deleteBlob {Q : Except Exn Unit → Store → Prop} {name : String} (hs : C s)
    (herase : C (s.erase name)) (hok : Q (.ok ()) (s.erase name)) (herror : ∀ e, Q (.error e) s) :
    Keeps C (deleteBlob name : Call G Unit) Q s := by
  rintro _ rfl a s' ⟨verdict, now, h⟩
  simp only [serve] at h
  cases hget : s.get? name with
  | some b =>
    rw [hget] at h
    cases h
    exact ⟨herase, hok⟩
  | none =>
    rw [hget] at h
    cases h
    exact ⟨hs, herror _⟩

end LangGraphFunctions.Checkpointers.AzureBlob

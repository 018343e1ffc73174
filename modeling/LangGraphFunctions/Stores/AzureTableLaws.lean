import LangGraphFunctions.Stores.AzureTable
import LangGraphFunctions.Stores.TableJsonLaws

/-! What each store method may do to the table, whatever other clients do in between. -/

namespace LangGraphFunctions.Stores.AzureTable

open Lib EtagTable Platform

inductive Request
  | create (metadata : Option JsonObject)
  | get (threadId : String)
  | update (threadId : String) (metadata : Option JsonObject) (status : Option ThreadStatus)
      (values : Option JsonObject) (interrupts : Option (Dict Json.Key (List Interrupt)))
      (assistantId : Option String)
  | delete (threadId : String)
  | tryAcquireRunLock (threadId : String) (assistantId : Option String)
  | releaseRunLock (threadId : String) (status : ThreadStatus) (values : Option Json.Value)
      (ownerToken : Option String)
  | renewRunLock (threadId ownerToken : String)
  | resetStaleLocks (olderThanSeconds : Int) (status : ThreadStatus)

inductive Response
  | thread (thread : Thread)
  | found (thread : Option Thread)
  | flag (renewed : Bool)
  | count (n : Nat)
  | done

def Request.program : Request → Call Response
  | .create metadata => .thread <$> AzureTable.create metadata
  | .get threadId => .found <$> AzureTable.get threadId
  | .update threadId metadata status values interrupts assistantId =>
    .thread <$> AzureTable.update threadId metadata status values interrupts assistantId
  | .delete threadId => (fun _ => .done) <$> AzureTable.delete threadId
  | .tryAcquireRunLock threadId assistantId =>
    .found <$> AzureTable.tryAcquireRunLock threadId assistantId
  | .releaseRunLock threadId status values ownerToken =>
    .thread <$> AzureTable.releaseRunLock threadId status values ownerToken
  | .renewRunLock threadId ownerToken => .flag <$> AzureTable.renewRunLock threadId ownerToken
  | .resetStaleLocks olderThanSeconds status =>
    .count <$> AzureTable.resetStaleLocks olderThanSeconds status

inductive Wrote : Request → String → Table → Table → Prop
  | create {T : Table} {threadId : String} {entity : Entity} {metadata : Option JsonObject} :
      T.row? threadId = none → entity.get? "lock_token" = none →
      Wrote (.create metadata) threadId T (T.put threadId entity)
  | update {T : Table} {threadId : String} {row : Row} {entity : Entity} {now : Int}
      {metadata values : Option JsonObject} {status : Option ThreadStatus}
      {interrupts : Option (Dict Json.Key (List Interrupt))} {assistantId : Option String} :
      T.row? threadId = some row →
      updated row.entity now metadata status values interrupts assistantId = .ok entity →
      Wrote (.update threadId metadata status values interrupts assistantId) threadId T
        (T.put threadId entity)
  | delete {T : Table} {threadId : String} :
      Wrote (.delete threadId) threadId T { T with rows := T.rows.erase threadId }
  | acquire {T : Table} {threadId ownerToken : String} {row : Row} {thread : Thread} {now : Int}
      {assistantId : Option String} : T.row? threadId = some row →
      entityToThread threadId row.entity = .ok thread → thread.status ≠ .busy →
      boundElsewhere thread.assistantId assistantId = false →
      Wrote (.tryAcquireRunLock threadId assistantId) threadId T (T.put threadId
        (row.entity.update (lockPatch threadId now ownerToken thread.assistantId assistantId)))
  | release {T : Table} {threadId : String} {row : Row} {entity : Entity} {now : Int}
      {status : ThreadStatus} {values : Option Json.Value} {ownerToken : Option String} :
      status ≠ .busy → T.row? threadId = some row →
      isStale row.entity ownerToken = false → released row.entity now status values = .ok entity →
      Wrote (.releaseRunLock threadId status values ownerToken) threadId T (T.put threadId entity)
  | renew {T : Table} {threadId ownerToken : String} {row : Row} {now : Int} :
      T.row? threadId = some row → holdsToken row.entity ownerToken →
      Wrote (.renewRunLock threadId ownerToken) threadId T
        (T.put threadId (row.entity.update (renewPatch threadId now)))
  | reset {T : Table} {threadId : String} {row : Row} {start now olderThanSeconds : Int}
      {status : ThreadStatus} : T.row? threadId = some row → isBusy row.entity →
      start ≤ T.clock → isOlder row.entity (start - olderThanSeconds) →
      status = .idle ∨ status = .error →
      Wrote (.resetStaleLocks olderThanSeconds status) threadId T
        (T.put threadId (row.entity.update (resetPatch threadId now status)))

variable {me : Nat} {T : Table}

theorem get?_threadToEntity {metadata values : Option JsonObject} {entity : Entity}
    (h : threadToEntity threadId createdAt updatedAt metadata status values assistantId interrupts =
      .ok entity) : entity.get? "lock_token" = none := by
  obtain ⟨e₁, h₁, h⟩ := bind_eq_ok.mp h
  obtain ⟨e₂, h₂, h⟩ := bind_eq_ok.mp h
  obtain ⟨e₃, h₃, h⟩ := bind_eq_ok.mp h
  have hlock : e₃.get? "lock_token" = none := by
    rw [get?_writeOptionalJson h₃ (by decide), get?_writeOptionalJson h₂ (by decide),
      get?_writeJson h₁ (by decide)]
    rfl
  cases assistantId with
  | none => cases h; exact hlock
  | some assistantId =>
    cases h
    rw [Dict.get?_set_ne _ _ (by decide), hlock]

abbrev Guarded (me : Nat) (W : String → Table → Table → Prop) (p : Call α) (T : Table) : Prop :=
  p.Safe (service me) Evolves (Writes W) (fun _ _ => True) T

theorem renew_guarded (hT : Stamped T) (threadId ownerToken : String) :
    Guarded me (Wrote (.renewRunLock threadId ownerToken)) (renewRunLock threadId ownerToken) T := by
  apply safe_get hT
  · intro T₁ row hE hT₁ hrow hseen
    change Prog.Safe _ _ _ _ (if holdsToken row.entity ownerToken then _ else _) T₁
    split
    · next htoken =>
      apply safe_now
      intro T₂ now hE₂ _
      apply safe_update (hseen.evolves hE₂)
      · intro T₃ hE₃ hrow₃
        exact ⟨.renew hrow₃ htoken, trivial⟩
      · intro T₃ e hE₃
        cases e <;> trivial
    · trivial
  · intros; trivial
  · intros; trivial

theorem release_guarded (hT : Stamped T) (threadId : String) (status : ThreadStatus)
    (values : Option Json.Value) (ownerToken : Option String) :
    Guarded me (Wrote (.releaseRunLock threadId status values ownerToken))
      (releaseRunLock threadId status values ownerToken) T := by
  rw [releaseRunLock]
  split
  · trivial
  · next hbusy =>
    generalize 3 = n
    induction n generalizing T with
    | zero => trivial
    | succ n ih =>
      apply safe_get hT
      · intro T₁ row hE hT₁ hrow hseen
        change Prog.Safe _ _ _ _ (if isStale row.entity ownerToken then _ else _) T₁
        split
        · exact Prog.safe_ofExcept trivial
        · next hstale =>
          apply safe_now
          intro T₂ now hE₂ _
          apply Prog.safe_ofExcept_bind
          · intro entity hentity
            apply Prog.safe_ofExcept_bind
            · intro _ _
              apply safe_update (hseen.evolves hE₂)
              · intro T₃ hE₃ hrow₃
                refine ⟨.release hbusy hrow₃ (Bool.eq_false_iff.mpr hstale) hentity, ?_⟩
                exact Prog.safe_ofExcept trivial
              · intro T₃ e hE₃
                cases e with
                | modified => exact ih ((hE₂.trans hE₃).stamped hT₁)
                | notFound => trivial
                | «exists» => trivial
                | other m => trivial
            · intros; trivial
          · intros; trivial
      · intros; trivial
      · intros; trivial

theorem update_guarded (hT : Stamped T) (threadId : String) (metadata : Option JsonObject)
    (status : Option ThreadStatus) (values : Option JsonObject)
    (interrupts : Option (Dict Json.Key (List Interrupt))) (assistantId : Option String) :
    Guarded me (Wrote (.update threadId metadata status values interrupts assistantId))
      (AzureTable.update threadId metadata status values interrupts assistantId) T := by
  rw [AzureTable.update]
  generalize 3 = n
  induction n generalizing T with
  | zero => trivial
  | succ n ih =>
    apply safe_get hT
    · intro T₁ row hE hT₁ hrow hseen
      apply safe_now
      intro T₂ now hE₂ _
      apply Prog.safe_ofExcept_bind
      · intro entity hentity
        apply Prog.safe_ofExcept_bind
        · intro _ _
          apply safe_update (hseen.evolves hE₂)
          · intro T₃ hE₃ hrow₃
            exact ⟨.update hrow₃ hentity, Prog.safe_ofExcept trivial⟩
          · intro T₃ e hE₃
            cases e with
            | modified => exact ih ((hE₂.trans hE₃).stamped hT₁)
            | notFound => trivial
            | «exists» => trivial
            | other m => trivial
        · intros; trivial
      · intros; trivial
    · intros; trivial
    · intros; trivial

theorem acquire_guarded (hT : Stamped T) (threadId : String) (assistantId : Option String) :
    Guarded me (Wrote (.tryAcquireRunLock threadId assistantId))
      (tryAcquireRunLock threadId assistantId) T := by
  rw [tryAcquireRunLock]
  generalize 3 = n
  induction n generalizing T with
  | zero => trivial
  | succ n ih =>
    apply safe_get hT
    · intro T₁ row hE hT₁ hrow hseen
      apply Prog.safe_ofExcept_bind
      · intro thread hthread
        split
        · trivial
        · next hbound =>
          split
          · trivial
          · next hbusy =>
            apply safe_now
            intro T₂ now hE₂ _
            apply safe_uuid
            intro T₃ ownerToken hE₃ _
            apply Prog.safe_ofExcept_bind
            · intro _ _
              apply safe_update (hseen.evolves (hE₂.trans hE₃))
              · intro T₄ hE₄ hrow₄
                exact ⟨.acquire hrow₄ hthread hbusy (Bool.eq_false_iff.mpr hbound), trivial⟩
              · intro T₄ e hE₄
                cases e with
                | modified => exact ih ((hE₂.trans (hE₃.trans hE₄)).stamped hT₁)
                | notFound => trivial
                | «exists» => trivial
                | other m => trivial
            · intros; trivial
      · intros; trivial
    · intros; trivial
    · intros; trivial

theorem delete_guarded (threadId : String) :
    Guarded me (Wrote (.delete threadId)) (AzureTable.delete threadId) T := by
  apply safe_delete
  · intro T₁ hE
    exact ⟨.delete, trivial⟩
  · intro T₁ e hE
    cases e <;> trivial

theorem get_guarded (hT : Stamped T) (threadId : String) :
    Guarded me (Wrote (.get threadId)) (AzureTable.get threadId) T := by
  apply safe_get hT
  · intro T₁ row hE hT₁ hrow hseen
    apply Prog.safe_ofExcept_bind
    · intros; trivial
    · intros; trivial
  · intros; trivial
  · intros; trivial

theorem create_guarded (metadata : Option JsonObject) :
    Guarded me (Wrote (.create metadata)) (AzureTable.create metadata) T := by
  apply safe_uuid
  intro T₁ threadId hE _
  apply safe_now
  intro T₂ now hE₂ _
  apply Prog.safe_ofExcept_bind
  · intro entity hentity
    apply Prog.safe_ofExcept_bind
    · intro _ _
      apply safe_create
      · intro T₃ hE₃ hrow
        exact ⟨.create hrow (get?_threadToEntity hentity), Prog.safe_ofExcept trivial⟩
      · intro T₃ e hE₃
        cases e <;> trivial
    · intros; trivial
  · intros; trivial

structure Scanned (start : Int) (found : List (String × Row)) (T : Table) : Prop where
  clock : start ≤ T.clock
  rows : ∀ p ∈ found, Found isBusy (some ["RowKey", "updated_at"]) T p

theorem Scanned.mono {start : Int} {found : List (String × Row)} {T T' : Table}
    (h : Scanned start found T) (hE : Evolves T T') : Scanned start found T' :=
  ⟨Int.le_trans h.clock hE.clock, fun p hp => (h.rows p hp).evolves hE⟩

theorem resetOlder_guarded {W : String → Table → Table → Prop} {start cutoff : Int}
    {status : ThreadStatus} (hT : Stamped T) (hstart : start ≤ T.clock)
    (hW : ∀ {key : String} {T : Table} {row : Row} (now : Int), start ≤ T.clock →
      T.row? key = some row → isBusy row.entity → isOlder row.entity cutoff →
      W key T (T.put key (row.entity.update (resetPatch key now status)))) :
    Guarded me W (resetOlder cutoff status) T := by
  apply safe_query hT
  · intro T₂ found hE₂ hfound
    apply Prog.safe_foldlM fun _ _ => Scanned start found
    · rintro done p rest count T₃ rfl hinv
      obtain ⟨r, hseen, hbusy, hetag, hselect⟩ := hinv.rows p (by simp)
      have holder : isOlder p.2.entity cutoff = isOlder r.entity cutoff := by
        rw [isOlder, isOlder, hselect "updated_at" (by simp)]
      rw [resetRow]
      split
      · next hold =>
        rw [holder] at hold
        rw [hetag]
        apply safe_now
        intro T₄ now hE₄ _
        apply safe_update (hseen.evolves hE₄)
        · intro T₅ hE₅ hrow
          have hE := hE₄.trans hE₅
          refine ⟨hW now (Int.le_trans hinv.clock hE.clock) hrow hbusy hold, ?_⟩
          exact hinv.mono (hE.trans (evolves_put ..))
        · intro T₅ e hE₅
          have hinv' := hinv.mono (hE₄.trans hE₅)
          cases e with
          | modified => exact hinv'
          | notFound => exact hinv'
          | «exists» => trivial
          | other m => trivial
      · exact hinv
    · intros; trivial
    · exact ⟨Int.le_trans hstart hE₂.clock, hfound⟩
  · intros; trivial

theorem reset_guarded (hT : Stamped T) (olderThanSeconds : Int) (status : ThreadStatus) :
    Guarded me (Wrote (.resetStaleLocks olderThanSeconds status))
      (resetStaleLocks olderThanSeconds status) T := by
  rw [resetStaleLocks]
  split
  · trivial
  · split
    · trivial
    · next hstatus =>
      have hterminal : status = .idle ∨ status = .error := by
        simpa [Decidable.or_iff_not_imp_left] using hstatus
      apply safe_now
      intro T₁ start hE₁ hclock
      apply resetOlder_guarded (hE₁.stamped hT) (Int.le_of_eq hclock.symm)
      intro key T₂ row now hstart hrow hbusy hold
      exact .reset hrow hbusy hstart hold hterminal

theorem request_guarded (hT : Stamped T) (q : Request) : Guarded me (Wrote q) q.program T := by
  cases q with
  | create metadata => exact (create_guarded metadata).map _
  | get threadId => exact (get_guarded hT threadId).map _
  | update threadId metadata status values interrupts assistantId =>
    exact (update_guarded hT threadId metadata status values interrupts assistantId).map _
  | delete threadId => exact (delete_guarded threadId).map _
  | tryAcquireRunLock threadId assistantId => exact (acquire_guarded hT threadId assistantId).map _
  | releaseRunLock threadId status values ownerToken =>
    exact (release_guarded hT threadId status values ownerToken).map _
  | renewRunLock threadId ownerToken => exact (renew_guarded hT threadId ownerToken).map _
  | resetStaleLocks olderThanSeconds status =>
    exact (reset_guarded hT olderThanSeconds status).map _

end LangGraphFunctions.Stores.AzureTable

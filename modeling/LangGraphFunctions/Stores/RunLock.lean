import LangGraphFunctions.Lib.Pool
import LangGraphFunctions.Stores.AzureTableLaws

/-! The run lock of a thread row, over every interleaving of store calls. -/

namespace LangGraphFunctions.Stores.AzureTable

open Lib EtagTable Platform

variable {T T' : Table} {threadId token : String} {q : Request}

theorem readStatus_of_entityToThread {entity : Entity} {thread : Thread}
    (h : entityToThread threadId entity = .ok thread) : readStatus entity = .ok thread.status := by
  obtain ⟨_, -, h⟩ := bind_eq_ok.mp h
  obtain ⟨_, -, h⟩ := bind_eq_ok.mp h
  obtain ⟨_, -, h⟩ := bind_eq_ok.mp h
  obtain ⟨_, -, h⟩ := bind_eq_ok.mp h
  obtain ⟨_, -, h⟩ := bind_eq_ok.mp h
  obtain ⟨_, -, h⟩ := bind_eq_ok.mp h
  obtain ⟨_, -, h⟩ := bind_eq_ok.mp h
  obtain ⟨status, hstatus, h⟩ := bind_eq_ok.mp h
  obtain ⟨_, -, h⟩ := bind_eq_ok.mp h
  obtain ⟨_, -, h⟩ := bind_eq_ok.mp h
  obtain ⟨_, -, h⟩ := bind_eq_ok.mp h
  obtain ⟨_, -, h⟩ := bind_eq_ok.mp h
  cases h
  exact hstatus

theorem status_of_busy {entity : Entity} {thread : Thread}
    (h : entityToThread threadId entity = .ok thread)
    (hbusy : entity.get? "status" = some (.str ThreadStatus.busy.text)) : thread.status = .busy := by
  have hread := readStatus_of_entityToThread h
  simp only [readStatus, hbusy, ThreadStatus.ofText_text] at hread
  exact (Except.ok.inj hread).symm

theorem get?_lockPatch_status (now : Int) (bound assistantId : Option String) :
    (lockPatch threadId now token bound assistantId).get? "status" =
      some (.str ThreadStatus.busy.text) := by
  cases bound <;> cases assistantId <;> rfl

theorem get?_lockPatch_token (now : Int) (bound assistantId : Option String) :
    (lockPatch threadId now token bound assistantId).get? "lock_token" = some (.str token) := by
  cases bound <;> cases assistantId <;> rfl

theorem get?_renewPatch {name : String} (now : Int)
    (h : name ∉ ["PartitionKey", "RowKey", "updated_at", "lock_expires_at"]) :
    (renewPatch threadId now).get? name = none := Dict.get?_ofList_of_not_mem h

theorem get?_resetPatch {name : String} (now : Int) (status : ThreadStatus)
    (h : name ∉ ["PartitionKey", "RowKey", "status", "updated_at"]) :
    (resetPatch threadId now status).get? name = none := Dict.get?_ofList_of_not_mem h

theorem get?_released {entity entity' : Entity} {now : Int} {status : ThreadStatus}
    {values : Option Json.Value} (h : released entity now status values = .ok entity')
    {name : String} (hname : name ∉ ["lock_token", "lock_expires_at", "etag", "Timestamp", "status",
      "updated_at"]) (hvalues : values.isSome → ownsKey "values_json" name = false) :
    entity'.get? name = entity.get? name := by
  simp only [List.mem_cons, List.not_mem_nil, or_false, not_or] at hname
  obtain ⟨htoken, hexpires, hetag, htimestamp, hstatus, hupdated⟩ := hname
  have hkeep : entity'.get? name = (((entity.filterKeys fun key => !(key == "lock_token" ||
      key == "lock_expires_at" || key == "etag" || key == "Timestamp")).set "status"
      (.str status.text)).set "updated_at" (.datetime now)).get? name := by
    cases values with
    | none => cases h; rfl
    | some values => exact get?_writeJson h (hvalues rfl)
  rw [hkeep, Dict.get?_set_ne _ _ hupdated, Dict.get?_set_ne _ _ hstatus, Dict.get?_filterKeys]
  simp [htoken, hexpires, hetag, htimestamp]

theorem get?_released_token {entity entity' : Entity} {now : Int} {status : ThreadStatus}
    {values : Option Json.Value} (h : released entity now status values = .ok entity') :
    entity'.get? "lock_token" = none := by
  rw [get?_writeOptionalJson h (by decide), Dict.get?_set_ne _ _ (by decide),
    Dict.get?_set_ne _ _ (by decide), Dict.get?_filterKeys]
  rfl

theorem get?_updated {entity entity' : Entity} {now : Int} {metadata values : Option JsonObject}
    {status : Option ThreadStatus} {interrupts : Option (Dict Json.Key (List Interrupt))}
    {assistantId : Option String}
    (h : updated entity now metadata status values interrupts assistantId = .ok entity') :
    entity'.get? "lock_token" = entity.get? "lock_token" ∧
      (status = none → entity'.get? "status" = entity.get? "status") := by
  obtain ⟨e₁, h₁, h⟩ := bind_eq_ok.mp h
  obtain ⟨e₂, h₂, h⟩ := bind_eq_ok.mp h
  obtain ⟨e₃, h₃, h⟩ := bind_eq_ok.mp h
  have hkeep : ∀ name, ownsKey "metadata_json" name = false → ownsKey "values_json" name = false →
      ownsKey "interrupts_json" name = false → name ≠ "updated_at" → name ≠ "etag" →
      name ≠ "Timestamp" → e₃.get? name = entity.get? name := by
    intro name hm hv hi hu he ht
    rw [get?_writeOptionalJson h₃ hi, get?_writeOptionalJson h₂ hv, get?_writeOptionalJson h₁ hm,
      Dict.get?_set_ne _ _ hu, Dict.get?_filterKeys]
    simp [he, ht]
  cases h
  constructor
  · have htoken := hkeep "lock_token" (by decide) (by decide) (by decide) (by decide) (by decide)
      (by decide)
    cases status <;> cases assistantId <;> simp [htoken]
  · rintro rfl
    have hstatus := hkeep "status" (by decide) (by decide) (by decide) (by decide) (by decide)
      (by decide)
    cases assistantId <;> simp [hstatus]

/-- The row of the thread is busy under `token`. -/
def HeldBy (threadId token : String) (T : Table) : Prop :=
  ∃ row, T.row? threadId = some row ∧
    row.entity.get? "status" = some (.str ThreadStatus.busy.text) ∧ holdsToken row.entity token

instance : Decidable (HeldBy threadId token T) :=
  match h : T.row? threadId with
  | none => .isFalse fun ⟨_, hrow, _⟩ => nomatch h.symm.trans hrow
  | some row =>
    decidable_of_iff (row.entity.get? "status" = some (.str ThreadStatus.busy.text) ∧
        holdsToken row.entity token)
      ⟨fun hheld => ⟨row, h, hheld⟩, fun ⟨_, hrow, hheld⟩ => Option.some.inj (h.symm.trans hrow) ▸ hheld⟩

def Request.isAcquire : Request → Bool
  | .tryAcquireRunLock .. => true
  | _ => false

def Frees (token : String) : Request → Prop
  | .releaseRunLock _ _ _ ownerToken => ownerToken = none ∨ ownerToken = some token
  | .resetStaleLocks .. => True
  | .update _ _ status .. => status ≠ none
  | .delete _ => True
  | _ => False

theorem holdsToken_iff {entity : Entity} :
    holdsToken entity token ↔ entity.get? "lock_token" = some (.str token) := by
  rw [holdsToken, beq_iff_eq]

theorem heldBy_put_self {entity : Entity} :
    HeldBy threadId token (T.put threadId entity) ↔
      entity.get? "status" = some (.str ThreadStatus.busy.text) ∧ holdsToken entity token := by
  simp [HeldBy]

theorem acquires_wrote (hq : q.isAcquire) (hwrote : Wrote q threadId T T') :
    (∃ token, HeldBy threadId token T') ∧ ∀ token, ¬HeldBy threadId token T := by
  cases hwrote with
  | @acquire _ _ ownerToken row thread now assistantId hrow hthread hidle _ =>
    constructor
    · refine ⟨ownerToken, heldBy_put_self.mpr ?_⟩
      rw [holdsToken_iff, Dict.get?_update, Dict.get?_update, get?_lockPatch_status,
        get?_lockPatch_token]
      exact ⟨rfl, rfl⟩
    · rintro token ⟨held, hheld, hbusy, -⟩
      cases hheld.symm.trans hrow
      exact hidle (status_of_busy hthread hbusy)
  | _ => exact nomatch hq

theorem heldBy_wrote (hheld : HeldBy threadId token T) (hwrote : Wrote q threadId T T') :
    HeldBy threadId token T' ∨ Frees token q := by
  have hfree := fun hq => (acquires_wrote hq hwrote).2 token hheld
  obtain ⟨held, hrow, hbusy, htoken⟩ := hheld
  cases hwrote with
  | create hnone _ => rw [hrow] at hnone; exact nomatch hnone
  | @update _ _ _ _ _ _ _ status _ _ hrow' hupdated =>
    cases hrow.symm.trans hrow'
    obtain ⟨hkept, hstatus⟩ := get?_updated hupdated
    cases status with
    | some status => exact .inr (Option.some_ne_none status)
    | none =>
      left
      rw [heldBy_put_self, holdsToken_iff, hkept, hstatus rfl]
      exact ⟨hbusy, holdsToken_iff.mp htoken⟩
  | delete => exact .inr trivial
  | acquire _ _ _ _ => exact (hfree rfl).elim
  | @release _ _ _ _ _ _ _ ownerToken _ hrow' hfresh _ =>
    cases hrow.symm.trans hrow'
    right
    cases ownerToken with
    | none => exact .inl rfl
    | some owner =>
      have howner : holdsToken held.entity owner := by simpa [isStale] using hfresh
      rw [holdsToken_iff] at howner htoken
      cases howner.symm.trans htoken
      exact .inr rfl
  | renew hrow' _ =>
    cases hrow.symm.trans hrow'
    left
    rw [heldBy_put_self, holdsToken_iff, Dict.get?_update, Dict.get?_update,
      get?_renewPatch _ (by decide), get?_renewPatch _ (by decide)]
    exact ⟨hbusy, holdsToken_iff.mp htoken⟩
  | reset _ _ _ _ _ => exact .inr trivial

end LangGraphFunctions.Stores.AzureTable

import LangGraphFunctions.Lib.Views
import LangGraphFunctions.Lib.Weights
import LangGraphFunctions.Stores.RunLock
import LangGraphFunctions.Stores.TableJsonRuns

/-! The room that a row has left for a run lock. -/

namespace LangGraphFunctions.Stores.AzureTable

open Lib Platform

variable {threadId token assistant : String} {e e' : Entity} {now : Int}

def bytes (p : String × Property) : Nat :=
  if isCounted p then utf16Size p.1 + 32 + (valueSize p.2).toOption.getD 0 else 0

def one (p : String × Property) : Nat := if isCounted p then 1 else 0

def rowSize (e : Entity) : Nat := 4096 + e.weight bytes

def rowProperties (e : Entity) : Nat := 1 + e.weight one

def Fits (e : Entity) : Prop := ∀ k v, e.get? k = some v → isCounted (k, v) → ∃ n, valueSize v = .ok n

theorem foldlM_measure_ok {items : List (String × Property)}
    (h : ∀ p ∈ items, isCounted p → ∃ n, valueSize p.2 = .ok n) (acc : Nat × Nat) :
    items.foldlM measure acc =
      .ok (acc.1 + (items.map bytes).sum, acc.2 + (items.map one).sum) := by
  induction items generalizing acc with
  | nil => rfl
  | cons p items ih =>
    obtain ⟨hp, hitems⟩ := List.forall_mem_cons.mp h
    rw [List.foldlM_cons, measure, List.map_cons, List.map_cons, List.sum_cons, List.sum_cons,
      bytes, one]
    cases hcounted : isCounted p with
    | false =>
      simp only [Bool.false_eq_true, if_false, Nat.zero_add]
      exact ih hitems acc
    | true =>
      obtain ⟨n, hn⟩ := hp hcounted
      rw [hn]
      simp only [if_true, Except.toOption, Option.getD_some]
      refine (ih hitems (acc.1 + utf16Size p.1 + 32 + n, acc.2 + 1)).trans ?_
      refine congrArg Except.ok (Prod.ext ?_ ?_)
      · change _ + _ + _ + _ + _ = _
        omega
      · change _ + _ + _ = _
        omega

theorem fits_of_foldlM {items : List (String × Property)} {acc result : Nat × Nat}
    (h : items.foldlM measure acc = .ok result) :
    ∀ p ∈ items, isCounted p → ∃ n, valueSize p.2 = .ok n := by
  induction items generalizing acc with
  | nil => exact fun _ hp => absurd hp List.not_mem_nil
  | cons p items ih =>
    rw [List.foldlM_cons, measure] at h
    cases hcounted : isCounted p with
    | false =>
      rw [hcounted] at h
      refine List.forall_mem_cons.mpr ⟨fun hp => ?_, ih h⟩
      rw [hcounted] at hp
      cases hp
    | true =>
      rw [hcounted] at h
      cases hv : valueSize p.2 with
      | error x => rw [hv] at h; cases h
      | ok n =>
        rw [hv] at h
        exact List.forall_mem_cons.mpr ⟨fun _ => ⟨n, hv⟩, ih h⟩

theorem validateEntity_of_fits (h : Fits e) : validateEntity e =
    if rowProperties e > 255 then
      .error (.tableStorageLimitError "property count" (rowProperties e) 255)
    else if rowSize e > entityBytes then
      .error (.tableStorageLimitError "entity" (rowSize e) entityBytes)
    else .ok () := by
  have hitems : ∀ p ∈ e.items, isCounted p → ∃ n, valueSize p.2 = .ok n :=
    fun p hp => h p.1 p.2 (Dict.get?_eq_some_iff.mpr hp)
  rw [validateEntity, foldlM_measure_ok hitems]
  change (if rowProperties e > 255 then throw _ else _ : Except Exn Unit) = _
  split
  · rfl
  · change (if rowSize e > entityBytes then throw _ else _ : Except Exn Unit) = _
    split <;> rfl

theorem fits_of_validateEntity (h : validateEntity e = .ok ()) : Fits e := by
  rw [validateEntity] at h
  cases hmeasure : e.items.foldlM measure (4096, 1) with
  | error x => rw [hmeasure] at h; cases h
  | ok result =>
    intro k v hget
    exact fits_of_foldlM hmeasure (k, v) (Dict.get?_eq_some_iff.mp hget)

structure OwnRow (threadId : String) (e : Entity) : Prop where
  partitionKey : e.get? "PartitionKey" = some (.str partitionKey)
  rowKey : e.get? "RowKey" = some (.str threadId)
  status : ∃ status : ThreadStatus, e.get? "status" = some (.str status.text)

inductive Accepted (threadId : String) : Entity → Prop
  | create {metadata : Option JsonObject} {now : Int} {e : Entity} :
      threadToEntity threadId now now metadata .idle none none ∅ = .ok e →
      validateEntity e = .ok () → Accepted threadId e
  | update {row e : Entity} {now : Int} {metadata values : Option JsonObject}
      {status : Option ThreadStatus} {interrupts : Option (Dict Json.Key (List Interrupt))}
      {assistantId : Option String} : OwnRow threadId row →
      updated row now metadata status values interrupts assistantId = .ok e →
      validateEntity e = .ok () → Accepted threadId e
  | release {row e : Entity} {now : Int} {status : ThreadStatus} {values : Option Json.Value} :
      OwnRow threadId row → status ≠ .busy → released row now status values = .ok e →
      validateEntity e = .ok () → Accepted threadId e

structure Measured (threadId : String) (e : Entity) : Prop extends OwnRow threadId e where
  updatedAt : ∃ t, e.get? "updated_at" = some (.datetime t)
  valid : validateEntity e = .ok ()

theorem Accepted.measured (h : Accepted threadId e) : Measured threadId e := by
  cases h with
  | create hentity hvalid =>
    obtain ⟨e₁, h₁, hentity⟩ := bind_eq_ok.mp hentity
    obtain ⟨e₂, h₂, hentity⟩ := bind_eq_ok.mp hentity
    obtain ⟨e₃, h₃, hentity⟩ := bind_eq_ok.mp hentity
    cases hentity
    have hkeep (name : String) (hm : ownsKey "metadata_json" name = false)
        (hv : ownsKey "values_json" name = false) (hi : ownsKey "interrupts_json" name = false) :=
      (get?_writeOptionalJson h₃ hv).trans ((get?_writeOptionalJson h₂ hm).trans
        (get?_writeJson h₁ hi))
    exact
      { partitionKey := hkeep "PartitionKey" (by decide) (by decide) (by decide)
        rowKey := hkeep "RowKey" (by decide) (by decide) (by decide)
        status := ⟨.idle, hkeep "status" (by decide) (by decide) (by decide)⟩
        updatedAt := ⟨_, hkeep "updated_at" (by decide) (by decide) (by decide)⟩
        valid := hvalid }
  | @update row e now metadata values status interrupts assistantId hrow hentity hvalid =>
    obtain ⟨e₁, h₁, hentity⟩ := bind_eq_ok.mp hentity
    obtain ⟨e₂, h₂, hentity⟩ := bind_eq_ok.mp hentity
    obtain ⟨e₃, h₃, hentity⟩ := bind_eq_ok.mp hentity
    have hkeep (name : String) (hm : ownsKey "metadata_json" name = false)
        (hv : ownsKey "values_json" name = false) (hi : ownsKey "interrupts_json" name = false) :=
      (get?_writeOptionalJson h₃ hi).trans ((get?_writeOptionalJson h₂ hv).trans
        (get?_writeOptionalJson h₁ hm))
    have hkept (name : String) (hname : name ∈ ["PartitionKey", "RowKey", "updated_at"]) :
        e.get? name = e₃.get? name := by
      cases hentity
      simp only [List.mem_cons, List.not_mem_nil, or_false] at hname
      obtain rfl | rfl | rfl := hname <;> cases status <;> cases assistantId <;> simp
    have hstatus : ∃ status : ThreadStatus, e.get? "status" = some (.str status.text) := by
      obtain ⟨old, hold⟩ := hrow.status
      cases hentity
      cases status with
      | some status => exact ⟨status, by cases assistantId <;> simp⟩
      | none =>
        refine ⟨old, ?_⟩
        have hsame := hkeep "status" (by decide) (by decide) (by decide)
        rw [Dict.get?_set_ne _ _ (by decide), Dict.get?_filterKeys] at hsame
        cases assistantId <;> simp [hsame, hold]
    have hold (name : String) (hname : name ∈ ["PartitionKey", "RowKey"]) :
        e.get? name = row.get? name := by
      rw [hkept name (by simp only [List.mem_cons] at hname ⊢; tauto)]
      simp only [List.mem_cons, List.not_mem_nil, or_false] at hname
      obtain rfl | rfl := hname
      · rw [hkeep "PartitionKey" (by decide) (by decide) (by decide),
          Dict.get?_set_ne _ _ (by decide), Dict.get?_filterKeys]
        rfl
      · rw [hkeep "RowKey" (by decide) (by decide) (by decide),
          Dict.get?_set_ne _ _ (by decide), Dict.get?_filterKeys]
        rfl
    exact
      { partitionKey := (hold _ (by simp)).trans hrow.partitionKey
        rowKey := (hold _ (by simp)).trans hrow.rowKey
        status := hstatus
        updatedAt := ⟨now, by
          rw [hkept _ (by simp), hkeep "updated_at" (by decide) (by decide) (by decide),
            Dict.get?_set_self]⟩
        valid := hvalid }
  | @release row e now status values hrow _ hentity hvalid =>
    have hkeep (name : String) (hv : ownsKey "values_json" name = false) :=
      get?_writeOptionalJson hentity hv
    exact
      { partitionKey := by
          rw [hkeep "PartitionKey" (by decide), Dict.get?_set_ne _ _ (by decide),
            Dict.get?_set_ne _ _ (by decide), Dict.get?_filterKeys]
          exact hrow.partitionKey
        rowKey := by
          rw [hkeep "RowKey" (by decide), Dict.get?_set_ne _ _ (by decide),
            Dict.get?_set_ne _ _ (by decide), Dict.get?_filterKeys]
          exact hrow.rowKey
        status := ⟨status, by
          rw [hkeep "status" (by decide), Dict.get?_set_ne _ _ (by decide), Dict.get?_set_self]⟩
        updatedAt := ⟨now, by rw [hkeep "updated_at" (by decide), Dict.get?_set_self]⟩
        valid := hvalid }

theorem update_lockPatch (e : Entity) (threadId token : String) (now : Int) (bound : String)
    (assistantId : Option String) :
    e.update (lockPatch threadId now token (some bound) assistantId) =
      (((((e.set "PartitionKey" (.str partitionKey)).set "RowKey" (.str threadId)).set "status"
        (.str ThreadStatus.busy.text)).set "updated_at" (.datetime now)).set "lock_token"
        (.str token)).set "lock_expires_at" (.datetime (now + lockSeconds)) := rfl

theorem weight_update_lockPatch (w : String × Property → Nat) (h : Measured threadId e)
    {status : ThreadStatus} (hstatus : e.get? "status" = some (.str status.text)) {t : Int}
    (hupdated : e.get? "updated_at" = some (.datetime t)) (htoken : e.get? "lock_token" = none)
    (hexpires : e.get? "lock_expires_at" = none) (bound : String) (assistantId : Option String) :
    (e.update (lockPatch threadId now token (some bound) assistantId)).weight w +
        w ("status", .str status.text) + w ("updated_at", .datetime t) =
      e.weight w + w ("status", .str ThreadStatus.busy.text) + w ("updated_at", .datetime now) +
        w ("lock_token", .str token) + w ("lock_expires_at", .datetime (now + lockSeconds)) := by
  let e₁ := e.set "PartitionKey" (.str partitionKey)
  let e₂ := e₁.set "RowKey" (.str threadId)
  let e₃ := e₂.set "status" (.str ThreadStatus.busy.text)
  let e₄ := e₃.set "updated_at" (.datetime now)
  let e₅ := e₄.set "lock_token" (.str token)
  have hrow : e₁.get? "RowKey" = some (.str threadId) := by simp [e₁, h.rowKey]
  have hold : e₂.get? "status" = some (.str status.text) := by simp [e₂, e₁, hstatus]
  have htime : e₃.get? "updated_at" = some (.datetime t) := by simp [e₃, e₂, e₁, hupdated]
  have hfree : e₄.get? "lock_token" = none := by simp [e₄, e₃, e₂, e₁, htoken]
  have hnever : e₅.get? "lock_expires_at" = none := by simp [e₅, e₄, e₃, e₂, e₁, hexpires]
  have h₁ : e₁.weight w + _ = _ := Dict.weight_set_old w h.partitionKey (.str partitionKey)
  have h₂ : e₂.weight w + _ = _ := Dict.weight_set_old w hrow (.str threadId)
  have h₃ : e₃.weight w + _ = _ := Dict.weight_set_old w hold (.str ThreadStatus.busy.text)
  have h₄ : e₄.weight w + _ = _ := Dict.weight_set_old w htime (.datetime now)
  have h₅ : e₅.weight w = _ := Dict.weight_set_new w hfree (.str token)
  have h₆ := Dict.weight_set_new w hnever (.datetime (now + lockSeconds))
  rw [update_lockPatch]
  change (e₅.set "lock_expires_at" (.datetime (now + lockSeconds))).weight w + _ + _ = _
  omega

structure IsHex32 (token : String) : Prop where
  length : token.toList.length = 32
  digits : ∀ c ∈ token.toList, c ∈ "0123456789abcdef".toList

theorem utf16Size_hex (h : IsHex32 token) : utf16Size token = 64 := by
  have hall : "0123456789abcdef".toList.all (fun c => decide (c.toNat < 0x10000)) = true := by
    decide +kernel
  have hascii (c : Char) (hc : c ∈ "0123456789abcdef".toList) : c.toNat < 0x10000 :=
    of_decide_eq_true (List.all_eq_true.mp hall c hc)
  have hsize (cs : List Char) (hcs : ∀ c ∈ cs, c.toNat < 0x10000) :
      (cs.map fun c => if c.toNat < 0x10000 then 2 else 4).sum = cs.length * 2 := by
    induction cs with
    | nil => rfl
    | cons c cs ih =>
      obtain ⟨hc, hrest⟩ := List.forall_mem_cons.mp hcs
      rw [List.map_cons, List.sum_cons, ih hrest, if_pos hc, List.length_cons]
      omega
  rw [utf16Size, hsize _ fun c hc => hascii c (h.digits c hc), h.length]

theorem fits_update_lockPatch (h : Measured threadId e) (htoken : IsHex32 token) (bound : String)
    (assistantId : Option String) :
    Fits (e.update (lockPatch threadId now token (some bound) assistantId)) := by
  have hfits := fits_of_validateEntity h.valid
  intro k v hget hcounted
  rw [update_lockPatch] at hget
  simp only [Dict.get?_set] at hget
  split_ifs at hget
  · cases hget; exact ⟨16, rfl⟩
  · cases hget
    exact ⟨64, by rw [valueSize, utf16Size_hex htoken]; rfl⟩
  · cases hget; exact ⟨16, rfl⟩
  · cases hget; exact ⟨8, by decide⟩
  · next hrow => cases hget; exact hfits "RowKey" _ h.rowKey rfl
  · cases hget; exact ⟨12, by decide⟩
  · exact hfits k v hget hcounted

/-- The bytes of the lock: two names, two overheads, a token and a time. -/
def lockBytes : Nat := 194

theorem rowSize_update_lockPatch (h : Measured threadId e) {status : ThreadStatus}
    (hstatus : e.get? "status" = some (.str status.text)) (hfree : e.get? "lock_token" = none)
    (hexpires : e.get? "lock_expires_at" = none) (htoken : IsHex32 token) (bound : String)
    (assistantId : Option String) :
    rowSize (e.update (lockPatch threadId now token (some bound) assistantId)) +
      utf16Size status.text = rowSize e + utf16Size ThreadStatus.busy.text + lockBytes := by
  obtain ⟨t, hupdated⟩ := h.updatedAt
  have hweight := @weight_update_lockPatch threadId token e now bytes h status hstatus t hupdated
    hfree hexpires bound assistantId
  have hlock : bytes ("lock_token", .str token) = 116 := by
    have hsize : valueSize (.str token) = .ok 64 := by
      rw [valueSize, utf16Size_hex htoken]
      rfl
    have hname : utf16Size "lock_token" = 20 := by decide
    have hbytes : bytes ("lock_token", .str token) = utf16Size "lock_token" + 32 +
        (valueSize (.str token)).toOption.getD 0 := if_pos rfl
    rw [hbytes, hsize, hname]
    rfl
  have htime (name : String) (t t' : Int) : bytes (name, .datetime t) = bytes (name, .datetime t') :=
    rfl
  have hstate (status : ThreadStatus) : bytes ("status", .str status.text) =
      44 + utf16Size status.text := by
    cases status <;> decide
  have hexpiry (t : Int) : bytes ("lock_expires_at", .datetime t) = 78 := by
    have hname : utf16Size "lock_expires_at" = 30 := by decide
    have hbytes : bytes ("lock_expires_at", .datetime t) = utf16Size "lock_expires_at" + 32 + 16 :=
      if_pos rfl
    rw [hbytes, hname]
  rw [hstate, hstate, hlock, hexpiry, htime "updated_at" t now] at hweight
  rw [rowSize, rowSize, lockBytes]
  omega

theorem rowProperties_update_lockPatch (h : Measured threadId e) (hfree : e.get? "lock_token" = none)
    (hexpires : e.get? "lock_expires_at" = none) (bound : String) (assistantId : Option String) :
    rowProperties (e.update (lockPatch threadId now token (some bound) assistantId)) =
      rowProperties e + 2 := by
  obtain ⟨t, hupdated⟩ := h.updatedAt
  obtain ⟨status, hstatus⟩ := h.status
  have hweight := @weight_update_lockPatch threadId token e now one h status hstatus t hupdated
    hfree hexpires bound assistantId
  have hone (p : String × Property) (hp : isCounted p = true) : one p = 1 := if_pos hp
  rw [hone _ rfl, hone _ rfl, hone _ rfl, hone _ rfl, hone _ rfl, hone _ rfl] at hweight
  rw [rowProperties, rowProperties]
  omega

def quiet (row : Row) (now : Int) (token : String) : (o : EtagTable.Op Property) → o.Ans
  | .get _ => .ok row
  | .update .. => .ok ()
  | .create .. => .ok ()
  | .delete _ => .ok ()
  | .query .. => .ok []
  | .now => now
  | .uuid => token

theorem eval_tryAcquireRunLock {thread : Thread} (hthread : entityToThread threadId e = .ok thread)
    (hfree : thread.status ≠ .busy) (hbound : thread.assistantId = some assistant) (etag : Nat) :
    Prog.eval (quiet ⟨e, etag⟩ now token) (tryAcquireRunLock threadId (some assistant)) =
      (validateEntity (e.update (lockPatch threadId now token (some assistant) (some assistant)))).map
        fun _ => some (lockedThread thread now token (some assistant)) := by
  have hhere : boundElsewhere thread.assistantId (some assistant) = false := by
    rw [hbound]
    exact bne_self_eq_false assistant
  change Prog.eval _ (Prog.ofExcept (entityToThread threadId e) >>= _) = _
  rw [Prog.eval_bind, Prog.eval_ofExcept, hthread]
  change Prog.eval _ (if boundElsewhere thread.assistantId (some assistant) = true then _
    else if thread.status = ThreadStatus.busy then _ else _) = _
  rw [if_neg (by rw [hhere]; exact Bool.false_ne_true), if_neg hfree]
  change Prog.eval _ (Prog.ofExcept (validateEntity (e.update (lockPatch threadId now token
    thread.assistantId (some assistant)))) >>= _) = _
  rw [Prog.eval_bind, Prog.eval_ofExcept, hbound]
  cases validateEntity (e.update (lockPatch threadId now token (some assistant) (some assistant))) with
  | error x => rfl
  | ok _ => rfl

/-- An accepted row can be locked exactly where the lock still fits beside it: nothing of what
`validate_entity` sets aside is left to the lock. -/
theorem acquire_headroom {thread : Thread} (haccepted : Accepted threadId e)
    (hunlocked : e.get? "lock_token" = none) (hexpires : e.get? "lock_expires_at" = none)
    (hthread : entityToThread threadId e = .ok thread) (hidle : thread.status ≠ .busy)
    (hbound : thread.assistantId = some assistant) (htoken : IsHex32 token) (etag : Nat)
    (now : Int) :
    (∀ dimension size limit, Prog.eval (quiet ⟨e, etag⟩ now token)
      (tryAcquireRunLock threadId (some assistant)) ≠
        .error (.tableStorageLimitError dimension size limit)) ↔
      rowSize e + utf16Size ThreadStatus.busy.text + lockBytes ≤
          entityBytes + utf16Size thread.status.text ∧ rowProperties e + 2 ≤ 255 := by
  have hmeasured := haccepted.measured
  have hstatus : e.get? "status" = some (.str thread.status.text) := by
    obtain ⟨status, hstatus⟩ := hmeasured.status
    have hread := readStatus_of_entityToThread hthread
    simp only [readStatus, hstatus, ThreadStatus.ofText_text] at hread
    rw [hstatus, Except.ok.inj hread]
  have hsize := @rowSize_update_lockPatch threadId token e now hmeasured thread.status hstatus
    hunlocked hexpires htoken assistant (some assistant)
  have hproperties := @rowProperties_update_lockPatch threadId token e now hmeasured hunlocked
    hexpires assistant (some assistant)
  rw [eval_tryAcquireRunLock hthread hidle hbound,
    validateEntity_of_fits (fits_update_lockPatch hmeasured htoken assistant (some assistant))]
  split
  · next hmany =>
    refine iff_of_false (fun h => h _ _ _ rfl) fun h => ?_
    omega
  · next hfew =>
    split
    · next hlarge =>
      refine iff_of_false (fun h => h _ _ _ rfl) fun h => ?_
      omega
    · next hsmall =>
      refine iff_of_true (fun _ _ _ h => by cases h) ?_
      constructor <;> omega

def ownProperties (status : String) : List (String × Property) :=
  [("PartitionKey", .str "thread"), ("RowKey", .str "t"), ("created_at", .datetime 0),
    ("updated_at", .datetime 0), ("status", .str status), ("interrupts_json", .str "\x7b\x7d"),
    ("assistant_id", .str "agent")]

def note (i : Nat) : String × Property := ("note_" ++ toString i, .bool true)

theorem note_injective : Function.Injective fun i => (note i).1 := fun i j h => by
  have h' := congrArg String.toList h
  simp only [note, String.toList_append] at h'
  exact toString_injective (String.toList_inj.mp (List.append_cancel_left h'))

theorem note_ne {key : String} (h : key.toList.head? ≠ some 'n') (i : Nat) : (note i).1 ≠ key := by
  rintro rfl
  exact h (by simp [note])

def annotatedRow (status : String) (n : Nat) : Entity where
  items := ownProperties status ++ (List.range n).map note
  nodup := by
    rw [List.map_append, List.map_map, List.nodup_append]
    refine ⟨by simp [ownProperties], List.Nodup.map note_injective List.nodup_range, ?_⟩
    intro key hkey key' hkey' heq
    obtain ⟨i, -, rfl⟩ := List.mem_map.mp hkey'
    have hhead : ∀ key ∈ (ownProperties status).map Prod.fst, key.toList.head? ≠ some 'n' := by
      simp [ownProperties]
    exact note_ne (hhead key hkey) i heq.symm

theorem get?_annotatedRow {status key : String} {n : Nat} (h : key.toList.head? ≠ some 'n') :
    (annotatedRow status n).get? key = (ownProperties status).lookup key := by
  have hnone : ((List.range n).map note).lookup key = none := by
    rw [← Option.not_isSome_iff_eq_none, Dict.lookup_isSome_iff]
    intro hmem
    rw [List.map_map] at hmem
    obtain ⟨i, -, hi⟩ := List.mem_map.mp hmem
    exact note_ne h i hi
  change (ownProperties status ++ (List.range n).map note).lookup key = _
  rw [List.lookup_append, hnone, Option.or_none]

theorem weight_annotatedRow (w : String × Property → Nat) (status : String) (n : Nat) :
    (annotatedRow status n).weight w = ((ownProperties status).map w).sum +
      ((List.range n).map fun i => w (note i)).sum := by
  change ((ownProperties status ++ (List.range n).map note).map w).sum = _
  rw [List.map_append, List.sum_append, List.map_map]
  rfl

theorem mem_annotatedRow {status : String} {n : Nat} {p : String × Property}
    (h : p ∈ (annotatedRow status n).items) : p ∈ ownProperties status ∨ ∃ i, p = note i := by
  obtain h | h := List.mem_append.mp h
  · exact .inl h
  · obtain ⟨i, -, rfl⟩ := List.mem_map.mp h
    exact .inr ⟨i, rfl⟩

theorem updated_annotatedRow (status : String) (n : Nat) :
    updated (annotatedRow status n) 0 none none none none none = .ok (annotatedRow status n) := by
  have hkeys (p : String × Property) (hp : p ∈ (annotatedRow status n).items) :
      (!(p.1 == "etag" || p.1 == "Timestamp")) = true := by
    obtain hp | ⟨i, rfl⟩ := mem_annotatedRow hp
    · simp only [ownProperties, List.mem_cons, List.not_mem_nil, or_false] at hp
      obtain rfl | rfl | rfl | rfl | rfl | rfl | rfl := hp <;> rfl
    · rw [beq_eq_false_iff_ne.mpr (note_ne (by decide) i),
        beq_eq_false_iff_ne.mpr (note_ne (by decide) i)]
      rfl
  have hfilter : (annotatedRow status n).filterKeys
      (fun key => !(key == "etag" || key == "Timestamp")) = annotatedRow status n :=
    Dict.ext (List.filter_eq_self.mpr hkeys)
  change Except.ok (((annotatedRow status n).filterKeys
    fun key => !(key == "etag" || key == "Timestamp")).set "updated_at" (.datetime 0)) = _
  rw [hfilter]
  rfl

theorem bytes_note : ∀ i < 247, bytes (note i) ≤ 64 ∧ one (note i) = 1 := by decide +kernel

theorem rowProperties_annotatedRow {n : Nat} (hn : n ≤ 247) :
    rowProperties (annotatedRow "idle" n) = n + 8 := by
  have hnotes : (List.range n).map (fun i => one (note i)) = List.replicate n 1 := by
    refine List.eq_replicate_iff.mpr ⟨by simp, fun m hm => ?_⟩
    obtain ⟨i, hi, rfl⟩ := List.mem_map.mp hm
    exact (bytes_note i ((List.mem_range.mp hi).trans_le hn)).2
  have hown : ((ownProperties "idle").map one).sum = 7 := by decide
  rw [rowProperties, weight_annotatedRow, hnotes, hown, List.sum_replicate_nat]
  omega

theorem rowSize_annotatedRow {n : Nat} (hn : n ≤ 247) : rowSize (annotatedRow "idle" n) ≤ 30000 := by
  have hnotes : ((List.range n).map fun i => bytes (note i)).sum ≤ n * 64 := by
    have hle := List.sum_le_card_nsmul ((List.range n).map fun i => bytes (note i)) 64 fun m hm => by
      obtain ⟨i, hi, rfl⟩ := List.mem_map.mp hm
      exact (bytes_note i ((List.mem_range.mp hi).trans_le hn)).1
    simpa using hle
  have hown : ((ownProperties "idle").map bytes).sum ≤ 1000 := by decide
  rw [rowSize, weight_annotatedRow]
  omega

theorem validateEntity_annotatedRow {n : Nat} (hn : n ≤ 247) :
    validateEntity (annotatedRow "idle" n) = .ok () := by
  have hfits : Fits (annotatedRow "idle" n) := by
    intro k v hget _
    obtain hp | ⟨i, hp⟩ := mem_annotatedRow (Dict.get?_eq_some_iff.mp hget)
    · have hall : ∀ p ∈ ownProperties "idle", (valueSize p.2).isOk = true := by decide
      have hok := hall _ hp
      cases hv : valueSize v with
      | ok n => exact ⟨n, rfl⟩
      | error x => rw [hv] at hok; cases hok
    · cases hp
      exact ⟨16, rfl⟩
  have hsize := rowSize_annotatedRow hn
  have hlimit : entityBytes = 1048576 := rfl
  rw [validateEntity_of_fits hfits, rowProperties_annotatedRow hn, if_neg (by omega),
    if_neg (by omega)]

theorem accepted_annotatedRow {n : Nat} (hn : n ≤ 247) : Accepted "t" (annotatedRow "idle" n) := by
  have hget {key : String} (h : key.toList.head? ≠ some 'n') := @get?_annotatedRow "idle" key n h
  exact .update ⟨hget (by decide), hget (by decide), .idle, hget (by decide)⟩
    (updated_annotatedRow "idle" n) (validateEntity_annotatedRow hn)

theorem readJson_congr {field : String} (h : ∀ key, ownsKey field key → e.get? key = e'.get? key)
    (default : Json.Value) : readJson e field default = readJson e' field default := by
  have hcount : chunkCount e field = chunkCount e' field := by
    rw [chunkCount, chunkCount, h _ (ownsKey_partKey ..)]
  have hjoin (count : Nat) : joinChunks e field count = joinChunks e' field count := by
    simp only [joinChunks, h _ (ownsKey_partKey field _)]
  have htext : readText e field = readText e' field := by
    simp only [readText, h _ (ownsKey_partKey field "format"), h _ (ownsKey_self field), hcount,
      hjoin]
  rw [readJson, readJson, htext]

theorem entityToThread_annotatedRow (n : Nat) : ∃ thread,
    entityToThread "t" (annotatedRow "idle" n) = .ok thread ∧ thread.status = .idle ∧
      thread.assistantId = some "agent" := by
  have hsame (key : String) (h : key.toList.head? ≠ some 'n') :
      (annotatedRow "idle" n).get? key = (annotatedRow "idle" 0).get? key := by
    rw [get?_annotatedRow h, get?_annotatedRow h]
  have hjson {field : String} (hne : field ≠ "") (h : field.toList.head? ≠ some 'n')
      (default : Json.Value) : readJson (annotatedRow "idle" n) field default =
        readJson (annotatedRow "idle" 0) field default :=
    readJson_congr (fun key hkey => hsame key ((head?_of_ownsKey hne hkey).symm ▸ h)) default
  have hread : entityToThread "t" (annotatedRow "idle" n) =
      entityToThread "t" (annotatedRow "idle" 0) := by
    have hcreated := hsame "created_at" (by decide)
    have hupdated := hsame "updated_at" (by decide)
    have hexpires := hsame "lock_expires_at" (by decide)
    have hstatus := hsame "status" (by decide)
    have hassistant := hsame "assistant_id" (by decide)
    have htoken := hsame "lock_token" (by decide)
    simp only [entityToThread, hjson (by decide : "metadata_json" ≠ "") (by decide),
      hjson (by decide : "values_json" ≠ "") (by decide),
      hjson (by decide : "interrupts_json" ≠ "") (by decide), readDatetime, readOptionalDatetime,
      readStatus, readOptionalString, hcreated, hupdated, hexpires, hstatus, hassistant, htoken]
  rw [hread]
  have hok : ((entityToThread "t" (annotatedRow "idle" 0)).toOption.map fun thread =>
      (thread.status, thread.assistantId)) = some (.idle, some "agent") := by decide +kernel
  cases hthread : entityToThread "t" (annotatedRow "idle" 0) with
  | error x => rw [hthread] at hok; cases hok
  | ok thread =>
    rw [hthread] at hok
    have hfields := Prod.mk.inj (Option.some.inj hok)
    exact ⟨thread, rfl, hfields.1, hfields.2⟩

def someToken : String := "0123456789abcdef0123456789abcdef"

theorem isHex32_someToken : IsHex32 someToken := by
  have hall : someToken.toList.all (fun c => "0123456789abcdef".toList.elem c) = true := by
    decide +kernel
  exact ⟨by decide +kernel, fun c hc => List.mem_of_elem_eq_true (List.all_eq_true.mp hall c hc)⟩

theorem acquire_headroom_annotatedRow : ∃ thread,
    entityToThread "t" (annotatedRow "idle" 2) = .ok thread ∧
    ∀ dimension size limit, Prog.eval (quiet ⟨annotatedRow "idle" 2, 1⟩ 5 someToken)
      (tryAcquireRunLock "t" (some "agent")) ≠
        .error (.tableStorageLimitError dimension size limit) := by
  obtain ⟨thread, hthread, hstatus, hassistant⟩ := entityToThread_annotatedRow 2
  have hidle : thread.status ≠ .busy := by rw [hstatus]; decide
  have hfree : (annotatedRow "idle" 2).get? "lock_token" = none := get?_annotatedRow (by decide)
  have hexpires : (annotatedRow "idle" 2).get? "lock_expires_at" = none :=
    get?_annotatedRow (by decide)
  refine ⟨thread, hthread, (acquire_headroom (accepted_annotatedRow (by decide)) hfree hexpires
    hthread hidle hassistant isHex32_someToken 1 5).mpr ?_⟩
  have hsize := rowSize_annotatedRow (show 2 ≤ 247 by decide)
  have hlimit : entityBytes = 1048576 := rfl
  have hlock : lockBytes = 194 := rfl
  have hbusy : utf16Size ThreadStatus.busy.text = 8 := by decide
  rw [rowProperties_annotatedRow (by decide), hstatus]
  omega

/-- A row that has all the properties it may have is accepted, and cannot be locked. -/
theorem acquire_noHeadroom : ¬ ∀ threadId (e : Entity) thread assistant token etag now,
    Accepted threadId e → e.get? "lock_token" = none → e.get? "lock_expires_at" = none →
    entityToThread threadId e = .ok thread → thread.status = .idle →
    thread.assistantId = some assistant → IsHex32 token →
    ∀ dimension size limit, Prog.eval (quiet ⟨e, etag⟩ now token)
      (tryAcquireRunLock threadId (some assistant)) ≠
        .error (.tableStorageLimitError dimension size limit) := by
  intro h
  obtain ⟨thread, hthread, hstatus, hassistant⟩ := entityToThread_annotatedRow 247
  have hfree : (annotatedRow "idle" 247).get? "lock_token" = none := get?_annotatedRow (by decide)
  have hexpires : (annotatedRow "idle" 247).get? "lock_expires_at" = none :=
    get?_annotatedRow (by decide)
  have haccepted := accepted_annotatedRow (Nat.le_refl 247)
  have hidle : thread.status ≠ .busy := by rw [hstatus]; decide
  have hproperties := @rowProperties_update_lockPatch "t" someToken _ 5 haccepted.measured hfree
    hexpires "agent" (some "agent")
  rw [rowProperties_annotatedRow (Nat.le_refl 247)] at hproperties
  refine h "t" _ thread "agent" someToken 1 5 haccepted hfree hexpires hthread hstatus hassistant
    isHex32_someToken "property count" 257 255 ?_
  rw [eval_tryAcquireRunLock hthread hidle hassistant, validateEntity_of_fits
    (fits_update_lockPatch haccepted.measured isHex32_someToken "agent" (some "agent")),
    if_pos (by omega), hproperties]
  rfl

end LangGraphFunctions.Stores.AzureTable

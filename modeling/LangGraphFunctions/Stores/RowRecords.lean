import LangGraphFunctions.Lib.JsonRender
import LangGraphFunctions.Stores.Headroom

/-! A row as the record of a thread, and what each write makes of the record. -/

namespace LangGraphFunctions.Stores.AzureTable

open Lib Platform

variable {entity entity' written : Entity} {thread : Thread} {field : String} {threadId : String}
  {now : Int} {token : String}

theorem readJson_absent (h : ∀ key, ownsKey field key → entity.get? key = none)
    (default : Json.Value) : readJson entity field default = .ok default := by
  have hempty : ∀ key, ownsKey field key → entity.get? key = (∅ : Entity).get? key := h
  rw [readJson_congr hempty]
  rfl

theorem readJson_written (hf : field ∈ jsonFields) (hvalid : validateEntity entity = .ok ())
    {value : Json.Value} (hjson : Json.IsJson value.rendered) {text : String}
    (htext : dumps value false = .ok text)
    (h : ∀ key, ownsKey field key → entity.get? key = (jsonProperties field text).lookup key)
    (default : Json.Value) : readJson entity field default = .ok value.rendered := by
  have hkeeps : Keeps entity field (some text) := .inl h
  have hdumps : Json.dumps .spaced false value = .ok text := by
    rw [dumps] at htext
    cases hdumps : Json.dumps .spaced false value with
    | error e => rw [hdumps] at htext; cases htext
    | ok text' => rw [hdumps] at htext; exact congrArg Except.ok (Except.ok.inj htext)
  rw [readJson_of_keeps hf hvalid hkeeps, Option.elim_some, loads,
    Json.loads_dumps_rendered hjson hdumps]

theorem readJson_after (hf : field ∈ jsonFields) {value : Option Json.Value}
    (hwrite : writeOptionalJson entity field value = .ok written)
    (hsame : ∀ key, ownsKey field key → entity'.get? key = written.get? key)
    (hvalid : validateEntity entity' = .ok ())
    (hjson : ∀ v, value = some v → Json.IsJson v.rendered) (default : Json.Value) :
    readJson entity' field default =
      (value.map Json.Value.rendered).elim (readJson entity field default) .ok := by
  cases value with
  | none =>
    cases hwrite
    exact readJson_congr hsame default
  | some value =>
    obtain ⟨text, htext, rfl⟩ := writeJson_eq_ok.mp hwrite
    exact readJson_written hf hvalid (hjson value rfl) htext
      (fun key hkey => (hsame key hkey).trans (get?_writeText_of_owns hkey)) default

theorem writeOptionalJson_ok (entity : Entity) (field : String) {value : Option Json.Value}
    (hjson : ∀ v, value = some v → Json.IsJson v.rendered) :
    ∃ written, writeOptionalJson entity field value = .ok written := by
  cases value with
  | none => exact ⟨entity, rfl⟩
  | some value =>
    obtain ⟨text, htext⟩ : ∃ text, Json.dumps .spaced false value = .ok text :=
      Json.dumps_of_isJson (hjson value rfl)
    refine ⟨writeText entity field text, writeJson_eq_ok.mpr ⟨text, ?_, rfl⟩⟩
    rw [dumps, htext]
    rfl

theorem ownsKey_other {field' key : String} (hf : field ∈ jsonFields) (hf' : field' ∈ jsonFields)
    (hne : field ≠ field') (h : ownsKey field key) : ownsKey field' key = false := by
  cases h' : ownsKey field' key with
  | false => rfl
  | true => exact absurd (eq_of_ownsKey hf hf' h h') hne

def plainNames : List String :=
  ["PartitionKey", "RowKey", "created_at", "updated_at", "status", "assistant_id", "lock_token",
    "lock_expires_at", "etag", "Timestamp"]

theorem ownsKey_plain (hf : field ∈ jsonFields) {name : String} (hname : name ∈ plainNames) :
    ownsKey field name = false := by
  have h : ∀ f ∈ jsonFields, ∀ name ∈ plainNames, ownsKey f name = false := by decide
  exact h field hf name hname

theorem ne_of_ownsKey (hf : field ∈ jsonFields) {name key : String} (hkey : ownsKey field key)
    (hname : name ∈ plainNames) : key ≠ name := by
  rintro rfl
  rw [ownsKey_plain hf hname] at hkey
  cases hkey

def InterruptsAreJson (interrupts : Dict Json.Key (List Interrupt)) : Prop :=
  ∀ p ∈ interrupts.items, (∃ s, p.1 = .str s) ∧ ∀ i ∈ p.2, Json.IsJson i.value

theorem rendered_toValue {i : Interrupt} (h : Json.IsJson i.value) :
    i.toValue.rendered = .dict [(.str "value", i.value), (.str "id", .str i.id)] := by
  simp only [Interrupt.toValue, Json.Value.rendered, Json.renderedMembers,
    Json.rendered_of_isJson h]

theorem rendered_interruptsToValue {interrupts : Dict Json.Key (List Interrupt)} :
    (interruptsToValue interrupts).rendered = .dict (interrupts.items.map fun p =>
      (p.1, .list (p.2.map fun i => i.toValue.rendered))) := by
  simp only [interruptsToValue, Json.Value.rendered, Json.renderedMembers_eq, List.map_map,
    Function.comp_def, Json.renderedElems_eq]

theorem validateInterrupt_rendered {i : Interrupt} (h : Json.IsJson i.value) :
    validateInterrupt i.toValue.rendered = .ok i := by
  rw [rendered_toValue h]
  rfl

theorem validateInterruptList_rendered {is : List Interrupt} (h : ∀ i ∈ is, Json.IsJson i.value) :
    validateInterruptList (.list (is.map fun i => i.toValue.rendered)) = .ok is := by
  have hall : is.mapM (fun i => validateInterrupt i.toValue.rendered) = .ok (is.map id) :=
    mapM_ok fun i hi => validateInterrupt_rendered (h i hi)
  rw [List.map_id] at hall
  rw [validateInterruptList, List.mapM_map]
  exact hall

theorem validateInterrupts_rendered {interrupts : Dict Json.Key (List Interrupt)}
    (h : InterruptsAreJson interrupts) :
    validateInterrupts (interruptsToValue interrupts).rendered = .ok interrupts := by
  have hall : interrupts.items.mapM (fun p => do
      return (p.1, ← validateInterruptList (.list (p.2.map fun i => i.toValue.rendered)))) =
      (.ok (interrupts.items.map id) : Except Exn _) := by
    refine mapM_ok fun p hp => ?_
    rw [validateInterruptList_rendered (h p hp).2]
    rfl
  rw [List.map_id] at hall
  simp only [rendered_interruptsToValue, validateInterrupts, List.mapM_map, Function.comp_def, hall]
  exact congrArg Except.ok (Dict.ofList_items interrupts)

theorem isJson_interrupts {interrupts : Dict Json.Key (List Interrupt)}
    (h : InterruptsAreJson interrupts) : Json.IsJson (interruptsToValue interrupts).rendered := by
  rw [rendered_interruptsToValue]
  refine .dict (fun p hp => ?_) ?_ fun p hp => ?_
  · obtain ⟨p', hp', rfl⟩ := List.mem_map.mp hp
    exact (h p' hp').1
  · rw [List.map_map]
    exact interrupts.nodup
  · obtain ⟨p', hp', rfl⟩ := List.mem_map.mp hp
    refine .list fun v hv => ?_
    obtain ⟨i, hi, rfl⟩ := List.mem_map.mp hv
    rw [rendered_toValue ((h p' hp').2 i hi)]
    refine .dict ?_ (by simp) ?_
    · simp
    · simp only [List.mem_cons, List.not_mem_nil, or_false, forall_eq_or_imp, forall_eq]
      exact ⟨(h p' hp').2 i hi, .str⟩

/-- The row is the record of the thread. -/
structure Records (entity : Entity) (thread : Thread) : Prop where
  metadata : ∀ default, readJson entity "metadata_json" default =
    .ok ((thread.metadata.map JsonObject.toValue).getD default)
  values : ∀ default, readJson entity "values_json" default =
    .ok ((thread.values.map JsonObject.toValue).getD default)
  interrupts : ∀ default, readJson entity "interrupts_json" default =
    .ok (interruptsToValue thread.interrupts).rendered
  json : InterruptsAreJson thread.interrupts
  createdAt : entity.get? "created_at" = some (.datetime thread.createdAt)
  updatedAt : entity.get? "updated_at" = some (.datetime thread.updatedAt)
  status : entity.get? "status" = some (.str thread.status.text)
  assistantId : entity.get? "assistant_id" = thread.assistantId.map .str
  lockToken : entity.get? "lock_token" = thread.lockToken.map .str
  lockExpiresAt : entity.get? "lock_expires_at" = thread.lockExpiresAt.map .datetime
  partition : entity.get? "PartitionKey" = some (.str partitionKey)

theorem validateJson_toValue (field : String) (o : Option JsonObject) :
    validateJson field ((o.map JsonObject.toValue).getD .null) = .ok o := by
  cases o with
  | none => rfl
  | some o => exact congrArg (fun o => Except.ok (some o)) (Dict.ofList_items o)

theorem readOptionalString_map {s : Option String} (h : entity.get? field = s.map .str) :
    readOptionalString entity field = .ok s := by
  rw [readOptionalString, h]
  cases s <;> rfl

theorem Records.entityToThread (h : Records entity thread) (hid : thread.threadId = threadId) :
    entityToThread threadId entity = .ok thread := by
  have hcreated : readDatetime entity "created_at" = .ok thread.createdAt := by
    rw [readDatetime, h.createdAt]
  have hupdated : readDatetime entity "updated_at" = .ok thread.updatedAt := by
    rw [readDatetime, h.updatedAt]
  have hexpires : readOptionalDatetime entity "lock_expires_at" = .ok thread.lockExpiresAt := by
    rw [readOptionalDatetime, h.lockExpiresAt]
    cases thread.lockExpiresAt <;> rfl
  have hstatus : readStatus entity = .ok thread.status := by
    simp only [readStatus, h.status, ThreadStatus.ofText_text]
  subst hid
  simp only [AzureTable.entityToThread, h.metadata, h.values, h.interrupts, hcreated, hupdated,
    hexpires, hstatus, validateJson_toValue, validateInterrupts_rendered h.json,
    readOptionalString_map h.assistantId, readOptionalString_map h.lockToken, ok_bind]
  rfl

def ObjectIsJson (o : Option JsonObject) : Prop := ∀ x, o = some x → Json.IsJson x.toValue

theorem rendered_of_objectIsJson {o : Option JsonObject} (h : ObjectIsJson o) (v : Json.Value)
    (hv : o.map JsonObject.toValue = some v) : Json.IsJson v.rendered := by
  obtain ⟨x, hx, rfl⟩ := Option.map_eq_some_iff.mp hv
  rw [Json.rendered_of_isJson (h x hx)]
  exact h x hx

theorem map_rendered {o : Option JsonObject} (h : ObjectIsJson o) :
    (o.map JsonObject.toValue).map Json.Value.rendered = o.map JsonObject.toValue := by
  cases o with
  | none => rfl
  | some x => exact congrArg some (Json.rendered_of_isJson (h x rfl))

theorem same_write {field' : String} {value : Option Json.Value} (hf : field ∈ jsonFields)
    (hf' : field' ∈ jsonFields) (hne : field ≠ field')
    (hwrite : writeOptionalJson entity field' value = .ok written) (key : String)
    (hkey : ownsKey field key) : written.get? key = entity.get? key :=
  get?_writeOptionalJson hwrite (ownsKey_other hf hf' hne hkey)

theorem plain_write {name : String} {value : Option Json.Value} (hf : field ∈ jsonFields)
    (hname : name ∈ plainNames) (hwrite : writeOptionalJson entity field value = .ok written) :
    written.get? name = entity.get? name :=
  get?_writeOptionalJson hwrite (ownsKey_plain hf hname)

theorem objectField_after (hf : field ∈ jsonFields) {o : Option JsonObject} (hjson : ObjectIsJson o)
    (hwrite : writeOptionalJson entity field (o.map JsonObject.toValue) = .ok written)
    (hsame : ∀ key, ownsKey field key → entity'.get? key = written.get? key)
    (hvalid : validateEntity entity' = .ok ()) (default : Json.Value) :
    readJson entity' field default =
      (o.map JsonObject.toValue).elim (readJson entity field default) .ok := by
  rw [readJson_after hf hwrite hsame hvalid (rendered_of_objectIsJson hjson), map_rendered hjson]

theorem rendered_of_interruptsAreJson {interrupts : Option (Dict Json.Key (List Interrupt))}
    (h : ∀ is, interrupts = some is → InterruptsAreJson is) (v : Json.Value)
    (hv : interrupts.map interruptsToValue = some v) : Json.IsJson v.rendered := by
  obtain ⟨is, his, rfl⟩ := Option.map_eq_some_iff.mp hv
  exact isJson_interrupts (h is his)

theorem interrupts_after {interrupts : Option (Dict Json.Key (List Interrupt))}
    (hjson : ∀ is, interrupts = some is → InterruptsAreJson is)
    (hwrite : writeOptionalJson entity "interrupts_json" (interrupts.map interruptsToValue) =
      .ok written)
    (hsame : ∀ key, ownsKey "interrupts_json" key → entity'.get? key = written.get? key)
    (hvalid : validateEntity entity' = .ok ()) (default : Json.Value) :
    readJson entity' "interrupts_json" default =
      (interrupts.map fun is => (interruptsToValue is).rendered).elim
        (readJson entity "interrupts_json" default) .ok := by
  have hmap : (interrupts.map interruptsToValue).map Json.Value.rendered =
      interrupts.map fun is => (interruptsToValue is).rendered := by
    rw [Option.map_map]
    rfl
  rw [readJson_after (by decide) hwrite hsame hvalid (rendered_of_interruptsAreJson hjson), hmap]

theorem records_threadToEntity {createdAt updatedAt : Int} {metadata values : Option JsonObject}
    {status : ThreadStatus} {assistantId : Option String}
    {interrupts : Dict Json.Key (List Interrupt)}
    (h : threadToEntity threadId createdAt updatedAt metadata status values assistantId interrupts =
      .ok entity) (hvalid : validateEntity entity = .ok ()) (hmetadata : ObjectIsJson metadata)
    (hvalues : ObjectIsJson values) (hinterrupts : InterruptsAreJson interrupts) :
    Records entity ⟨threadId, createdAt, updatedAt, metadata, status, values, assistantId,
      interrupts, none, none⟩ := by
  obtain ⟨e₁, h₁, h⟩ := bind_eq_ok.mp h
  obtain ⟨e₂, h₂, h⟩ := bind_eq_ok.mp h
  obtain ⟨e₃, h₃, h⟩ := bind_eq_ok.mp h
  have h₁ : writeOptionalJson _ "interrupts_json" ((some interrupts).map interruptsToValue) =
    .ok e₁ := h₁
  have hlast (name : String) (hname : name ≠ "assistant_id") : entity.get? name = e₃.get? name := by
    cases h
    cases assistantId with
    | none => rfl
    | some assistantId => exact Dict.get?_set_ne _ _ hname
  have hplain (name : String) (hname : name ∈ plainNames) : e₃.get? name =
      (Dict.ofList [("PartitionKey", .str partitionKey), ("RowKey", .str threadId),
        ("created_at", .datetime createdAt), ("updated_at", .datetime updatedAt),
        ("status", .str status.text)] : Entity).get? name := by
    rw [plain_write (by decide) hname h₃, plain_write (by decide) hname h₂,
      plain_write (by decide) hname h₁]
  have habsent (f : String) (hf : f ∈ jsonFields) (default : Json.Value) :
      readJson (Dict.ofList [("PartitionKey", .str partitionKey), ("RowKey", .str threadId),
        ("created_at", .datetime createdAt), ("updated_at", .datetime updatedAt),
        ("status", .str status.text)]) f default = .ok default := by
    refine readJson_absent (fun key hkey => Dict.get?_ofList_of_not_mem ?_) default
    simp only [List.map_cons, List.map_nil, List.mem_cons, List.not_mem_nil, or_false, not_or]
    exact ⟨ne_of_ownsKey hf hkey (by decide), ne_of_ownsKey hf hkey (by decide),
      ne_of_ownsKey hf hkey (by decide), ne_of_ownsKey hf hkey (by decide),
      ne_of_ownsKey hf hkey (by decide)⟩
  have hfinal (f : String) (hf : f ∈ jsonFields) (key : String) (hkey : ownsKey f key) :
      entity.get? key = e₃.get? key := hlast key (ne_of_ownsKey hf hkey (by decide))
  constructor
  · intro default
    rw [objectField_after (by decide) hmetadata h₂ (fun key hkey =>
        (hfinal _ (by decide) key hkey).trans
          (same_write (by decide) (by decide) (by decide) h₃ key hkey)) hvalid,
      readJson_congr (same_write (by decide) (by decide) (by decide) h₁), habsent _ (by decide)]
    cases metadata <;> rfl
  · intro default
    rw [objectField_after (by decide) hvalues h₃ (hfinal _ (by decide)) hvalid,
      readJson_congr (same_write (by decide) (by decide) (by decide) h₂),
      readJson_congr (same_write (by decide) (by decide) (by decide) h₁), habsent _ (by decide)]
    cases values <;> rfl
  · intro default
    have hsome : ∀ is, some interrupts = some is → InterruptsAreJson is := by
      rintro is ⟨⟩
      exact hinterrupts
    rw [interrupts_after hsome h₁ (fun key hkey => ((hfinal _ (by decide) key hkey).trans
      (same_write (by decide) (by decide) (by decide) h₃ key hkey)).trans
        (same_write (by decide) (by decide) (by decide) h₂ key hkey)) hvalid]
    rfl
  · exact hinterrupts
  · rw [hlast _ (by decide), hplain _ (by decide)]
    rfl
  · rw [hlast _ (by decide), hplain _ (by decide)]
    rfl
  · rw [hlast _ (by decide), hplain _ (by decide)]
    rfl
  · cases h
    cases assistantId with
    | none => exact (hplain _ (by decide)).trans rfl
    | some assistantId => exact Dict.get?_set_self _ _ _
  · rw [hlast _ (by decide), hplain _ (by decide)]
    rfl
  · rw [hlast _ (by decide), hplain _ (by decide)]
    rfl
  · rw [hlast _ (by decide), hplain _ (by decide)]
    rfl

theorem Records.updated {metadata values : Option JsonObject} {status : Option ThreadStatus}
    {interrupts : Option (Dict Json.Key (List Interrupt))} {assistantId : Option String}
    (hrecord : Records entity thread)
    (h : AzureTable.updated entity now metadata status values interrupts assistantId = .ok entity')
    (hvalid : validateEntity entity' = .ok ()) (hmetadata : ObjectIsJson metadata)
    (hvalues : ObjectIsJson values)
    (hinterrupts : ∀ is, interrupts = some is → InterruptsAreJson is) :
    Records entity' { thread with
      updatedAt := now
      metadata := metadata <|> thread.metadata
      status := status.getD thread.status
      values := values <|> thread.values
      interrupts := interrupts.getD thread.interrupts
      assistantId := assistantId <|> thread.assistantId } := by
  obtain ⟨e₁, h₁, h⟩ := bind_eq_ok.mp h
  obtain ⟨e₂, h₂, h⟩ := bind_eq_ok.mp h
  obtain ⟨e₃, h₃, h⟩ := bind_eq_ok.mp h
  have hlast (name : String) (hstatus : name ≠ "status") (hassistant : name ≠ "assistant_id") :
      entity'.get? name = e₃.get? name := by
    cases h
    cases status <;> cases assistantId <;> simp [hstatus, hassistant]
  have hfinal (f : String) (hf : f ∈ jsonFields) (key : String) (hkey : ownsKey f key) :
      entity'.get? key = e₃.get? key :=
    hlast key (ne_of_ownsKey hf hkey (by decide)) (ne_of_ownsKey hf hkey (by decide))
  have hplain (name : String) (hname : name ∈ plainNames) (hupdated : name ≠ "updated_at")
      (hetag : name ≠ "etag") (htimestamp : name ≠ "Timestamp") :
      e₃.get? name = entity.get? name := by
    rw [plain_write (by decide) hname h₃, plain_write (by decide) hname h₂,
      plain_write (by decide) hname h₁, Dict.get?_set_ne _ _ hupdated, Dict.get?_filterKeys]
    simp [hetag, htimestamp]
  have hbefore (f : String) (hf : f ∈ jsonFields) (default : Json.Value) :
      readJson ((entity.filterKeys fun key => !(key == "etag" || key == "Timestamp")).set
        "updated_at" (.datetime now)) f default = readJson entity f default := by
    refine readJson_congr (fun key hkey => ?_) default
    have hetag : key ≠ "etag" := ne_of_ownsKey hf hkey (by decide)
    have htimestamp : key ≠ "Timestamp" := ne_of_ownsKey hf hkey (by decide)
    rw [Dict.get?_set_ne _ _ (ne_of_ownsKey hf hkey (by decide)), Dict.get?_filterKeys]
    simp [hetag, htimestamp]
  constructor
  · intro default
    rw [objectField_after (by decide) hmetadata h₁ (fun key hkey =>
        ((hfinal _ (by decide) key hkey).trans
          (same_write (by decide) (by decide) (by decide) h₃ key hkey)).trans
            (same_write (by decide) (by decide) (by decide) h₂ key hkey)) hvalid,
      hbefore _ (by decide), hrecord.metadata]
    cases metadata <;> rfl
  · intro default
    rw [objectField_after (by decide) hvalues h₂ (fun key hkey =>
        (hfinal _ (by decide) key hkey).trans
          (same_write (by decide) (by decide) (by decide) h₃ key hkey)) hvalid,
      readJson_congr (same_write (by decide) (by decide) (by decide) h₁), hbefore _ (by decide),
      hrecord.values]
    cases values <;> rfl
  · intro default
    rw [interrupts_after hinterrupts h₃ (hfinal _ (by decide)) hvalid,
      readJson_congr (same_write (by decide) (by decide) (by decide) h₂),
      readJson_congr (same_write (by decide) (by decide) (by decide) h₁), hbefore _ (by decide),
      hrecord.interrupts]
    cases interrupts <;> rfl
  · cases interrupts with
    | none => exact hrecord.json
    | some is => exact hinterrupts is rfl
  · rw [hlast _ (by decide) (by decide), hplain _ (by decide) (by decide) (by decide) (by decide)]
    exact hrecord.createdAt
  · rw [hlast _ (by decide) (by decide), plain_write (by decide) (by decide) h₃,
      plain_write (by decide) (by decide) h₂, plain_write (by decide) (by decide) h₁,
      Dict.get?_set_self]
  · have hkept : e₃.get? "status" = entity.get? "status" :=
      hplain _ (by decide) (by decide) (by decide) (by decide)
    cases h
    cases status <;> cases assistantId <;> simp [hkept, hrecord.status]
  · have hkept : e₃.get? "assistant_id" = entity.get? "assistant_id" :=
      hplain _ (by decide) (by decide) (by decide) (by decide)
    cases h
    cases status <;> cases assistantId <;> simp [hkept, hrecord.assistantId]
  · rw [hlast _ (by decide) (by decide), hplain _ (by decide) (by decide) (by decide) (by decide)]
    exact hrecord.lockToken
  · rw [hlast _ (by decide) (by decide), hplain _ (by decide) (by decide) (by decide) (by decide)]
    exact hrecord.lockExpiresAt
  · rw [hlast _ (by decide) (by decide), hplain _ (by decide) (by decide) (by decide) (by decide)]
    exact hrecord.partition

theorem Records.released {status : ThreadStatus} {values : Option JsonObject}
    (hrecord : Records entity thread)
    (h : AzureTable.released entity now status (values.map JsonObject.toValue) = .ok entity')
    (hvalid : validateEntity entity' = .ok ()) (hvalues : ObjectIsJson values) :
    Records entity' { thread with
      status := status
      updatedAt := now
      lockToken := none
      lockExpiresAt := none
      values := values <|> thread.values } := by
  have hkept (name : String) (hname : name ∉ ["lock_token", "lock_expires_at", "etag",
      "Timestamp", "status", "updated_at"]) (hvalues : ownsKey "values_json" name = false) :
      entity'.get? name = entity.get? name := get?_released h hname fun _ => hvalues
  have hother (f : String) (hf : f ∈ jsonFields) (hne : f ≠ "values_json") (default : Json.Value) :
      readJson entity' f default = readJson entity f default := by
    refine readJson_congr (fun key hkey => hkept key ?_ ?_) default
    rotate_left
    · exact ownsKey_other hf (by decide) hne hkey
    simp only [List.mem_cons, List.not_mem_nil, or_false, not_or]
    exact ⟨ne_of_ownsKey hf hkey (by decide), ne_of_ownsKey hf hkey (by decide),
      ne_of_ownsKey hf hkey (by decide), ne_of_ownsKey hf hkey (by decide),
      ne_of_ownsKey hf hkey (by decide), ne_of_ownsKey hf hkey (by decide)⟩
  constructor
  · intro default
    rw [hother _ (by decide) (by decide), hrecord.metadata]
  · intro default
    have hbefore : readJson (((entity.filterKeys fun key => !(key == "lock_token" ||
        key == "lock_expires_at" || key == "etag" || key == "Timestamp")).set "status"
        (.str status.text)).set "updated_at" (.datetime now)) "values_json" default =
        readJson entity "values_json" default := by
      refine readJson_congr (fun key hkey => ?_) default
      have hne (name : String) (hname : name ∈ plainNames) : key ≠ name :=
        ne_of_ownsKey (by decide) hkey hname
      rw [Dict.get?_set_ne _ _ (hne _ (by decide)), Dict.get?_set_ne _ _ (hne _ (by decide)),
        Dict.get?_filterKeys]
      simp [hne "lock_token" (by decide), hne "lock_expires_at" (by decide), hne "etag" (by decide),
        hne "Timestamp" (by decide)]
    rw [objectField_after (by decide) hvalues h (fun _ _ => rfl) hvalid, hbefore, hrecord.values]
    cases values <;> rfl
  · intro default
    rw [hother _ (by decide) (by decide), hrecord.interrupts]
  · exact hrecord.json
  · rw [hkept _ (by decide) (by decide)]
    exact hrecord.createdAt
  · rw [get?_writeOptionalJson h (by decide), Dict.get?_set_self]
  · rw [get?_writeOptionalJson h (by decide), Dict.get?_set_ne _ _ (by decide), Dict.get?_set_self]
  · rw [hkept _ (by decide) (by decide)]
    exact hrecord.assistantId
  · exact get?_released_token h
  · rw [get?_writeOptionalJson h (by decide), Dict.get?_set_ne _ _ (by decide),
      Dict.get?_set_ne _ _ (by decide), Dict.get?_filterKeys]
    rfl
  · rw [hkept _ (by decide) (by decide)]
    exact hrecord.partition

theorem get?_merge {patch : Entity} {name : String} (h : patch.get? name = none) :
    (entity.update patch).get? name = entity.get? name := by
  rw [Dict.get?_update, h, Option.none_or]

theorem readJson_merge {patch : Entity} (hf : field ∈ jsonFields)
    (h : ∀ key, key ∉ plainNames → patch.get? key = none) (default : Json.Value) :
    readJson (entity.update patch) field default = readJson entity field default := by
  refine readJson_congr (fun key hkey => get?_merge (h key fun hname => ?_)) default
  exact ne_of_ownsKey hf hkey hname rfl

theorem get?_lockPatch {bound assistantId : Option String} {name : String}
    (h : name ∉ ["PartitionKey", "RowKey", "status", "updated_at", "lock_token",
      "lock_expires_at", "assistant_id"]) :
    (lockPatch threadId now token bound assistantId).get? name = none := by
  have hbase : name ∉ ["PartitionKey", "RowKey", "status", "updated_at", "lock_token",
      "lock_expires_at"] := fun hmem => h (List.mem_append_left ["assistant_id"] hmem)
  have hassistant : name ≠ "assistant_id" := by
    rintro rfl
    exact h (by decide)
  cases bound with
  | some bound => exact Dict.get?_ofList_of_not_mem hbase
  | none =>
    cases assistantId with
    | none => exact Dict.get?_ofList_of_not_mem hbase
    | some assistantId =>
      exact (Dict.get?_set_ne _ _ hassistant).trans (Dict.get?_ofList_of_not_mem hbase)

theorem get?_lockPatch_assistantId (bound assistantId : Option String) :
    (lockPatch threadId now token bound assistantId).get? "assistant_id" =
      if bound.isSome then none else assistantId.map .str := by
  cases bound <;> cases assistantId <;> rfl

theorem Records.locked {assistantId : Option String} (hrecord : Records entity thread) :
    Records (entity.update (lockPatch threadId now token thread.assistantId assistantId))
      (lockedThread thread now token assistantId) := by
  have hjson (f : String) (hf : f ∈ jsonFields) (default : Json.Value) :
      readJson (entity.update (lockPatch threadId now token thread.assistantId assistantId)) f
        default = readJson entity f default := by
    refine readJson_merge hf (fun key hkey => get?_lockPatch fun hmem => hkey ?_) default
    exact (by decide : ["PartitionKey", "RowKey", "status", "updated_at", "lock_token",
      "lock_expires_at", "assistant_id"] ⊆ plainNames) hmem
  constructor
  · exact fun default => (hjson _ (by decide) default).trans (hrecord.metadata default)
  · exact fun default => (hjson _ (by decide) default).trans (hrecord.values default)
  · exact fun default => (hjson _ (by decide) default).trans (hrecord.interrupts default)
  · exact hrecord.json
  · rw [get?_merge (get?_lockPatch (by decide))]
    exact hrecord.createdAt
  · rw [Dict.get?_update]
    cases thread.assistantId <;> cases assistantId <;> rfl
  · rw [Dict.get?_update, get?_lockPatch_status]
    rfl
  · rw [Dict.get?_update, get?_lockPatch_assistantId, hrecord.assistantId]
    cases hbound : thread.assistantId <;> cases assistantId <;> simp [lockedThread, hbound]
  · rw [Dict.get?_update, get?_lockPatch_token]
    rfl
  · rw [Dict.get?_update]
    cases thread.assistantId <;> cases assistantId <;> rfl
  · rw [Dict.get?_update]
    cases thread.assistantId <;> cases assistantId <;> rfl

theorem Records.renewed (hrecord : Records entity thread) :
    Records (entity.update (renewPatch threadId now))
      { thread with updatedAt := now, lockExpiresAt := some (now + lockSeconds) } := by
  have hjson (f : String) (hf : f ∈ jsonFields) (default : Json.Value) :
      readJson (entity.update (renewPatch threadId now)) f default = readJson entity f default := by
    refine readJson_merge hf (fun key hkey => get?_renewPatch now fun hmem => hkey ?_) default
    exact (by decide : ["PartitionKey", "RowKey", "updated_at", "lock_expires_at"] ⊆
      plainNames) hmem
  constructor
  · exact fun default => (hjson _ (by decide) default).trans (hrecord.metadata default)
  · exact fun default => (hjson _ (by decide) default).trans (hrecord.values default)
  · exact fun default => (hjson _ (by decide) default).trans (hrecord.interrupts default)
  · exact hrecord.json
  · rw [get?_merge (get?_renewPatch now (by decide))]
    exact hrecord.createdAt
  · rw [Dict.get?_update]
    rfl
  · rw [get?_merge (get?_renewPatch now (by decide))]
    exact hrecord.status
  · rw [get?_merge (get?_renewPatch now (by decide))]
    exact hrecord.assistantId
  · rw [get?_merge (get?_renewPatch now (by decide))]
    exact hrecord.lockToken
  · rw [Dict.get?_update]
    rfl
  · rw [Dict.get?_update]
    rfl

end LangGraphFunctions.Stores.AzureTable

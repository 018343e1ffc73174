import LangGraphFunctions.Builtins
import LangGraphFunctions.Lib.Paging
import LangGraphFunctions.Platform.Config
import LangGraphFunctions.Validation

/-! The state history of a thread, and its reading page by page. -/

namespace LangGraphFunctions.Platform.History

open Lib

structure Snapshot where
  values : Json.Value
  next : List String
  config : Json.Value
  metadata : Option JsonObject
  createdAt : Option String
  parentConfig : Json.Value

structure Checkpoint where
  threadId : String
  checkpointNs : String
  checkpointId : Option String

structure ThreadState where
  values : Json.Value
  next : List String
  checkpoint : Checkpoint
  metadata : Option JsonObject
  createdAt : Option String
  parentCheckpoint : Option Checkpoint

structure Refusal where
  statusCode : Nat
  detail : Json.Value

def checkpointIdKey : Json.Key := .str "checkpoint_id"
def checkpointNsKey : Json.Key := .str "checkpoint_ns"

def isStrKey : Json.Key → Bool
  | .str _ => true
  | _ => false

def isStrDict : Json.Value → Bool
  | .dict items => items.all fun p => isStrKey p.1
  | _ => false

/-- `dict[str, Any] | list[dict[str, Any]]`. -/
def isStateValues : Json.Value → Bool
  | .list xs => xs.all isStrDict
  | v => isStrDict v

def validate (valid : Bool) : Except Exn Unit :=
  if valid then .ok () else .error (.valueError "validation error")

def validateStr : Json.Value → Except Exn String
  | .str s => .ok s
  | _ => .error (.valueError "validation error")

def validateOptionalStr : Json.Value → Except Exn (Option String)
  | .null => .ok none
  | v => (validateStr v).map some

/-- `(config or {}).get("configurable", {}) if isinstance(config, dict) else {}`. -/
def configurableIn : Json.Value → Json.Value
  | .dict items => ((Dict.ofList items).get? configurableKey).getD (.dict [])
  | _ => .dict []

/-- `v.get(key, default)`. -/
def getItem (v : Json.Value) (key : Json.Key) (default : Json.Value) : Except Exn Json.Value :=
  match v with
  | .dict items => .ok (((Dict.ofList items).get? key).getD default)
  | _ => .error (.attributeError "get")

def Snapshot.checkpointId (snapshot : Snapshot) : Except Exn Json.Value :=
  getItem (configurableIn snapshot.config) checkpointIdKey .null

def parentCheckpoint (snapshot : Snapshot) (threadId : String) : Except Exn (Option Checkpoint) := do
  let configurable := configurableIn snapshot.parentConfig
  match ← getItem configurable checkpointIdKey .null with
  | .null => return none
  | id =>
    let ns ← validateStr (← getItem configurable checkpointNsKey (.str ""))
    return some ⟨threadId, ns, some (← validateStr id)⟩

def snapshotToThreadState (snapshot : Snapshot) (threadId : String) : Except Exn ThreadState := do
  let values := match snapshot.values with
    | .dict items => .dict items
    | .list xs => .list xs
    | _ => .dict []
  let checkpointId ← snapshot.checkpointId
  let checkpointNs ← getItem (configurableIn snapshot.config) checkpointNsKey (.str "")
  let parent ← parentCheckpoint snapshot threadId
  validate (isStateValues values)
  validate ((snapshot.metadata.getD ∅).items.all fun p => isStrKey p.1)
  return {
    values := values
    next := snapshot.next
    checkpoint := ⟨threadId, ← validateStr checkpointNs, ← validateOptionalStr checkpointId⟩
    metadata := snapshot.metadata
    createdAt := snapshot.createdAt
    parentCheckpoint := parent }

inductive Before
  | id (checkpointId : String)
  | checkpoint (o : JsonObject)

structure ThreadHistoryRequest where
  limit : Nat
  positive : 1 ≤ limit
  before : Option Before
  metadata : Option JsonObject
  checkpoint : Option JsonObject

abbrev Graph := JsonObject → Except Exn (List Snapshot)

structure HistoryDeps where
  denied : String → Option Refusal
  maxPlatformResultLimit : Nat
  maxInputDepth : Nat
  maxInputNodes : Nat
  resolveThreadGraph : String → Except Refusal Graph

def refuse {α : Type} (statusCode : Nat) (detail : String) : Except Refusal α :=
  .error ⟨statusCode, .str detail⟩

def resultLimitError (limit maximum : Nat) : Option Refusal :=
  if limit ≤ maximum then none
  else some ⟨422, .list [.dict [(.str "loc", .list [.str "limit"]),
    (.str "type", .str "less_than_equal")]]⟩

section

-- `==` on JSON values
variable (eq : Json.Value → Json.Value → Bool)

def otherThread (o : JsonObject) (threadId : String) : Option Json.Value :=
  match (o.get? threadIdKey).getD .null with
  | .null => none
  | v => if eq v (.str threadId) then none else some v

def buildCheckpointConfig (threadId : String) (checkpoint : Option JsonObject) :
    Except Refusal JsonObject :=
  let configurable : JsonObject := Dict.ofList [(threadIdKey, .str threadId)]
  match checkpoint with
  | none => .ok (Dict.ofList [(configurableKey, configurable.toValue)])
  | some checkpoint =>
    match otherThread eq checkpoint threadId with
    | some other => refuse 422
        s!"Checkpoint thread_id {Builtins.repr other} does not match path thread_id {reprStr threadId}"
    | none =>
      let carried := [checkpointIdKey, checkpointNsKey].foldl (fun configurable key =>
        match (checkpoint.get? key).getD .null with
        | .null => configurable
        | v => configurable.set key v) configurable
      .ok (Dict.ofList [(configurableKey, carried.toValue)])

def beforeId (threadId : String) : Option Before → Except Refusal Json.Value
  | none => .ok .null
  | some (.id checkpointId) => .ok (.str checkpointId)
  | some (.checkpoint o) =>
    match otherThread eq o threadId with
    | some other => refuse 422
        s!"before checkpoint thread_id {Builtins.repr other} does not match path thread_id {reprStr threadId}"
    | none => .ok ((o.get? checkpointIdKey).getD .null)

def matchesMetadata (metadata : Option JsonObject) (snapshot : Snapshot) : Bool :=
  (metadata.getD ∅).items.all fun p =>
    eq (((snapshot.metadata.getD ∅).get? p.1).getD .null) p.2

/-- The loop over the states: `found` once the cursor is behind. -/
def collectHistory (before : Json.Value) (metadata : Option JsonObject) (limit : Nat)
    (threadId : String) : List Snapshot → Bool → List ThreadState → Except Exn (List ThreadState)
  | [], _, results => .ok results
  | snapshot :: rest, found, results => do
    let checkpointId ← snapshot.checkpointId
    if !found then
      collectHistory before metadata limit threadId rest (eq checkpointId before) results
    else if !matchesMetadata eq metadata snapshot then
      collectHistory before metadata limit threadId rest true results
    else
      let state ← snapshotToThreadState snapshot threadId
      if limit ≤ (results ++ [state]).length then return results ++ [state]
      else collectHistory before metadata limit threadId rest true (results ++ [state])

/-- `except (KeyError, ValueError)` answers with no states, any other exception is a 500. -/
def historyResponse : Except Exn (List ThreadState) → Except Refusal (List ThreadState)
  | .ok states => .ok states
  | .error exc =>
    if exc.isKeyError || exc.isValueError then .ok []
    else refuse 500 "Internal error retrieving thread history"

def check : Option Refusal → Except Refusal Unit
  | none => .ok ()
  | some response => .error response

def isNull : Json.Value → Bool
  | .null => true
  | _ => false

def metadataError (deps : HistoryDeps) (metadata : Option JsonObject) : Option Refusal :=
  (metadata.bind fun metadata => Validation.validateInputStructure metadata.toValue
    deps.maxInputDepth deps.maxInputNodes).map fun err => ⟨400, .str err⟩

def threadsHistory (deps : HistoryDeps) (threadId : String) (req : ThreadHistoryRequest) :
    Except Refusal (List ThreadState) := do
  check (deps.denied threadId)
  check ((Validation.validateThreadId threadId).map fun err => ⟨400, .str err⟩)
  check (resultLimitError req.limit deps.maxPlatformResultLimit)
  check (metadataError deps req.metadata)
  let graph ← deps.resolveThreadGraph threadId
  let config ← buildCheckpointConfig eq threadId req.checkpoint
  match graph config with
  | .error exc => historyResponse (.error exc)
  | .ok history =>
    let before ← beforeId eq threadId req.before
    historyResponse (collectHistory eq before req.metadata req.limit threadId history
      (isNull before) [])

structure Accepted (deps : HistoryDeps) (threadId : String) (limit : Nat)
    (metadata checkpoint : Option JsonObject) (history : List Snapshot) : Prop where
  allowed : deps.denied threadId = none
  wellFormed : Validation.validateThreadId threadId = none
  limit : limit ≤ deps.maxPlatformResultLimit
  metadata : metadataError deps metadata = none
  history : ∃ graph config, deps.resolveThreadGraph threadId = .ok graph ∧
    buildCheckpointConfig eq threadId checkpoint = .ok config ∧ graph config = .ok history

inductive IsCursor (threadId checkpointId : String) : Before → Prop
  | id : IsCursor threadId checkpointId (.id checkpointId)
  | checkpoint (o : JsonObject) : o.get? threadIdKey = some (.str threadId) →
    o.get? checkpointIdKey = some (.str checkpointId) →
    IsCursor threadId checkpointId (.checkpoint o)

def readHistory (fetch : Option Before → Except Refusal (List ThreadState)) (limit : Nat)
    (cursor : Nat → String → Before) : Nat → Option Before → Option (List (List ThreadState))
  | 0, _ => none
  | fuel + 1, before =>
    match fetch before with
    | .error _ => none
    | .ok page =>
      if page.length < limit then some [page]
      else
        (page.getLast?.bind fun state => state.checkpoint.checkpointId).bind fun checkpointId =>
          (readHistory fetch limit cursor fuel (some (cursor fuel checkpointId))).map (page :: ·)

def Snapshot.ident (snapshot : Snapshot) : String :=
  match snapshot.checkpointId with
  | .ok (.str id) => id
  | _ => ""

structure HasIds (history : List Snapshot) : Prop where
  present : ∀ s ∈ history, s.checkpointId = .ok (.str s.ident)
  distinct : (history.map Snapshot.ident).Nodup

def shown (threadId : String) (snapshot : Snapshot) : ThreadState :=
  (snapshotToThreadState snapshot threadId).toOption.getD ⟨.null, [], ⟨"", "", none⟩, none, none, none⟩

def Fits (threadId : String) (metadata : Option JsonObject) (history : List Snapshot) : Prop :=
  ∀ s ∈ history, matchesMetadata eq metadata s → ∃ st, snapshotToThreadState s threadId = .ok st

variable {eq} {threadId : String} {metadata checkpoint : Option JsonObject} {limit : Nat}
  {history : List Snapshot}

theorem shown_of_ok {s : Snapshot} {st : ThreadState} (h : snapshotToThreadState s threadId = .ok st) :
    shown threadId s = st := by
  rw [shown, h]
  rfl

theorem collect_found (before : Json.Value)
    (hids : ∀ s ∈ history, s.checkpointId = .ok (.str s.ident))
    (hfits : Fits eq threadId metadata history) (results : List ThreadState)
    (hresults : results.length < limit) :
    collectHistory eq before metadata limit threadId history true results =
      .ok (results ++ ((history.filter (matchesMetadata eq metadata)).take
        (limit - results.length)).map (shown threadId)) := by
  induction history generalizing results with
  | nil => simp [collectHistory]
  | cons s rest ih =>
    obtain ⟨hs, hrest⟩ := List.forall_mem_cons.mp hids
    obtain ⟨hfit, hfits⟩ := List.forall_mem_cons.mp hfits
    rw [collectHistory, hs]
    cases hmatch : matchesMetadata eq metadata s with
    | false =>
      rw [List.filter_cons_of_neg (by simp [hmatch])]
      apply ih hrest hfits results hresults
    | true =>
      obtain ⟨st, hst⟩ := hfit hmatch
      have hlen : (results ++ [st]).length = results.length + 1 := by simp
      have htake : limit - results.length = (limit - (results.length + 1)) + 1 := by omega
      rw [List.filter_cons_of_pos hmatch, htake, List.take_succ_cons, List.map_cons,
        shown_of_ok hst, hst]
      by_cases hfull : limit ≤ results.length + 1
      · have hzero : limit - (results.length + 1) = 0 := by omega
        rw [hzero, List.take_zero, List.map_nil]
        simp [hlen, hfull, bind, Except.bind, pure, Except.pure]
      · have hnext := ih hrest hfits (results ++ [st]) (by omega)
        rw [hlen, List.append_assoc, List.singleton_append] at hnext
        rw [← hnext]
        simp [hlen, hfull, bind, Except.bind]

theorem collect_behind (heq : ∀ a b : String, eq (.str a) (.str b) = decide (a = b)) {i : String}
    (hids : ∀ s ∈ history, s.checkpointId = .ok (.str s.ident)) (results : List ThreadState) :
    collectHistory eq (.str i) metadata limit threadId history false results =
      collectHistory eq (.str i) metadata limit threadId
        (Paging.after Snapshot.ident i history) true results := by
  induction history with
  | nil => rw [collectHistory, Paging.after, collectHistory]
  | cons s rest ih =>
    obtain ⟨hs, hrest⟩ := List.forall_mem_cons.mp hids
    rw [collectHistory, hs, Paging.after]
    by_cases h : s.ident = i
    · simp [heq, h, bind, Except.bind]
    · simpa [heq, h, bind, Except.bind] using ih hrest

def Reads (threadId : String) : Option String → Option Before → Prop
  | none, before => before = none
  | some i, before => ∃ b, before = some b ∧ IsCursor threadId i b

theorem beforeId_of_reads (heq : ∀ a b : String, eq (.str a) (.str b) = decide (a = b))
    {cursor : Option String} {before : Option Before} (h : Reads threadId cursor before) :
    beforeId eq threadId before = .ok (cursor.elim .null .str) := by
  cases cursor with
  | none =>
    cases h
    rfl
  | some i =>
    obtain ⟨b, rfl, hb⟩ := h
    cases hb with
    | id => rfl
    | checkpoint o hthread hid =>
      rw [beforeId, otherThread, hthread]
      simp [heq, hid]

theorem threadsHistory_eq (heq : ∀ a b : String, eq (.str a) (.str b) = decide (a = b))
    {deps : HistoryDeps} (haccepted : Accepted eq deps threadId limit metadata checkpoint history)
    (hids : HasIds history) (hfits : Fits eq threadId metadata history) (hlimit : 1 ≤ limit)
    {cursor : Option String} {before : Option Before} (hreads : Reads threadId cursor before) :
    threadsHistory eq deps threadId ⟨limit, hlimit, before, metadata, checkpoint⟩ =
      .ok ((((Paging.remaining Snapshot.ident history cursor).filter
        (matchesMetadata eq metadata)).take limit).map (shown threadId)) := by
  obtain ⟨graph, config, hgraph, hconfig, hhistory⟩ := haccepted.history
  have hcheck : resultLimitError limit deps.maxPlatformResultLimit = none := by
    rw [resultLimitError, if_pos haccepted.limit]
  have hbefore := beforeId_of_reads heq hreads
  simp only [threadsHistory, haccepted.allowed, haccepted.wellFormed, hcheck, haccepted.metadata,
    hgraph, hconfig, hbefore, check, Option.map_none, bind, Except.bind, hhistory]
  cases cursor with
  | none =>
    have hpage := collect_found .null hids.present hfits [] hlimit
    rw [List.length_nil, Nat.sub_zero, List.nil_append] at hpage
    simp only [Option.elim_none, isNull, hpage, historyResponse, Paging.remaining]
  | some i =>
    have hmem : ∀ s ∈ Paging.after Snapshot.ident i history, s ∈ history :=
      fun s hs => Paging.mem_of_mem_after hs
    have hpage := collect_found (.str i) (fun s hs => hids.present s (hmem s hs))
      (fun s hs => hfits s (hmem s hs)) [] hlimit
    rw [List.length_nil, Nat.sub_zero, List.nil_append] at hpage
    simp only [Option.elim_some, isNull, collect_behind heq hids.present, hpage, historyResponse,
      Paging.remaining]

theorem checkpointId_of_ok {s : Snapshot} {st : ThreadState}
    (h : snapshotToThreadState s threadId = .ok st) (hid : s.checkpointId = .ok (.str s.ident)) :
    st.checkpoint.checkpointId = some s.ident := by
  simp only [snapshotToThreadState, hid, bind_eq_ok] at h
  obtain ⟨-, ⟨⟩, ns, -, parent, -, -, -, -, -, ns', -, checkpointId, hvalid, ⟨⟩⟩ := h
  cases hvalid
  rfl

theorem readHistory_eq {fetch : Option Before → Except Refusal (List ThreadState)}
    {p : Snapshot → Bool} {cursor : Nat → String → Before} (hlimit : 1 ≤ limit)
    (hids : HasIds history)
    (hshown : ∀ s ∈ history, p s → (shown threadId s).checkpoint.checkpointId = some s.ident)
    (hcursor : ∀ n i, IsCursor threadId i (cursor n i))
    (hfetch : ∀ cursor before, Reads threadId cursor before → fetch before =
      .ok ((((Paging.remaining Snapshot.ident history cursor).filter p).take limit).map
        (shown threadId)))
    (fuel : Nat) {c : Option String} {before : Option Before} (hreads : Reads threadId c before)
    {pre : List Snapshot} (hpre : history = pre ++ Paging.remaining Snapshot.ident history c)
    (hfuel : ((Paging.remaining Snapshot.ident history c).filter p).length < fuel) :
    ∃ pages, readHistory fetch limit cursor fuel before = some pages ∧
      pages.flatten = ((Paging.remaining Snapshot.ident history c).filter p).map (shown threadId) ∧
      ∀ page ∈ pages, page.length ≤ limit := by
  induction fuel generalizing c before pre with
  | zero => omega
  | succ fuel ih =>
    rw [readHistory, hfetch c before hreads]
    simp only [List.length_map, List.length_take]
    split
    · next hshort =>
      have hall : limit ≥ ((Paging.remaining Snapshot.ident history c).filter p).length := by omega
      rw [List.take_of_length_le hall]
      exact ⟨_, rfl, by simp, by simpa using hall⟩
    · next hfull =>
      have hlong : limit ≤ ((Paging.remaining Snapshot.ident history c).filter p).length := by
        omega
      obtain ⟨a, ha⟩ := Paging.exists_getLast?_take hlimit hlong
      obtain ⟨⟨front, hfront⟩, hdrop⟩ := Paging.remaining_last hids.distinct hpre hlong ha
      have hmem := List.mem_filter.mp (List.mem_of_mem_take (List.mem_of_getLast? ha))
      have hid := hshown a (hpre ▸ List.mem_append_right pre hmem.1) hmem.2
      rw [List.getLast?_map, ha, Option.map_some, Option.bind_some, hid, Option.bind_some]
      obtain ⟨pages, hpages, hflatten, hlengths⟩ := ih (c := some a.ident)
        ⟨_, rfl, hcursor fuel a.ident⟩ hfront (by rw [hdrop, List.length_drop]; omega)
      rw [hpages]
      refine ⟨_, rfl, ?_, ?_⟩
      · rw [List.flatten_cons, hflatten, hdrop, ← List.map_append, List.take_append_drop]
      · intro page hpage
        cases List.mem_cons.mp hpage with
        | inl h =>
          rw [h]
          simp
        | inr h => exact hlengths page h

/-- What a reader of the whole history gets: each state that the filter picks, once and in order, on
pages of at most `limit`. -/
def Enumerates (eq : Json.Value → Json.Value → Bool) (threadId : String)
    (metadata : Option JsonObject) (limit : Nat) (history : List Snapshot)
    (pages : List (List ThreadState)) : Prop :=
  List.Forall₂ (fun state s => snapshotToThreadState s threadId = .ok state) pages.flatten
      (history.filter (matchesMetadata eq metadata)) ∧
    ∀ page ∈ pages, page.length ≤ limit

/-- The reader of a history whose states fit the contract gets all of it. -/
theorem history_enumerated (eq : Json.Value → Json.Value → Bool)
    (heq : ∀ a b : String, eq (.str a) (.str b) = decide (a = b)) (deps : HistoryDeps)
    (threadId : String) (metadata checkpoint : Option JsonObject) (limit : Nat) (hlimit : 1 ≤ limit)
    (history : List Snapshot) (hids : HasIds history)
    (haccepted : Accepted eq deps threadId limit metadata checkpoint history)
    (hfits : Fits eq threadId metadata history) (cursor : Nat → String → Before)
    (hcursor : ∀ n i, IsCursor threadId i (cursor n i)) :
    ∃ pages, readHistory (fun before => threadsHistory eq deps threadId
        ⟨limit, hlimit, before, metadata, checkpoint⟩) limit cursor (history.length + 1) none =
          some pages ∧ Enumerates eq threadId metadata limit history pages := by
  have hshown : ∀ s ∈ history, matchesMetadata eq metadata s →
      (shown threadId s).checkpoint.checkpointId = some s.ident := by
    intro s hs hmatch
    obtain ⟨st, hst⟩ := hfits s hs hmatch
    rw [shown_of_ok hst]
    apply checkpointId_of_ok hst (hids.present s hs)
  have hfuel : ((Paging.remaining Snapshot.ident history none).filter
      (matchesMetadata eq metadata)).length < history.length + 1 :=
    Nat.lt_succ_of_le (List.length_filter_le ..)
  have hstart : history = [] ++ Paging.remaining Snapshot.ident history none := rfl
  have hreads : Reads threadId none none := rfl
  obtain ⟨pages, hpages, hflatten, hlengths⟩ := readHistory_eq hlimit hids hshown hcursor
    (fun c before h => threadsHistory_eq heq haccepted hids hfits hlimit h) (history.length + 1)
    hreads hstart hfuel
  refine ⟨pages, hpages, ?_, hlengths⟩
  rw [hflatten, Paging.remaining, List.forall₂_map_left_iff]
  apply List.forall₂_same.mpr
  intro s hs
  obtain ⟨hmem, hmatch⟩ := List.mem_filter.mp hs
  obtain ⟨st, hst⟩ := hfits s hmem hmatch
  rw [shown_of_ok hst, hst]

def textEq : Json.Value → Json.Value → Bool
  | .str a, .str b => decide (a = b)
  | _, _ => false

def openDeps (history : List Snapshot) : HistoryDeps where
  denied _ := none
  maxPlatformResultLimit := 100
  maxInputDepth := 32
  maxInputNodes := 10000
  resolveThreadGraph _ := .ok fun _ => .ok history

theorem openDeps_accepted (history : List Snapshot) (limit : Nat) (h : limit ≤ 100) :
    Accepted textEq (openDeps history) "t" limit none none history where
  allowed := rfl
  wellFormed := by decide +kernel
  limit := h
  metadata := rfl
  history := ⟨_, _, rfl, rfl, rfl⟩

def snapshotOf (checkpointId : String) (values : Json.Value) : Snapshot where
  values := values
  next := []
  config := .dict [(configurableKey, .dict [(checkpointIdKey, .str checkpointId)])]
  metadata := none
  createdAt := none
  parentConfig := .null

def threeStates : List Snapshot :=
  [snapshotOf "c" (.dict []), snapshotOf "b" (.dict []), snapshotOf "a" (.dict [])]

theorem history_enumerated_three :
    ∃ pages, readHistory (fun before => threadsHistory textEq (openDeps threeStates) "t"
        ⟨2, by decide, before, none, none⟩) 2 (fun _ => .id) 4 none = some pages ∧
      Enumerates textEq "t" none 2 threeStates pages :=
  history_enumerated textEq (fun _ _ => rfl) (openDeps threeStates) "t" none none 2 (by decide)
    threeStates ⟨by simp only [threeStates, List.forall_mem_cons]; exact ⟨rfl, rfl, rfl, by simp⟩,
      by decide⟩ (openDeps_accepted threeStates 2 (by decide))
    (by
      intro s hs _
      simp only [threeStates, List.mem_cons, List.not_mem_nil, or_false] at hs
      obtain rfl | rfl | rfl := hs <;> exact ⟨_, rfl⟩)
    (fun _ => .id) (fun _ _ => .id)

def listState : List Snapshot := [snapshotOf "a" (.list [.int 1])]

theorem not_enumerated_list :
    ¬∀ (eq : Json.Value → Json.Value → Bool)
      (_ : ∀ a b : String, eq (.str a) (.str b) = decide (a = b)) (deps : HistoryDeps)
      (threadId : String) (metadata checkpoint : Option JsonObject) (limit : Nat) (h : 1 ≤ limit)
      (history : List Snapshot) (_ : HasIds history)
      (_ : Accepted eq deps threadId limit metadata checkpoint history)
      (cursor : Nat → String → Before) (_ : ∀ n i, IsCursor threadId i (cursor n i)),
      ∃ pages, readHistory (fun before => threadsHistory eq deps threadId
          ⟨limit, h, before, metadata, checkpoint⟩) limit cursor (history.length + 1) none =
            some pages ∧ Enumerates eq threadId metadata limit history pages := by
  intro h
  obtain ⟨pages, hpages, henumerates, -⟩ := h textEq (fun _ _ => rfl) (openDeps listState) "t" none
    none 2 (by decide) listState ⟨by simp only [listState, List.forall_mem_cons]; exact ⟨rfl, by simp⟩,
      by decide⟩ (openDeps_accepted listState 2 (by decide)) (fun _ => .id) (fun _ _ => .id)
  have hempty : threadsHistory textEq (openDeps listState) "t" ⟨2, by decide, none, none, none⟩ =
      .ok [] := by
    rw [threadsHistory, (openDeps_accepted listState 2 (by decide)).wellFormed]
    rfl
  rw [readHistory, hempty] at hpages
  cases hpages
  cases henumerates

end

end LangGraphFunctions.Platform.History

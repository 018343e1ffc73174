import LangGraphFunctions.Stores.Refinement

/-! The table store does what the in-memory store does, over every sequence of calls. -/

namespace LangGraphFunctions.Stores.AzureTable

open Lib EtagTable Platform

variable {eq : Json.Value → Json.Value → Bool} {threads : Threads} {T T' : Table} {me : Nat}

theorem mapM_filterMap {α β : Type} {f : α → Except Exn β} {g : α → Option β} {xs : List α}
    (h : ∀ x ∈ xs, ∃ y, f x = .ok y ∧ g x = some y) : xs.mapM f = .ok (xs.filterMap g) := by
  induction xs with
  | nil => rfl
  | cons x xs ih =>
    obtain ⟨⟨y, hf, hg⟩, hxs⟩ := List.forall_mem_cons.mp h
    rw [List.mapM_cons, hf, ih hxs, List.filterMap_cons_some hg]
    rfl

theorem filterMap_filter {α β : Type} {f : α → Option β} {p : α → Bool} {q : β → Bool}
    {xs : List α} (h : ∀ x ∈ xs, ∃ y, f x = some y ∧ p x = q y) :
    (xs.filter p).filterMap f = (xs.filterMap f).filter q := by
  induction xs with
  | nil => rfl
  | cons x xs ih =>
    obtain ⟨⟨y, hf, hpq⟩, hxs⟩ := List.forall_mem_cons.mp h
    rw [List.filter_cons, List.filterMap_cons_some hf, List.filter_cons, hpq, ← ih hxs]
    split
    · rw [List.filterMap_cons_some hf]
    · rfl

def rowThreads (threads : Threads) (T : Table) : List Thread :=
  T.rows.items.filterMap fun p => threads.get? p.1

theorem Mirrors.perm (h : Mirrors threads T) :
    (threads.items.map (·.2)).Perm (rowThreads threads T) := by
  have hitems : threads.items.Perm
      (T.rows.keys.filterMap fun id => (threads.get? id).map fun thread => (id, thread)) := by
    apply (List.perm_ext_iff_of_nodup (.of_map _ threads.nodup) ?_).mpr
    · rintro ⟨id, thread⟩
      rw [List.mem_filterMap, ← Dict.get?_eq_some_iff]
      constructor
      · intro hthread
        exact ⟨id, Dict.mem_keys_iff.mpr (h.isSome_row hthread), by rw [hthread, Option.map_some]⟩
      · rintro ⟨id', -, hmap⟩
        obtain ⟨thread', hthread, heq⟩ := Option.map_eq_some_iff.mp hmap
        cases heq
        exact hthread
    · refine List.Nodup.filterMap (fun id id' p hid hid' => ?_) T.rows.nodup
      obtain ⟨thread, -, rfl⟩ := Option.map_eq_some_iff.mp hid
      obtain ⟨thread', -, heq⟩ := Option.map_eq_some_iff.mp hid'
      exact (congrArg Prod.fst heq).symm
  have hmap := hitems.map (·.2)
  rw [List.map_filterMap] at hmap
  refine hmap.trans (.of_eq ?_)
  rw [Dict.keys, List.filterMap_map, rowThreads]
  refine List.filterMap_congr fun p _ => ?_
  rw [Function.comp_apply, Option.map_map]
  cases threads.get? p.1 <;> rfl

theorem text_injective {status status' : ThreadStatus} (h : status.text = status'.text) :
    status = status' := by
  have hof := congrArg ThreadStatus.ofText h
  rw [ThreadStatus.ofText_text, ThreadStatus.ofText_text] at hof
  exact Option.some.inj hof

theorem queryFilter_eq {entity : Entity} {thread : Thread} (hrecord : Records entity thread)
    (status : Option ThreadStatus) : queryFilter status entity = statusMatches status thread := by
  rw [queryFilter, hrecord.partition, beq_self_eq_true, Bool.true_and]
  cases status with
  | none => rfl
  | some status =>
    rw [Option.all_some, statusMatches, Option.all_some, hrecord.status, Bool.eq_iff_iff,
      beq_iff_eq, decide_eq_true_eq]
    constructor
    · intro heq
      simp only [Option.some.injEq, Property.str.injEq] at heq
      exact text_injective heq
    · rintro rfl
      rfl

def Queried (threads : Threads) (T : Table) (status : Option ThreadStatus)
    (r : Except Exn (List Thread)) (T' : Table) (w : Answers) : Prop :=
  T' = T ∧ Drawn 0 "" w ∧ (r = .ok ((rowThreads threads T).filter (statusMatches status)) ∨
    ∃ m o, ∃ a : Op.Ans o, r = .error (.other m) ∧ Prog.Recorded w o a ∧
      o.failure a = some (.other m))

theorem alone_queryThreads (h : Mirrors threads T) (status : Option ThreadStatus) :
    Alone me (queryThreads status) (Queried threads T status) T [] := by
  rintro _ rfl answer ⟨T', _⟩ ⟨⟨hanswer, hsame⟩, rfl⟩
  have hsame : T = T' := hsame.symm
  subst hsame
  refine ⟨trivial, ?_⟩
  rcases hanswer with rfl | ⟨m, rfl⟩
  · apply Prog.safe_ofExcept
    refine ⟨rfl, by simp [Drawn, Gives], .inl ?_⟩
    have hread : ∀ found ∈ T.query (queryFilter status) none, ∃ thread,
        entityToThread found.1 found.2.entity = .ok thread ∧
          threads.get? found.1 = some thread := by
      intro found hfound
      obtain ⟨p, hp, rfl⟩ := List.mem_map.mp hfound
      obtain ⟨thread, hthread, hid, hrecord⟩ :=
      h.present (Dict.get?_eq_some_iff.mpr (List.mem_filter.mp hp).1)
      exact ⟨thread, hrecord.entityToThread hid, hthread⟩
    have hfilter : ∀ p ∈ T.rows.items, ∃ thread, threads.get? p.1 = some thread ∧
        queryFilter status p.2.entity = statusMatches status thread := by
      intro p hp
      obtain ⟨thread, hthread, -, hrecord⟩ := h.present (Dict.get?_eq_some_iff.mpr hp)
      exact ⟨thread, hthread, queryFilter_eq hrecord status⟩
    rw [mapM_filterMap hread, Table.query, List.filterMap_map, rowThreads,
      ← filterMap_filter hfilter]
    rfl
  · exact ⟨rfl, by simp [Drawn, Gives], .inr ⟨m, _, _, rfl, Prog.recorded_last _ _ _, rfl⟩⟩

theorem Mirrors.perm_filtered (h : Mirrors threads T) (metadata : Option JsonObject)
    (status : Option ThreadStatus) :
    (InMemoryThreadStore.filteredThreads eq threads metadata status).Perm
      (((rowThreads threads T).filter (statusMatches status)).filter fun thread =>
        metadataMatches eq thread metadata) := by
  rw [List.filter_filter, InMemoryThreadStore.filteredThreads]
  refine (h.perm.filter _).trans (.of_eq (List.filter_congr fun thread _ => ?_))
  exact Bool.and_comm _ _

theorem refines_search {metadata : Option JsonObject} {status : Option ThreadStatus}
    {limit offset : Int} (h : Mirrors threads T) :
    Refines eq me threads (.search metadata status limit offset) T := by
  apply Prog.safe_ofExcept_bind
  · intro _ hpage
    apply Prog.Safe.bind
    apply Prog.Safe.mono (alone_queryThreads h status)
    rintro r ⟨T', w⟩ ⟨hsame, hdrawn, hr⟩
    have hsame : T' = T := hsame
    subst hsame
    refine ⟨fun listed hlisted => ?_, fun exc hexc => ?_⟩
    · rcases hr with rfl | ⟨m, o, a, rfl, -⟩
      · cases hlisted
        refine .does 0 "" threads _ hdrawn ?_
          (.pages (sameButTies_newestFirst (h.perm_filtered metadata status))) h
        rw [StoreCall.serve, InMemoryThreadStore.search, hpage]
        rfl
      · cases hlisted
    · rcases hr with rfl | ⟨m, o, a, rfl, hrecorded, hfault⟩
      · cases hexc
      · cases hexc
        exact h.excused (.service hrecorded hfault)
  · intro exc hexc
    refine h.agrees (List.forall_mem_nil _) ?_
    rw [StoreCall.serve, InMemoryThreadStore.search, hexc]
    rfl

theorem refines_count {metadata : Option JsonObject} {status : Option ThreadStatus}
    (h : Mirrors threads T) : Refines eq me threads (.count metadata status) T := by
  apply Prog.Safe.bind
  apply Prog.Safe.mono (alone_queryThreads h status)
  rintro r ⟨T', w⟩ ⟨hsame, hdrawn, hr⟩
  have hsame : T' = T := hsame
  subst hsame
  refine ⟨fun listed hlisted => ?_, fun exc hexc => ?_⟩
  · rcases hr with rfl | ⟨m, o, a, rfl, -⟩
    · cases hlisted
      refine h.agrees hdrawn ?_
      rw [StoreCall.serve, InMemoryThreadStore.count,
        (h.perm_filtered metadata status).length_eq]
    · cases hlisted
  · rcases hr with rfl | ⟨m, o, a, rfl, hrecorded, hfault⟩
    · cases hexc
    · cases hexc
      exact h.excused (.service hrecorded hfault)

theorem refines {call : StoreCall} (h : Mirrors threads T) (hjson : call.IsJson) :
    Refines eq me threads call T := by
  cases call with
  | create metadata => exact refines_create h hjson
  | get threadId => exact refines_get h
  | update threadId metadata status values interrupts assistantId => exact refines_update h hjson
  | delete threadId => exact refines_delete h
  | tryAcquireRunLock threadId assistantId => exact refines_tryAcquireRunLock h
  | releaseRunLock threadId status values ownerToken => exact refines_releaseRunLock h hjson
  | renewRunLock threadId ownerToken => exact refines_renewRunLock h
  | search metadata status limit offset => exact refines_search h
  | count metadata status => exact refines_count h

/-- A call, with what it returned and what the table answered to its operations. -/
structure Entry where
  call : StoreCall
  result : Except Exn call.Result
  answers : Answers

/-- The calls of the only client of the table, one after the other, each of which meets `F` where it
begins. -/
inductive CallsWhere (eq : Json.Value → Json.Value → Bool) (me : Nat) (F : Table → Entry → Prop) :
    Table → List Entry → Table → Prop
  | nil {T : Table} : CallsWhere eq me F T [] T
  | cons {T T' T'' : Table} {call : StoreCall} {r : Except Exn call.Result} {log : List Entry}
      {t : List (Event (interface Property) Table)} :
      Exec (service me) Eq (call.program eq) T t (.ofExcept r) T' →
      F T ⟨call, r, t.flatMap Event.answers⟩ → CallsWhere eq me F T' log T'' →
      CallsWhere eq me F T (⟨call, r, t.flatMap Event.answers⟩ :: log) T''

abbrev Calls (eq : Json.Value → Json.Value → Bool) (me : Nat) :
    Table → List Entry → Table → Prop := CallsWhere eq me fun _ _ => True

/-- The in-memory store returns the same to the same calls, given the times and the identifiers that
the table store was given, but for those that are excused. -/
inductive Replays (eq : Json.Value → Json.Value → Bool) : Threads → List Entry → Threads → Prop
  | nil {threads : Threads} : Replays eq threads [] threads
  | does {threads threads' threads'' : Threads} {call : StoreCall} {r r' : Except Exn call.Result}
      {w : Answers} {log : List Entry} (now : Int) (uuid : String) : Drawn now uuid w →
      call.serve eq now uuid threads = (r', threads') → Matches call r' r →
      Replays eq threads' log threads'' → Replays eq threads (⟨call, r, w⟩ :: log) threads''
  | fails {threads threads' : Threads} {call : StoreCall} {exc : Exn} {w : Answers}
      {log : List Entry} : Excuse threads w call exc → Replays eq threads log threads' →
      Replays eq threads (⟨call, .error exc, w⟩ :: log) threads'

theorem agrees_exec {call : StoreCall} {r : Except Exn call.Result}
    {t : List (Event (interface Property) Table)} (h : Mirrors threads T) (hjson : call.IsJson)
    (hx : Exec (service me) Eq (call.program eq) T t (.ofExcept r) T') :
    Agrees eq threads call r T' (t.flatMap Event.answers) := by
  obtain ⟨t', hx'⟩ := hx.recorded []
  have hrest := (hx'.safe (fun _ => rfl) (fun h h' => h.trans h') (refines h hjson)).1
  exact Prog.safe_ofExcept_iff.mp hrest

/-- The table store refines the in-memory store. -/
theorem calls_replays {log : List Entry} (h : Mirrors threads T) (hcalls : Calls eq me T log T')
    (hjson : ∀ entry ∈ log, entry.call.IsJson) :
    ∃ threads', Replays eq threads log threads' ∧ Mirrors threads' T' := by
  induction hcalls generalizing threads with
  | nil => exact ⟨threads, .nil, h⟩
  | @cons T T₁ T₂ call r log t hx _ hcalls ih =>
    obtain ⟨hcall, hjson⟩ := List.forall_mem_cons.mp hjson
    cases agrees_exec h hcall hx with
    | does now uuid threads₁ r' hdrawn hserve hmatches h₁ =>
      obtain ⟨threads', hreplays, h'⟩ := ih h₁ hjson
      exact ⟨threads', .does now uuid hdrawn hserve hmatches hreplays, h'⟩
    | fails exc hr hexcuse h₁ =>
      obtain ⟨threads', hreplays, h'⟩ := ih h₁ hjson
      have hr : r = .error exc := hr
      subst hr
      exact ⟨threads', .fails hexcuse hreplays, h'⟩

def noted (me : Nat) (o : Op Property) (s : Table × Answers) : o.Ans × (Table × Answers) :=
  ((act me o s.1).1, (act me o s.1).2, s.2 ++ [⟨o, (act me o s.1).1⟩])

def ran (eq : Json.Value → Json.Value → Bool) (me : Nat) :
    List StoreCall → Table → List Entry × Table
  | [], T => ([], T)
  | call :: calls, T =>
    let (r, T', w) := (call.program eq).run (noted me) (T, [])
    let (log, T'') := ran eq me calls T'
    (⟨call, r, w⟩ :: log, T'')

theorem exec_noted {α : Type} (me : Nat) (p : Call α) (T : Table) (w : Answers) : ∃ t,
    Exec (service me) Eq p T t (.ofExcept (p.run (noted me) (T, w)).1)
        (p.run (noted me) (T, w)).2.1 ∧
      (p.run (noted me) (T, w)).2.2 = w ++ t.flatMap Event.answers := by
  induction p generalizing T w with
  | ret a => exact ⟨[], .stop, (List.append_nil w).symm⟩
  | raise e => exact ⟨[], .stop, (List.append_nil w).symm⟩
  | call o k ih =>
    obtain ⟨t, h, hw⟩ := ih (act me o T).1 (act me o T).2 (w ++ [⟨o, (act me o T).1⟩])
    refine ⟨_, .call (act_step me o T) h, hw.trans ?_⟩
    rw [List.append_assoc]
    rfl

theorem callsWhere_cons {F : Table → Entry → Prop} {log : List Entry} (call : StoreCall)
    (hF : F T ⟨call, ((call.program eq).run (noted me) (T, [])).1,
      ((call.program eq).run (noted me) (T, [])).2.2⟩)
    (hrest : CallsWhere eq me F ((call.program eq).run (noted me) (T, [])).2.1 log T') :
    CallsWhere eq me F T (⟨call, ((call.program eq).run (noted me) (T, [])).1,
      ((call.program eq).run (noted me) (T, [])).2.2⟩ :: log) T' := by
  obtain ⟨t, hx, hw⟩ := exec_noted me (call.program eq) T []
  rw [List.nil_append] at hw
  rw [hw] at hF ⊢
  exact .cons hx hF hrest

theorem calls_ran (me : Nat) (calls : List StoreCall) (T : Table) :
    Calls eq me T (ran eq me calls T).1 (ran eq me calls T).2 := by
  induction calls generalizing T with
  | nil => exact .nil
  | cons call calls ih => exact callsWhere_cons call trivial (ih _)

theorem forall_mem_ran {me : Nat} {calls : List StoreCall} {T : Table} {P : StoreCall → Prop}
    (h : ∀ call ∈ calls, P call) : ∀ entry ∈ (ran eq me calls T).1, P entry.call := by
  induction calls generalizing T with
  | nil => exact List.forall_mem_nil _
  | cons call calls ih =>
    obtain ⟨hcall, hcalls⟩ := List.forall_mem_cons.mp h
    exact List.forall_mem_cons.mpr ⟨hcall, ih hcalls⟩

def someCalls : List StoreCall :=
  [.create (some (Dict.ofList [(.str "a", .int 1)])), .tryAcquireRunLock "u" (some "g"),
    .renewRunLock "u" "uu", .tryAcquireRunLock "u" (some "h"),
    .releaseRunLock "u" .idle (some (Dict.ofList [(.str "b", .null)])) (some "uu"),
    .renewRunLock "v" "uu", .search (some (Dict.ofList [(.str "a", .int 1)])) (some .idle) 10 0,
    .count none none]

theorem calls_replays_someCalls : ∃ threads',
    Replays (fun _ _ => true) ∅ (ran (fun _ _ => true) 0 someCalls ⟨∅, 0, 0, []⟩).1 threads' ∧
      Mirrors threads' (ran (fun _ _ => true) 0 someCalls ⟨∅, 0, 0, []⟩).2 := by
  refine calls_replays (mirrors_empty 0) (calls_ran 0 someCalls _) (forall_mem_ran ?_)
  have hobject (k : String) (v : Json.Value) (hv : Json.IsJson v) :
      ObjectIsJson (some (Dict.ofList [(.str k, v)])) := by
    rintro o ⟨⟩
    refine .dict ?_ (List.nodup_singleton _) ?_
    · exact List.forall_mem_singleton.mpr ⟨k, rfl⟩
    · exact List.forall_mem_singleton.mpr hv
  simp only [someCalls, List.forall_mem_cons]
  exact ⟨hobject _ _ .int, trivial, trivial, trivial, hobject _ _ .null, trivial, trivial,
    trivial, List.forall_mem_nil _⟩

end LangGraphFunctions.Stores.AzureTable

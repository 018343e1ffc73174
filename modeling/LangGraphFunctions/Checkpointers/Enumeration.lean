import LangGraphFunctions.Checkpointers.BlobReach
import LangGraphFunctions.Checkpointers.TextSerde

/-! The enumeration of the committed checkpoints. -/

namespace LangGraphFunctions.Checkpointers.AzureBlob

open Lib

variable {V R G : Type} {S : Saver V R G} {s s' : Store} {t ns id : String}

def Enumeration.offers (e : Enumeration V R G) (tuples : List (CheckpointTuple V R G)) :
    Enumeration V R G :=
  tuples.foldl (fun e tuple => if e.returned then e else e.offer tuple) e

theorem Enumeration.offers_append (e : Enumeration V R G) (xs ys : List (CheckpointTuple V R G)) :
    e.offers (xs ++ ys) = (e.offers xs).offers ys := List.foldl_append

theorem Enumeration.offers_of_returned {e : Enumeration V R G} (h : e.returned)
    (xs : List (CheckpointTuple V R G)) : e.offers xs = e := by
  induction xs with
  | nil => rfl
  | cons x xs ih =>
    rw [offers, List.foldl_cons, if_pos h]
    exact ih

def cut {α : Type} (limit : Option Int) (xs : List α) : List α :=
  limit.elim xs fun limit => xs.take (max limit 0).toNat

theorem Enumeration.tuples_offers (limit : Option Int) (acc xs : List (CheckpointTuple V R G)) :
    (Enumeration.offers ⟨limit, false, acc⟩ xs).tuples = acc ++ cut limit xs := by
  induction xs generalizing limit acc with
  | nil => cases limit <;> simp [offers, cut]
  | cons x xs ih =>
    rw [offers, List.foldl_cons, if_neg (by simp)]
    cases limit with
    | none =>
      change (Enumeration.offers ⟨none, false, acc ++ [x]⟩ xs).tuples = _
      rw [ih, List.append_assoc]
      rfl
    | some limit =>
      by_cases h : limit ≤ 0
      · have hoffer : Enumeration.offer ⟨some limit, false, acc⟩ x = ⟨some limit, true, acc⟩ :=
          if_pos h
        have hnone : cut (some limit) (x :: xs) = [] := by
          rw [cut, Option.elim_some, max_eq_right h]
          rfl
        rw [hoffer, hnone, List.append_nil]
        exact congrArg Enumeration.tuples (Enumeration.offers_of_returned rfl xs)
      · have hoffer : Enumeration.offer ⟨some limit, false, acc⟩ x =
            ⟨some (limit - 1), false, acc ++ [x]⟩ := if_neg h
        have htake : cut (some limit) (x :: xs) = x :: cut (some (limit - 1)) xs := by
          have hsucc : (max limit 0).toNat = (max (limit - 1) 0).toNat + 1 := by omega
          rw [cut, cut, Option.elim_some, Option.elim_some, hsucc, List.take_succ_cons]
        rw [hoffer, htake]
        exact (ih _ _).trans (List.append_assoc ..)

theorem foldlM_offers {α : Type} {f : Enumeration V R G → α → Except Exn (Enumeration V R G)}
    {m : α → List (CheckpointTuple V R G)} {xs : List α}
    (h : ∀ e, ∀ x ∈ xs, f e x = .ok (e.offers (m x))) (e : Enumeration V R G) :
    xs.foldlM f e = .ok (e.offers (xs.flatMap m)) := by
  induction xs generalizing e with
  | nil => rfl
  | cons x xs ih =>
    rw [List.foldlM_cons, h e x List.mem_cons_self, List.flatMap_cons, Enumeration.offers_append]
    exact ih (fun e x hx => h e x (List.mem_cons_of_mem _ hx)) _

structure Row where
  threadId : String
  checkpointNs : String
  checkpointId : String

/-- Threads and namespaces ascend, and the ids within a namespace descend. -/
def Row.Precedes (a b : Row) : Prop :=
  a.threadId < b.threadId ∨ a.threadId = b.threadId ∧
    (a.checkpointNs < b.checkpointNs ∨
      a.checkpointNs = b.checkpointNs ∧ b.checkpointId < a.checkpointId)

def Row.config (row : Row) : RunnableConfig G :=
  checkpointConfig row.threadId row.checkpointNs row.checkpointId

def Row.tuple (S : Saver V R G) (s : Store) (row : Row) : Option (CheckpointTuple V R G) :=
  (view s (buildTuple S row.threadId row.checkpointNs row.checkpointId row.config)).toOption.join

def Row.passes (S : Saver V R G) (s : Store) (filter : List (String × V)) (row : Row) : Bool :=
  (row.tuple S s).any fun tuple => S.passes filter tuple.metadata

def Row.tuples (S : Saver V R G) (s : Store) (filter : List (String × V)) (row : Row) :
    List (CheckpointTuple V R G) :=
  ((row.tuple S s).filter fun tuple => S.passes filter tuple.metadata).toList

def rows (s : Store) (threads : List String) (configNs configId beforeId : Option String) : List Row :=
  threads.flatMap fun t => (targets s t configNs).flatMap fun ns =>
    ((checkpointIds s t ns).filter (selected configId beforeId)).map (Row.mk t ns)

theorem Sound.row_tuple (hs : Sound S s) (row : Row)
    (h : Committed s row.threadId row.checkpointNs row.checkpointId) :
    ∃ tuple, row.tuple S s = some tuple ∧ view s (buildTuple S row.threadId row.checkpointNs
      row.checkpointId row.config) = .ok (some tuple) := by
  obtain ⟨tuple, htuple⟩ := hs.view_buildTuple h row.config
  refine ⟨tuple, ?_, htuple⟩
  rw [Row.tuple, htuple]
  rfl

theorem Sound.view_listCheckpoint (hs : Sound S s) {filter : List (String × V)}
    {configId beforeId : Option String} (e : Enumeration V R G) (h : Committed s t ns id) :
    view s (listCheckpoint S filter configId beforeId t ns e id) =
      .ok (e.offers (if selected configId beforeId id then Row.tuples S s filter ⟨t, ns, id⟩
        else [])) := by
  rw [listCheckpoint]
  cases hreturned : e.returned with
  | true =>
    rw [Enumeration.offers_of_returned hreturned, if_pos (by simp)]
    rfl
  | false =>
    cases hselected : selected configId beforeId id with
    | false =>
      rw [if_pos (by simp), if_neg (by simp)]
      rfl
    | true =>
      obtain ⟨tuple, htuple, hview⟩ := hs.row_tuple ⟨t, ns, id⟩ h
      have hread : view s (buildTuple S t ns id (checkpointConfig t ns id)) = .ok (some tuple) :=
        hview
      rw [if_neg (by simp), if_pos rfl, view_bind hread, Row.tuples, htuple, Option.filter_some]
      change view s (if S.passes filter tuple.metadata then _ else _) = _
      split
      · change Except.ok (e.offer tuple) = .ok (if e.returned then e else e.offer tuple)
        rw [hreturned]
        rfl
      · rfl

theorem Sound.view_listNamespace (hs : Sound S s) {filter : List (String × V)}
    {configId beforeId : Option String} (e : Enumeration V R G) (t ns : String) :
    view s (listNamespace S filter configId beforeId t e ns) =
      .ok (e.offers (((checkpointIds s t ns).filter (selected configId beforeId)).flatMap
        fun id => Row.tuples S s filter ⟨t, ns, id⟩)) := by
  have hfilter (ids : List String) : (ids.filter (selected configId beforeId)).flatMap
      (fun id => Row.tuples S s filter ⟨t, ns, id⟩) = ids.flatMap fun id =>
        if selected configId beforeId id then Row.tuples S s filter ⟨t, ns, id⟩ else [] := by
    induction ids with
    | nil => rfl
    | cons id ids ih =>
      rw [List.filter_cons, List.flatMap_cons, ← ih]
      split <;> rfl
  rw [listNamespace]
  split
  · next hreturned => exact congrArg Except.ok (Enumeration.offers_of_returned hreturned _).symm
  · rw [view_bind (view_listCheckpointIds t ns), view_foldlM, hfilter]
    refine foldlM_offers (fun e id hid => ?_) e
    exact hs.view_listCheckpoint e (hs.named.mem_checkpointIds.mp hid)

theorem Sound.view_listThread (hs : Sound S s) {filter : List (String × V)}
    {configNs configId beforeId : Option String} (e : Enumeration V R G) (t : String) :
    view s (listThread S filter configNs configId beforeId e t) =
      .ok (e.offers ((targets s t configNs).flatMap fun ns =>
        ((checkpointIds s t ns).filter (selected configId beforeId)).flatMap
          fun id => Row.tuples S s filter ⟨t, ns, id⟩)) := by
  rw [listThread]
  split
  · next hreturned => exact congrArg Except.ok (Enumeration.offers_of_returned hreturned _).symm
  · rw [view_bind (view_targetNamespaces t configNs), view_foldlM]
    exact foldlM_offers (fun e ns _ => hs.view_listNamespace e t ns) e

theorem Sound.view_listThreads (hs : Sound S s) {filter : List (String × V)}
    {configNs configId beforeId : Option String} (e : Enumeration V R G) (threads : List String) :
    view s (threads.foldlM (listThread S filter configNs configId beforeId) e) =
      .ok (e.offers ((rows s threads configNs configId beforeId).flatMap
        (Row.tuples S s filter))) := by
  rw [view_foldlM, foldlM_offers (fun e t _ => hs.view_listThread e t) e]
  simp only [rows, List.flatMap_assoc, List.flatMap_map]

inductive Selection
  | everything
  | within (threadId checkpointNs : String) (checkpointId : Option String)

def Query.Selects (q : Query V G) : Selection → Prop
  | .everything => q.config = none
  | .within t ns asked => ∃ config, q.config = some config ∧ Asks config t ns asked

def Selection.Admits : Selection → Row → Prop
  | .everything, _ => True
  | .within t ns asked, row => row.threadId = t ∧ row.checkpointNs = ns ∧
    ∀ id ∈ asked, row.checkpointId = id

structure Row.Matches (S : Saver V R G) (s : Store) (filter : List (String × V))
    (selection : Selection) (beforeId : Option String) (row : Row) : Prop where
  committed : Committed s row.threadId row.checkpointNs row.checkpointId
  admitted : selection.Admits row
  earlier : ∀ id ∈ beforeId, row.checkpointId < id
  passes : ∃ metadata, metadataAt S s row.threadId row.checkpointNs row.checkpointId =
    some metadata ∧ ∀ entry ∈ filter, S.eq entry.2 ((metadata.get? entry.1).getD S.none)

/-- The query asks for rows before the one with `beforeId`, if there is such an id. -/
def Query.Before (q : Query V G) (beforeId : Option String) : Prop :=
  (ofConfig getCheckpointId q.before).map Option.join = .ok beforeId

theorem pairwise_targets (s : Store) (t : String) (checkpointNs : Option String) :
    (targets s t checkpointNs).Pairwise (· < ·) := by
  cases checkpointNs with
  | some ns => exact List.pairwise_singleton _ ns
  | none => exact pairwise_namespaces s t

theorem pairwise_rows {threads : List String} (h : threads.Pairwise (· < ·))
    (configNs configId beforeId : Option String) :
    (rows s threads configNs configId beforeId).Pairwise Row.Precedes := by
  refine List.pairwise_flatMap.mpr ⟨fun t _ => List.pairwise_flatMap.mpr ⟨fun ns _ => ?_, ?_⟩, ?_⟩
  · exact List.pairwise_map.mpr (((pairwise_checkpointIds s t ns).filter _).imp
      fun hid => .inr ⟨rfl, .inr ⟨rfl, hid⟩⟩)
  · refine (pairwise_targets s t configNs).imp fun hns row hrow row' hrow' => ?_
    obtain ⟨id, -, rfl⟩ := List.mem_map.mp hrow
    obtain ⟨id', -, rfl⟩ := List.mem_map.mp hrow'
    exact .inr ⟨rfl, .inl hns⟩
  · refine h.imp fun ht row hrow row' hrow' => ?_
    obtain ⟨ns, -, hrow⟩ := List.mem_flatMap.mp hrow
    obtain ⟨ns', -, hrow'⟩ := List.mem_flatMap.mp hrow'
    obtain ⟨id, -, rfl⟩ := List.mem_map.mp hrow
    obtain ⟨id', -, rfl⟩ := List.mem_map.mp hrow'
    exact .inl ht

theorem Named.mem_rows (hs : Named s) {threads : List String}
    {configNs configId beforeId : Option String} {row : Row} :
    row ∈ rows s threads configNs configId beforeId ↔ row.threadId ∈ threads ∧
      row.checkpointNs ∈ targets s row.threadId configNs ∧
      Committed s row.threadId row.checkpointNs row.checkpointId ∧
      selected configId beforeId row.checkpointId := by
  constructor
  · intro h
    obtain ⟨t, ht, h⟩ := List.mem_flatMap.mp h
    obtain ⟨ns, hns, h⟩ := List.mem_flatMap.mp h
    obtain ⟨id, hid, rfl⟩ := List.mem_map.mp h
    obtain ⟨hid, hselected⟩ := List.mem_filter.mp hid
    exact ⟨ht, hns, hs.mem_checkpointIds.mp hid, hselected⟩
  · rintro ⟨ht, hns, hid, hselected⟩
    exact List.mem_flatMap.mpr ⟨_, ht, List.mem_flatMap.mpr ⟨_, hns, List.mem_map.mpr
      ⟨_, List.mem_filter.mpr ⟨hs.mem_checkpointIds.mpr hid, hselected⟩, rfl⟩⟩⟩

theorem selected_iff {configId beforeId : Option String} :
    selected configId beforeId id ↔ (∀ id' ∈ configId, id = id') ∧ ∀ id' ∈ beforeId, id < id' := by
  cases configId <;> cases beforeId <;> simp [selected]

def Selection.threads (s : Store) : Selection → List String
  | .everything => threadIds s
  | .within t _ _ => [t]

def Selection.checkpointNs : Selection → Option String
  | .everything => none
  | .within _ ns _ => some ns

def Selection.checkpointId : Selection → Option String
  | .everything => none
  | .within _ _ asked => asked

theorem Selection.pairwise_threads (selection : Selection) (s : Store) :
    (selection.threads s).Pairwise (· < ·) := by
  cases selection with
  | everything => exact pairwise_threadIds s
  | within t ns asked => exact List.pairwise_singleton _ t

theorem Named.mem_rows_selection (hs : Named s) {selection : Selection} {beforeId : Option String}
    {row : Row} :
    row ∈ rows s (selection.threads s) selection.checkpointNs selection.checkpointId beforeId ↔
      Committed s row.threadId row.checkpointNs row.checkpointId ∧ selection.Admits row ∧
        ∀ id ∈ beforeId, row.checkpointId < id := by
  rw [hs.mem_rows, selected_iff]
  cases selection with
  | everything =>
    constructor
    · exact fun h => ⟨h.2.2.1, trivial, h.2.2.2.2⟩
    · intro h
      exact ⟨hs.mem_threadIds.mpr ⟨_, h.1, rfl⟩, hs.mem_namespaces.mpr ⟨_, h.1, rfl, rfl⟩, h.1,
        (fun id hid => absurd hid (Option.not_mem_none id)), h.2.2⟩
  | within t ns asked =>
    constructor
    · rintro ⟨ht, hns, hc, hid, hbefore⟩
      exact ⟨hc, ⟨List.mem_singleton.mp ht, List.mem_singleton.mp hns, hid⟩, hbefore⟩
    · rintro ⟨hc, ⟨ht, hns, hid⟩, hbefore⟩
      exact ⟨List.mem_singleton.mpr ht, List.mem_singleton.mpr hns, hc, hid, hbefore⟩

theorem view_list {q : Query V G} {selection : Selection} {beforeId : Option String}
    (hq : q.Selects selection) (hbefore : q.Before beforeId) :
    view s (list S q) = (view s ((selection.threads s).foldlM
      (listThread S q.filter selection.checkpointNs selection.checkpointId beforeId)
      ⟨q.limit, false, []⟩)).map (·.tuples) := by
  have hloops (configNs : Option String) (configId beforeId' : Option (Option String))
      (threads : List String) (hns : ofConfig configCheckpointNs q.config = .ok configNs)
      (hid : ofConfig getCheckpointId q.config = .ok configId)
      (hbeforeId : ofConfig getCheckpointId q.before = .ok beforeId')
      (hthreads : view s (targetThreads q.config) = .ok threads) :
      view s (list S q) = (view s (threads.foldlM
        (listThread S q.filter configNs configId.join beforeId'.join)
        ⟨q.limit, false, []⟩)).map (·.tuples) := by
    rw [list, view_bind ((view_ofExcept _).trans hns), view_bind ((view_ofExcept _).trans hid),
      view_bind ((view_ofExcept _).trans hbeforeId), view_bind hthreads, view, Prog.eval_bind]
    rfl
  obtain ⟨beforeId', hbeforeId, rfl⟩ : ∃ beforeId', ofConfig getCheckpointId q.before =
      .ok beforeId' ∧ beforeId'.join = beforeId := by
    rw [Query.Before] at hbefore
    cases hof : ofConfig getCheckpointId q.before with
    | error e => rw [hof] at hbefore; cases hbefore
    | ok beforeId' => rw [hof] at hbefore; exact ⟨beforeId', rfl, Except.ok.inj hbefore⟩
  cases selection with
  | everything =>
    have hconfig : q.config = none := hq
    refine hloops none none beforeId' (threadIds s) ?_ ?_ hbeforeId ?_
    · rw [hconfig]; rfl
    · rw [hconfig]; rfl
    · rw [hconfig]; exact view_listThreadIds
  | within t ns asked =>
    obtain ⟨config, hconfig, hasks⟩ := hq
    refine hloops (some ns) (some asked) beforeId' [t] ?_ ?_ hbeforeId ?_
    · rw [hconfig, ofConfig, hasks.ns]; rfl
    · rw [hconfig, ofConfig, hasks.checkpointId]; rfl
    · rw [hconfig, targetThreads, hasks.threadId]; rfl

theorem forall₂_tuples {filter : List (String × V)} {xs : List Row}
    (h : ∀ row ∈ xs, (row.tuple S s).isSome) :
    List.Forall₂ (fun row tuple => row.tuple S s = some tuple)
      (xs.filter (Row.passes S s filter))
      (xs.flatMap (Row.tuples S s filter)) := by
  induction xs with
  | nil => exact .nil
  | cons row xs ih =>
    obtain ⟨tuple, htuple⟩ := Option.isSome_iff_exists.mp (h row List.mem_cons_self)
    have hrest := ih fun row hrow => h row (List.mem_cons_of_mem _ hrow)
    rw [List.filter_cons, List.flatMap_cons, Row.passes, Row.tuples, htuple, Option.any_some,
      Option.filter_some]
    split
    · exact .cons htuple hrest
    · exact hrest

theorem forall₂_cut {α β : Type} {P : α → β → Prop} {xs : List α} {ys : List β}
    (h : List.Forall₂ P xs ys) (limit : Option Int) : List.Forall₂ P (cut limit xs) (cut limit ys) := by
  cases limit with
  | none => exact h
  | some limit => exact List.forall₂_take _ h

theorem Row.view_of_tuple {row : Row} {tuple : CheckpointTuple V R G}
    (h : row.tuple S s = some tuple) : view s (buildTuple S row.threadId row.checkpointNs
      row.checkpointId row.config) = .ok (some tuple) := by
  rw [Row.tuple] at h
  cases hview : view s (buildTuple S row.threadId row.checkpointNs row.checkpointId row.config) with
  | error e => rw [hview] at h; cases h
  | ok found =>
    rw [hview] at h
    cases found with
    | none => cases h
    | some tuple' => exact congrArg (fun found => Except.ok (some found)) (Option.some.inj h)

theorem Sound.passes_iff (hs : Sound S s) {filter : List (String × V)} {row : Row}
    (h : Committed s row.threadId row.checkpointNs row.checkpointId) :
    row.passes S s filter ↔
      ∃ metadata, metadataAt S s row.threadId row.checkpointNs row.checkpointId = some metadata ∧
        ∀ entry ∈ filter, S.eq entry.2 ((metadata.get? entry.1).getD S.none) := by
  obtain ⟨tuple, hview, hmetadata⟩ := hs.exists_tuple h (row.config : RunnableConfig G)
  rw [Row.passes, Row.tuple, hview, hmetadata]
  simp [Except.toOption, Saver.passes]

/-- The rows that match, in order and each of them once, are what is listed. -/
theorem list_exact (hS : S.serde.Lawful) (hs : Reachable S s) {q : Query V G}
    {selection : Selection} {beforeId : Option String} (hq : q.Selects selection)
    (hbefore : q.Before beforeId) :
    ∃ reference : List Row, reference.Pairwise Row.Precedes ∧
      (∀ row, row ∈ reference ↔ row.Matches S s q.filter selection beforeId) ∧
      ∃ tuples, view s (list S q) = .ok tuples ∧ view s (alist S q) = .ok tuples ∧
        List.Forall₂ (fun (row : Row) tuple =>
          view s (buildTuple S row.threadId row.checkpointNs row.checkpointId row.config) =
            .ok (some tuple) ∧
          (row.checkpointId ≠ "" → view s (getTuple S row.config) = .ok (some tuple)))
          (cut q.limit reference) tuples := by
  have hsound := hs.sound hS
  have hview := view_list (S := S) (s := s) hq hbefore
  rw [hsound.view_listThreads] at hview
  have hlisted := hview.trans (congrArg Except.ok (Enumeration.tuples_offers q.limit [] _))
  refine ⟨_, (pairwise_rows (s := s) (selection.pairwise_threads s) selection.checkpointNs
    selection.checkpointId beforeId).filter (Row.passes S s q.filter), fun row => ?_, _, hlisted, hlisted, ?_⟩
  · rw [List.mem_filter, hsound.named.mem_rows_selection]
    constructor
    · rintro ⟨⟨hc, hadmitted, hearlier⟩, hpasses⟩
      exact ⟨hc, hadmitted, hearlier, (hsound.passes_iff hc).mp hpasses⟩
    · intro h
      exact ⟨⟨h.committed, h.admitted, h.earlier⟩, (hsound.passes_iff h.committed).mpr h.passes⟩
  · refine (forall₂_cut (forall₂_tuples fun row hrow => ?_) q.limit).imp fun row tuple htuple => ?_
    · obtain ⟨tuple, htuple, -⟩ := hsound.row_tuple row (hsound.named.mem_rows_selection.mp hrow).1
      exact Option.isSome_iff_exists.mpr ⟨tuple, htuple⟩
    · have hbuilt := Row.view_of_tuple htuple
      exact ⟨hbuilt, fun hid => (view_getTuple ⟨rfl, rfl, rfl⟩ hid).trans hbuilt⟩

def everyCheckpoint (limit : Option Int) : Query String Empty := ⟨none, [], none, limit⟩

theorem list_exact_twoCheckpoints : ∃ reference : List Row,
    (∀ row, row ∈ reference ↔
      row.Matches TextSerde.textSaver TextSerde.twoCheckpoints [] .everything none) ∧
    ∃ tuples, view TextSerde.twoCheckpoints (list TextSerde.textSaver (everyCheckpoint (some 1))) =
      .ok tuples ∧ tuples.length = (cut (some 1) reference).length := by
  have hq : (everyCheckpoint (some 1)).Selects .everything := rfl
  have hbefore : (everyCheckpoint (some 1)).Before none := rfl
  obtain ⟨reference, -, hmem, tuples, hview, -, hall⟩ := list_exact TextSerde.lawful_textSerde
    TextSerde.reachable_twoCheckpoints hq hbefore
  exact ⟨reference, hmem, tuples, hview, hall.length_eq.symm⟩

def leadsBack (s : Store) (tuple : CheckpointTuple String Unit Empty) : Bool :=
  decide (readId TextSerde.textSaver s tuple.config = some tuple.checkpoint.id)

/-- The config of the tuple of the empty id is a request for the latest checkpoint. -/
theorem list_emptyId : ¬ ∀ s (q : Query String Empty) tuples, Reachable TextSerde.textSaver s →
    view s (list TextSerde.textSaver q) = .ok tuples →
    ∀ tuple ∈ tuples, view s (getTuple TextSerde.textSaver tuple.config) = .ok (some tuple) := by
  intro h
  have hids : (view TextSerde.twoCheckpoints
      (list TextSerde.textSaver (everyCheckpoint none))).toOption.map
        (List.map (leadsBack TextSerde.twoCheckpoints)) = some [true, false] := by
    decide +kernel
  cases hview : view TextSerde.twoCheckpoints
      (list TextSerde.textSaver (everyCheckpoint none)) with
  | error e =>
    rw [hview] at hids
    cases hids
  | ok tuples =>
    rw [hview] at hids
    have hread := h TextSerde.twoCheckpoints _ tuples TextSerde.reachable_twoCheckpoints hview
    have hfalse : false ∈ tuples.map (leadsBack TextSerde.twoCheckpoints) := by
      rw [Option.some.inj hids]
      exact List.mem_cons_of_mem _ List.mem_cons_self
    obtain ⟨tuple, htuple, hdecide⟩ := List.mem_map.mp hfalse
    refine absurd ?_ (of_decide_eq_false hdecide)
    rw [readId, hread tuple htuple]
    rfl

end LangGraphFunctions.Checkpointers.AzureBlob

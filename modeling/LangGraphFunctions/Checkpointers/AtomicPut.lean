import LangGraphFunctions.Checkpointers.Enumeration
import LangGraphFunctions.Checkpointers.RoundTrip

/-! Half a put is not seen. -/

namespace LangGraphFunctions.Checkpointers.AzureBlob

open Lib

variable {V R G : Type} {S : Saver V R G} {s s' s₁ : Store} {t ns id : String}

theorem not_putKey_checkpoint {t' ns' id' : String} {newVersions : ChannelVersions}
    (h : ¬ (t' = t ∧ ns' = ns ∧ id' = id)) :
    ¬ PutKey t ns id newVersions (.checkpoint t' ns' id') := by
  rintro (hk | ⟨e, -, hk⟩ | hk | hk) <;> cases hk
  exact h ⟨rfl, rfl, rfl⟩

theorem not_putKey_metadata {t' ns' id' : String} {newVersions : ChannelVersions}
    (h : ¬ (t' = t ∧ ns' = ns ∧ id' = id)) :
    ¬ PutKey t ns id newVersions (.metadata t' ns' id') := by
  rintro (hk | ⟨e, -, hk⟩ | hk | hk) <;> cases hk
  exact h ⟨rfl, rfl, rfl⟩

theorem putKey_value {t' ns' channel version : String} {newVersions : ChannelVersions}
    (h : PutKey t ns id newVersions (.value t' ns' channel version)) :
    t' = t ∧ ns' = ns ∧ ∃ e ∈ newVersions.items, e.1 = channel ∧ e.2.text = version := by
  rcases h with hk | ⟨e, he, hk⟩ | hk | hk <;> cases hk
  exact ⟨rfl, rfl, e, he, rfl, rfl⟩

theorem Sound.same_tuple (hs : Sound S s) (hs' : Sound S s') (hc : Committed s t ns id)
    (hmarker : s'.get? (checkpointBlobPath t ns id) = s.get? (checkpointBlobPath t ns id))
    (hmetadata : s'.get? (metadataBlobPath t ns id) = s.get? (metadataBlobPath t ns id))
    (hwrites : Container.Agree (Names.startswith · (writesPrefix t ns id)) s s')
    (config : RunnableConfig G) : ∃ tuple values,
      Returns (buildTuple S t ns id config) s (some tuple) ∧
      Returns (buildTuple S t ns id config) s' (some
        { tuple with checkpoint := { tuple.checkpoint with channelValues := values } }) ∧
      ∀ channel, (∀ version, tuple.checkpoint.channelVersions.get? channel = some version →
        s'.get? (valueBlobPath t ns channel version.text) =
          s.get? (valueBlobPath t ns channel version.text)) →
        values.get? channel = tuple.checkpoint.channelValues.get? channel := by
  obtain ⟨typed, mtyped, data, values, metadata, writes, hat, hdata, hvalues, hmat, hmetadata',
    hwrites'⟩ := hs.pieces hc
  cases hvalues.symm.trans (hs.loadChannelValues_eq data.channelVersions)
  have hat' := hat
  have hmat' := hmat
  rw [AzureBlob.typedAt, ← hmarker] at hat'
  rw [AzureBlob.typedAt, ← hmetadata] at hmat'
  have hlook : Looks (Region t ns id) (buildTuple S t ns id config) := looks_buildTuple S config
  refine ⟨_, _, returns_look hlook (AzureBlob.view_buildTuple hat hdata hvalues hmat hmetadata'
    hwrites' config), returns_look hlook (AzureBlob.view_buildTuple hat' hdata
      (hs'.loadChannelValues_eq data.channelVersions) hmat' hmetadata' ?_ config),
    fun channel hsame => ?_⟩
  · rw [← hwrites']
    exact (view_congr (looks_loadPendingWrites S) hwrites).symm
  · rw [Dict.get?_filterMap, Dict.get?_filterMap]
    cases hget : data.channelVersions.get? channel with
    | none => rfl
    | some version => rw [Option.bind_some, Option.bind_some, content, hsame version hget, content]

theorem not_startswith_writes {t' ns' id' : String} {newVersions : ChannelVersions} {k : Key}
    (h : PutKey t ns id newVersions k) : ¬ Names.startswith k.path (writesPrefix t' ns' id') := by
  intro hstart
  obtain ⟨taskId, writeIndex, hk⟩ := Key.startswith_writesPrefix.mp hstart
  subst hk
  rcases h with hk | ⟨e, -, hk⟩ | hk | hk <;> cases hk

theorem view_ofExcept_bind_ok {α β : Type} {r : Except Exn α} {q : α → Call G β} {b : β}
    (h : view s (Prog.ofExcept r >>= q) = .ok b) : ∃ a, r = .ok a ∧ view s (q a) = .ok b := by
  cases r with
  | ok a => exact ⟨a, rfl, h⟩
  | error e => cases h

theorem map_eq_ok {α β : Type} {f : α → β} {r : Except Exn α} {b : β} (h : r.map f = .ok b) :
    ∃ a, r = .ok a ∧ f a = b := by
  cases r with
  | ok a => exact ⟨a, rfl, Except.ok.inj h⟩
  | error e => cases h

theorem Sound.config_buildTuple (hs : Sound S s) (hc : Committed s t ns id)
    {config : RunnableConfig G} {tuple : CheckpointTuple V R G}
    (h : view s (buildTuple S t ns id config) = .ok (some tuple)) : tuple.config = config := by
  obtain ⟨typed, mtyped, data, values, metadata, writes, hat, hdata, hvalues, hmat, hmetadata,
    hwrites⟩ := hs.pieces hc
  cases h.symm.trans (AzureBlob.view_buildTuple hat hdata hvalues hmat hmetadata hwrites config)
  rfl

theorem mem_of_mem_cut {α : Type} {limit : Option Int} {xs : List α} {x : α} (h : x ∈ cut limit xs) :
    x ∈ xs := by
  cases limit with
  | none => exact h
  | some limit => exact List.mem_of_mem_take h

theorem exists_selection {q : Query V G} {tuples : List (CheckpointTuple V R G)}
    (h : view s (list S q) = .ok tuples) :
    ∃ selection beforeId, q.Selects selection ∧ q.Before beforeId := by
  obtain ⟨configNs, hns, h⟩ := view_ofExcept_bind_ok h
  obtain ⟨configId, hid, h⟩ := view_ofExcept_bind_ok h
  obtain ⟨beforeId, hbefore, h⟩ := view_ofExcept_bind_ok h
  have hbefore' : q.Before beforeId.join := by
    rw [Query.Before, hbefore]
    rfl
  cases hconfig : q.config with
  | none => exact ⟨.everything, _, hconfig, hbefore'⟩
  | some config =>
    rw [hconfig] at hns hid h
    obtain ⟨threads, hthreads, -⟩ := view_ofExcept_bind_ok h
    obtain ⟨t, ht, -⟩ := map_eq_ok hthreads
    obtain ⟨ns, hns, -⟩ := map_eq_ok hns
    obtain ⟨asked, hasked, -⟩ := map_eq_ok hid
    exact ⟨.within t ns asked, _, ⟨config, hconfig, ⟨ht, hns, hasked⟩⟩, hbefore'⟩

theorem exists_of_forall₂ {α β : Type} {P : α → β → Prop} {xs : List α} {ys : List β}
    (h : List.Forall₂ P xs ys) {y : β} (hy : y ∈ ys) : ∃ x ∈ xs, P x y := by
  induction h with
  | nil => cases hy
  | cons hxy _ ih =>
    cases List.mem_cons.mp hy with
    | inl heq => exact ⟨_, List.mem_cons_self, heq ▸ hxy⟩
    | inr hy =>
      obtain ⟨x, hx, hP⟩ := ih hy
      exact ⟨x, List.mem_cons_of_mem _ hx, hP⟩

/-- What has been put by half is neither read nor listed, and of another checkpoint nothing is
moved but the values under its channels and versions that are put anew. -/
structure Unseen (S : Saver V R G) (t ns id : String) (newVersions : ChannelVersions)
    (s s' : Store) : Prop where
  unread : ∀ asked, Asks asked t ns (some id) → id ≠ "" →
    Returns (getTuple S asked) s' none ∧ Returns (agetTuple S asked) s' none
  unlisted : ∀ q listed tuples s'', listed = list S q ∨ listed = alist S q →
    Ends listed s' (.ok tuples) s'' → ∀ tuple ∈ tuples, tuple.config ≠ checkpointConfig t ns id
  others : ∀ {t' ns' id'}, Committed s t' ns' id' → ∀ config, ∃ tuple values,
    Returns (buildTuple S t' ns' id' config) s (some tuple) ∧
    Returns (buildTuple S t' ns' id' config) s' (some
      { tuple with checkpoint := { tuple.checkpoint with channelValues := values } }) ∧
    ∀ channel, (∀ version, tuple.checkpoint.channelVersions.get? channel = some version →
      ¬ (t' = t ∧ ns' = ns ∧ ∃ e ∈ newVersions.items, e.1 = channel ∧ e.2.text = version.text)) →
        values.get? channel = tuple.checkpoint.channelValues.get? channel

theorem put_unseen (hS : S.serde.Lawful) (hs : Reachable S s) {config : RunnableConfig G}
    {parent : Option String} (hasks : Asks config t ns parent) {checkpoint : Checkpoint V R}
    (hfresh : ¬ Committed s t ns checkpoint.id) {bound : Option G} {metadata : Dict String V}
    {newVersions : ChannelVersions} {p q : Call G (RunnableConfig G)}
    (hp : p = put S bound config checkpoint metadata newVersions ∨
      p = aput S bound config checkpoint metadata newVersions) {u : Run G}
    (hput : Exec service Eq p s u q s')
    (hstopped : ∀ x ∈ uploads u, x.1 ≠ checkpointBlobPath t ns checkpoint.id) :
    Unseen S t ns checkpoint.id newVersions s s' := by
  obtain rfl : p = put S bound config checkpoint metadata newVersions := hp.elim id id
  have hreach : Reachable S s' :=
    hs.step (.put bound config checkpoint metadata newVersions) ⟨u, _, Exec.bind _ hput⟩
  have hadds : (put S bound config checkpoint metadata newVersions).Uses Listed
      (Adds (PutKey t ns checkpoint.id newVersions)) := by
    refine adds_put fun t' ns' ht hns k hk => ?_
    cases ht.symm.trans hasks.threadId
    cases hns.symm.trans hasks.ns
    exact hk
  have hnot : ¬ Committed s' t ns checkpoint.id := by
    rwa [committed_iff, content_exec hadds hput, lastUpload_eq_none hstopped, Option.none_or,
      ← committed_iff]
  have hother {t' ns' id' : String} (hc : Committed s t' ns' id') :
      ¬ (t' = t ∧ ns' = ns ∧ id' = checkpoint.id) := by
    rintro ⟨rfl, rfl, rfl⟩
    exact hfresh hc
  refine ⟨fun asked hasked hid => ?_, fun q' listed tuples s'' hlisted hends tuple hmem => ?_,
    fun {t' ns' id'} hc config' => ?_⟩
  · have hnone := view_buildTuple_of_not_committed (S := S) hnot asked
    rw [← view_getTuple hasked hid] at hnone
    exact ⟨returns_look (looks_getTuple asked) hnone, returns_look (looks_getTuple asked) hnone⟩
  · obtain rfl : listed = list S q' := hlisted.elim id id
    have hview := (hends.look (looks_list q')).1.symm
    obtain ⟨selection, beforeId, hq, hbefore⟩ := exists_selection hview
    obtain ⟨reference, -, hmatches, tuples', hview', -, hall⟩ := list_exact hS hreach hq hbefore
    cases hview.symm.trans hview'
    obtain ⟨row, hrow, hbuilt, -⟩ := exists_of_forall₂ hall hmem
    have hcommitted := ((hmatches row).mp (mem_of_mem_cut hrow)).committed
    rw [(hreach.sound hS).config_buildTuple hcommitted hbuilt]
    intro hconfig
    simp only [Row.config, checkpointConfig, RunnableConfig.mk.injEq, Option.some.injEq,
      Configurable.mk.injEq, and_true] at hconfig
    obtain ⟨ht, hns, hid⟩ := hconfig
    rw [ht, hns, hid] at hcommitted
    exact hnot hcommitted
  · have hagree {name : String} (hname : ∀ k, PutKey t ns checkpoint.id newVersions k →
        k.path ≠ name) : s'.get? name = s.get? name := get?_exec hadds hput hname
    have hmarker : s'.get? (checkpointBlobPath t' ns' id') = s.get? (checkpointBlobPath t' ns' id') :=
      hagree fun k hk => path_ne (l := .checkpoint t' ns' id') fun heq =>
        not_putKey_checkpoint (hother hc) (heq ▸ hk)
    have hmetadata : s'.get? (metadataBlobPath t' ns' id') = s.get? (metadataBlobPath t' ns' id') :=
      hagree fun k hk => path_ne (l := .metadata t' ns' id') fun heq =>
        not_putKey_metadata (hother hc) (heq ▸ hk)
    have hwrites : Container.Agree (Names.startswith · (writesPrefix t' ns' id')) s s' :=
      fun name hname => (hagree fun k hk heq => not_startswith_writes hk (heq ▸ hname)).symm
    obtain ⟨tuple, values, hold, hnew, hvalues⟩ :=
      (hs.sound hS).same_tuple (hreach.sound hS) hc hmarker hmetadata hwrites config'
    refine ⟨tuple, values, hold, hnew, fun channel hchannel => hvalues channel fun version hget => ?_⟩
    refine hagree fun k hk => path_ne (l := .value t' ns' channel version.text) fun heq => ?_
    subst heq
    obtain ⟨ht, hns, e, he, hchannel', htext⟩ := putKey_value hk
    exact hchannel version hget ⟨ht, hns, e, he, hchannel', htext⟩

/-- A put, ended or stopped. -/
theorem put_atomic (hS : S.serde.Lawful) (hs : Reachable S s) {config : RunnableConfig G}
    {parent : Option String} (hasks : Asks config t ns parent) {checkpoint : Checkpoint V R}
    (hid : checkpoint.id ≠ "") {bound : Option G} {metadata : Dict String V}
    {newVersions : ChannelVersions} {p q : Call G (RunnableConfig G)}
    (hp : p = put S bound config checkpoint metadata newVersions ∨
      p = aput S bound config checkpoint metadata newVersions) {u : Run G}
    (hput : Exec service Eq p s u q s₁) :
    (∀ a w s' asked read, q = .ofExcept (.ok a) → Later S t ns checkpoint.id s₁ w s' →
      Asks asked t ns (some checkpoint.id) → read = getTuple S asked ∨ read = agetTuple S asked →
      (∃ tuple, Returns read s' (some tuple) ∧ RoundTrip S config checkpoint metadata t ns parent
        (lastValue S t ns s newVersions checkpoint.channelValues w) tuple) ∧
      ∀ x ∈ w, ∀ channel version c, (valueBlobPath t ns channel version, c) ∈ uploads x.2 →
        x.1.Stores t ns channel version (valueOf S c)) ∧
    ((∀ x ∈ uploads u, x.1 ≠ checkpointBlobPath t ns checkpoint.id) →
      ¬ Committed s t ns checkpoint.id → Unseen S t ns checkpoint.id newVersions s s₁) := by
  refine ⟨fun a w s' asked read hq hlater hasked hread => ?_, fun hstopped hfresh => ?_⟩
  · subst hq
    exact ⟨round_trip hS hs hasks hid hasked hp hput hlater hread, hlater.stores hS⟩
  · exact put_unseen hS hs hasks hfresh hp hput hstopped

open TextSerde

def versionOne : ChannelVersions := Dict.ofList [("x", .str "1")]

def valued (id x : String) : Checkpoint String Unit := ⟨⟨id, versionOne, ()⟩, Dict.ofList [("x", x)]⟩

def idle : Empty → Except Exn Unit := fun _ => .ok ()

def putValued (n : Nat) (id x : String) (newVersions : ChannelVersions) (s : Store) : Store :=
  stoppedAfter idle 0 n (put textSaver none (configOf "t") (valued id x) ∅ newVersions) s

def oneValue : Store := putValued 9 "a" "old" versionOne ∅

theorem reachable_putValued {s : Store} (hs : Reachable textSaver s) (n : Nat) (id x : String)
    (newVersions : ChannelVersions) : Reachable textSaver (putValued n id x newVersions s) := by
  obtain ⟨u, h, -⟩ := exec_stoppedAfter idle 0 n
    (put textSaver none (configOf "t") (valued id x) ∅ newVersions) s
  exact hs.step (.put none (configOf "t") (valued id x) ∅ newVersions) ⟨u, _, Exec.bind _ h⟩

def valueRead (s : Store) (id : String) : Option (Option String) :=
  (view s (buildTuple textSaver "t" "" id (checkpointConfig "t" "" id))).toOption.join.map
    fun tuple => tuple.checkpoint.channelValues.get? "x"

def returned {α : Type} : Call G α → Option α
  | .ret a => some a
  | _ => none

theorem eq_of_returned {α : Type} {p : Call G α} (h : (returned p).isSome) :
    ∃ a, p = .ofExcept (.ok a) := by
  cases p with
  | ret a => exact ⟨a, rfl⟩
  | raise e => cases h
  | call o k => cases h

theorem exec_putValued (n : Nat) (id x : String) (newVersions : ChannelVersions) (s : Store) :
    ∃ u, Exec service Eq (put textSaver none (configOf "t") (valued id x) ∅ newVersions) s u
        (restAfter idle 0 n (put textSaver none (configOf "t") (valued id x) ∅ newVersions) s)
        (putValued n id x newVersions s) ∧
      uploads u = uploadsAfter idle 0 n
        (put textSaver none (configOf "t") (valued id x) ∅ newVersions) s :=
  exec_stoppedAfter idle 0 n _ s

theorem put_atomic_rehearsed :
    (∃ (w : List (Request String Unit Empty × Run Empty)) (s' : Store)
        (tuple : CheckpointTuple String Unit Empty),
      Later textSaver "t" "" "a" oneValue w s' ∧ w.length = 1 ∧
      Returns (getTuple textSaver (checkpointConfig "t" "" "a")) s' (some tuple) ∧
      RoundTrip textSaver (configOf "t") (valued "a" "old") ∅ "t" "" none
        (lastValue textSaver "t" "" ∅ versionOne (valued "a" "old").channelValues w) tuple ∧
      tuple.checkpoint.channelValues.get? "x" = some "new") ∧
    Unseen textSaver "t" "" "b" versionOne oneValue (putValued 4 "b" "new" versionOne oneValue) := by
  obtain ⟨u, hput, -⟩ := exec_putValued 9 "a" "old" versionOne ∅
  obtain ⟨a, hrest⟩ := eq_of_returned (p := restAfter idle 0 9
    (put textSaver none (configOf "t") (valued "a" "old") ∅ versionOne) ∅) (by decide +kernel)
  rw [hrest] at hput
  obtain ⟨u', hhalf, hu'⟩ := exec_putValued 4 "b" "new" versionOne oneValue
  have hlater : Later textSaver "t" "" "a" oneValue
      [(.put none (configOf "t") (valued "b" "new") ∅ versionOne, u')]
      (putValued 4 "b" "new" versionOne oneValue) :=
    .cons (.put none (configOf "t") (valued "b" "new") ∅ versionOne)
      (fun h => absurd h.2.2 (by decide)) (Exec.bind _ hhalf) .nil
  obtain ⟨⟨tuple, hreturns, htuple⟩, hstores⟩ := (put_atomic lawful_textSerde .empty ⟨rfl, rfl, rfl⟩
    (by decide) (.inl rfl) hput).1 a _ _ (checkpointConfig "t" "" "a") _ rfl hlater
      ⟨rfl, rfl, rfl⟩ (.inl rfl)
  have hnew : tuple.checkpoint.channelValues.get? "x" = some "new" := by
    rw [htuple.values]
    change lastValue textSaver "t" "" ∅ versionOne _ _ "x" (.str "1") = some "new"
    rw [lastValue, uploadsAll, List.flatMap_singleton, hu']
    decide +kernel
  refine ⟨⟨_, _, tuple, hlater, rfl, hreturns, htuple, hnew⟩, ?_⟩
  refine (put_atomic lawful_textSerde (reachable_putValued .empty 9 "a" "old" versionOne)
    ⟨rfl, rfl, rfl⟩ (by decide) (.inl rfl) hhalf).2 ?_ ?_
  · rw [hu']
    decide +kernel
  · rw [committed_iff]
    decide +kernel

def emptied : Store := stoppedAfter idle 0 9 (deleteThread "t") oneValue

/-- Half a put replaces a value that another checkpoint refers to, and a value that was deleted is
not read although it was uploaded. -/
theorem put_shares_values :
    (¬ ∀ (s s' : Store) (u : Run Empty) (q : Call Empty (RunnableConfig Empty))
      (checkpoint : Checkpoint String Unit) (newVersions : ChannelVersions) (id : String),
      Reachable textSaver s →
      Exec service Eq (put textSaver none (configOf "t") checkpoint ∅ newVersions) s u q s' →
      (∀ x ∈ uploads u, x.1 ≠ checkpointBlobPath "t" "" checkpoint.id) →
      ¬ Committed s "t" "" checkpoint.id → Committed s "t" "" id →
      view s (buildTuple textSaver "t" "" id (checkpointConfig "t" "" id)) =
        view s' (buildTuple textSaver "t" "" id (checkpointConfig "t" "" id))) ∧
    ∃ (u u' : Run Empty) (s s' : Store) (a b : RunnableConfig Empty),
      Exec service Eq (put textSaver none (configOf "t") (valued "a" "old") ∅ versionOne) ∅ u
        (.ofExcept (.ok a)) oneValue ∧
      Leads (deleteThread "t" : Call Empty Unit) oneValue s ∧
      Exec service Eq (put textSaver none (configOf "t") (valued "b" "new") ∅ ∅) s u'
        (.ofExcept (.ok b)) s' ∧
      (lastUpload (valueBlobPath "t" "" "x" "1") (uploads u ++ uploads u')).bind
        (valueOf textSaver) = some "old" ∧ valueRead s' "b" = some none := by
  refine ⟨fun h => ?_, ?_⟩
  · obtain ⟨u, hhalf, hu⟩ := exec_putValued 4 "b" "new" versionOne oneValue
    have hsame := h oneValue _ u _ (valued "b" "new") versionOne "a"
      (reachable_putValued .empty 9 "a" "old" versionOne) hhalf
      (by rw [hu]; decide +kernel) (by rw [committed_iff]; decide +kernel)
      (by rw [committed_iff]; decide +kernel)
    have hread : valueRead oneValue "a" =
        valueRead (putValued 4 "b" "new" versionOne oneValue) "a" := by
      rw [valueRead, hsame, valueRead]
    exact absurd hread (by decide +kernel)
  · obtain ⟨u, hput, hu⟩ := exec_putValued 9 "a" "old" versionOne ∅
    obtain ⟨a, hrest⟩ := eq_of_returned (p := restAfter idle 0 9
      (put textSaver none (configOf "t") (valued "a" "old") ∅ versionOne) ∅) (by decide +kernel)
    obtain ⟨u', hput', hu'⟩ := exec_putValued 9 "b" "new" ∅ emptied
    obtain ⟨b, hrest'⟩ := eq_of_returned (p := restAfter idle 0 9
      (put textSaver none (configOf "t") (valued "b" "new") ∅ ∅) emptied) (by decide +kernel)
    rw [hrest] at hput
    rw [hrest'] at hput'
    refine ⟨u, u', emptied, putValued 9 "b" "new" ∅ emptied, a, b, hput,
      leads_stoppedAfter idle 0 9 _ _, hput', ?_, by decide +kernel⟩
    rw [hu, hu']
    decide +kernel

end LangGraphFunctions.Checkpointers.AzureBlob

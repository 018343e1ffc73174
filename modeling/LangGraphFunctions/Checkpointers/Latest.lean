import LangGraphFunctions.Checkpointers.BlobReach
import LangGraphFunctions.Checkpointers.TextSerde

/-! The latest checkpoint is the greatest committed one, wherever the writer was stopped. -/

namespace LangGraphFunctions.Checkpointers.AzureBlob

open Lib

variable {V R G : Type} {S : Saver V R G} {s s' : Store} {t ns id : String}

theorem Ends.look {α : Type} {N : String → Prop} {p : Call G α} {r : Except Exn α}
    (h : Ends p s r s') (hp : Looks N p) : r = view s p ∧ s' = s :=
  h.keeps (C := fun _ => True) (Q := fun r s' => r = view s p ∧ s' = s)
    (keeps_look hp trivial ⟨rfl, rfl⟩)

theorem ends_look {α : Type} {N : String → Prop} {p : Call G α} (hp : Looks N p) :
    Ends p s (view s p) s := by
  have h := ends_run (fun _ => .ok ()) 0 p s
  rwa [run_look hp] at h

theorem Named.exists_latest (hs : Named s) (h : Committed s t ns id) : ∃ id, Latest s t ns id := by
  cases hhead : (checkpointIds s t ns).head? with
  | none => exact absurd h (hs.head?_checkpointIds_none.mp hhead id)
  | some latest => exact ⟨latest, hs.head?_checkpointIds.mp hhead⟩

/-- What a read of the latest checkpoint gives, and that the pointer tells what the scan does. -/
structure ReadsLatest (S : Saver V R G) (s : Store) (t ns : String)
    (p : Call G (Option (CheckpointTuple V R G))) : Prop where
  found : ∀ {id}, Latest s t ns id → ∃ tuple,
    view s (buildTuple S t ns id (checkpointConfig t ns id)) = .ok (some tuple) ∧
      Ends p s (.ok (some tuple)) s ∧ ∀ r s', Ends p s r s' → r = .ok (some tuple) ∧ s' = s
  none_iff : (∃ s', Ends p s (.ok none) s') ↔ ∀ id, ¬ Committed s t ns id
  hint : ∀ {id}, latestAt s t ns = some id → Committed s t ns id →
    view s (findLatestCheckpointId t ns : Call G _) = .ok (some id)

theorem reads_latest (hS : S.serde.Lawful) (hs : Reachable S s) {config : RunnableConfig G}
    {asked : Option String} (hasks : Asks config t ns asked) (hasked : asked.getD "" = "")
    {p : Call G (Option (CheckpointTuple V R G))}
    (hp : p = getTuple S config ∨ p = agetTuple S config) : ReadsLatest S s t ns p := by
  have hsound := hs.sound hS
  obtain rfl : p = getTuple S config := hp.elim id id
  have hlook := looks_getTuple (S := S) config
  have hfound : ∀ {id}, Latest s t ns id → ∃ tuple,
      view s (buildTuple S t ns id (checkpointConfig t ns id)) = .ok (some tuple) ∧
        view s (getTuple S config) = .ok (some tuple) := by
    intro id hid
    obtain ⟨tuple, htuple⟩ := hsound.view_buildTuple hid.1 (checkpointConfig t ns id)
    exact ⟨tuple, htuple, (hsound.view_latest hasks hasked hid).trans htuple⟩
  refine ⟨fun hid => ?_, ⟨?_, fun hnone => ⟨s, ?_⟩⟩, fun hlatest hc => ?_⟩
  · obtain ⟨tuple, htuple, hview⟩ := hfound hid
    refine ⟨tuple, htuple, hview ▸ ends_look hlook, fun r s' hends => ?_⟩
    rw [← hview]
    exact hends.look hlook
  · rintro ⟨s', hends⟩ id hc
    obtain ⟨latest, hid⟩ := hsound.named.exists_latest hc
    obtain ⟨tuple, -, hview⟩ := hfound hid
    cases (hends.look hlook).1.trans hview
  · have h := ends_look (s := s) hlook
    rwa [hsound.view_latest_none hasks hasked hnone] at h
  · rw [view_findLatestCheckpointId]
    exact congrArg _ (hsound.named.head?_checkpointIds.mpr ⟨hc, hsound.latest t ns _ hlatest hc⟩)

def stoppedPut : Store :=
  stoppedAfter (fun _ => .ok ()) 0 4
    ((TextSerde.putOf "t" "" "B" ∅ ∅).program TextSerde.textSaver) TextSerde.twoCheckpoints

theorem reads_latest_stoppedPut :
    ReadsLatest TextSerde.textSaver stoppedPut "t" "" (getTuple TextSerde.textSaver
      ⟨some ⟨some "t", some "", none, none⟩⟩) ∧ latestAt stoppedPut "t" "" = none := by
  have hreach : Reachable TextSerde.textSaver stoppedPut :=
    TextSerde.reachable_twoCheckpoints.step (TextSerde.putOf "t" "" "B" ∅ ∅)
      (leads_stoppedAfter _ _ _ _ _)
  exact ⟨reads_latest TextSerde.lawful_textSerde hreach ⟨rfl, rfl, rfl⟩ rfl (.inl rfl),
    by decide +kernel⟩

end LangGraphFunctions.Checkpointers.AzureBlob

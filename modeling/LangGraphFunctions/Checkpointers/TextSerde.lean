import LangGraphFunctions.Checkpointers.BlobSound

/-! A serializer for checkpoints whose values are texts. -/

namespace LangGraphFunctions.Checkpointers.TextSerde

open Lib AzureBlob

def encode (texts : List String) : String := Names.join '/' ((("" :: texts).map Percent.quote))

def decode (s : String) : List String := ((Names.split '/' s).map Percent.unquote).tail

theorem decode_encode (texts : List String) : decode (encode texts) = texts := by
  have hplain : Names.Plain '/' (("" :: texts).map Percent.quote) := by
    intro s hs
    obtain ⟨text, -, rfl⟩ := List.mem_map.mp hs
    exact Percent.not_mem_quote (by decide) (by decide)
  have hround : (fun text => Percent.unquote (Percent.quote text)) = id :=
    funext Percent.unquote_quote
  rw [decode, encode, Names.split_join hplain (by simp), List.map_map]
  change (("" :: texts).map fun text => Percent.unquote (Percent.quote text)).tail = texts
  rw [hround, List.map_id]
  rfl

def ofPairs (pairs : List (String × String)) : List String := pairs.flatMap fun p => [p.1, p.2]

def toPairs : List String → List (String × String)
  | k :: v :: rest => (k, v) :: toPairs rest
  | _ => []

theorem toPairs_ofPairs (pairs : List (String × String)) : toPairs (ofPairs pairs) = pairs := by
  induction pairs with
  | nil => rfl
  | cons p pairs ih =>
    rw [ofPairs, List.flatMap_cons]
    exact congrArg ((p.1, p.2) :: ·) ih

def ofVersion : Version → List String
  | .str s => ["str", s]
  | .int n => ["int", toString n]
  | .float repr => ["float", repr]

def ofVersions (versions : List (String × Version)) : List String :=
  versions.flatMap fun e => e.1 :: ofVersion e.2

def toVersion (kind text : String) : Version :=
  if kind = "int" then .int ((Decimal.int text).getD 0)
  else if kind = "float" then .float text
  else .str text

def toVersions : List String → List (String × Version)
  | channel :: kind :: text :: rest => (channel, toVersion kind text) :: toVersions rest
  | _ => []

theorem toVersions_ofVersions (versions : List (String × Version)) :
    toVersions (ofVersions versions) = versions := by
  induction versions with
  | nil => rfl
  | cons e versions ih =>
    obtain ⟨channel, version⟩ := e
    have hcons : ofVersions ((channel, version) :: versions) =
        channel :: ofVersion version ++ ofVersions versions := rfl
    rw [hcons]
    cases version with
    | str s =>
      change (channel, toVersion "str" s) :: toVersions (ofVersions versions) = _
      rw [ih, toVersion, if_neg (by decide), if_neg (by decide)]
    | int n =>
      change (channel, toVersion "int" (toString n)) :: toVersions (ofVersions versions) = _
      rw [ih, toVersion, if_pos rfl, Decimal.int_toString]
      rfl
    | float repr =>
      change (channel, toVersion "float" repr) :: toVersions (ofVersions versions) = _
      rw [ih, toVersion, if_neg (by decide), if_pos rfl]

def ofData : Datum String Unit → String × List String
  | .value v => ("value", [v])
  | .metadata m => ("metadata", ofPairs m.items)
  | .checkpoint data => ("checkpoint", data.id :: ofVersions data.channelVersions.items)

def toData (kind : String) (texts : List String) : Option (Datum String Unit) :=
  if kind = "value" then texts.head?.map .value
  else if kind = "metadata" then some (.metadata (Dict.ofList (toPairs texts)))
  else if kind = "checkpoint" then
    texts.head?.map fun id => .checkpoint ⟨id, Dict.ofList (toVersions texts.tail), ()⟩
  else none

theorem toData_ofData (d : Datum String Unit) : toData (ofData d).1 (ofData d).2 = some d := by
  cases d with
  | value v => rfl
  | metadata m =>
    change toData "metadata" (ofPairs m.items) = _
    rw [toData, if_neg (by decide), if_pos rfl, toPairs_ofPairs, Dict.ofList_items]
  | checkpoint data =>
    change toData "checkpoint" (data.id :: ofVersions data.channelVersions.items) = _
    rw [toData, if_neg (by decide), if_neg (by decide), if_pos rfl, List.tail_cons,
      toVersions_ofVersions, Dict.ofList_items]
    rfl

def textSerde : Serde String Unit where
  dumpsTyped d := .ok ((ofData d).1, (encode (ofData d).2).toUTF8)
  loadsTyped typed :=
    match (String.fromUTF8? typed.2).bind fun text => toData typed.1 (decode text) with
    | some d => .ok d
    | none => .error (.valueError "not a serialized datum")

theorem lawful_textSerde : textSerde.Lawful where
  loads {d typed} h := by
    cases h
    simp only [textSerde, fromUTF8?_toUTF8, Option.bind_some, decode_encode, toData_ofData]
  type_ne {d typed} h := by
    cases h
    cases d <;> exact ⟨by simp [ofData], by simp [ofData]⟩

def textSaver : Saver String Unit Empty where
  serde := textSerde
  requireOwnershipGuard := false
  writesIdxMap := Dict.ofList [("__error__", -1), ("__scheduled__", -2), ("__interrupt__", -3),
    ("__resume__", -4)]
  getCheckpointMetadata _ metadata := metadata
  none := "None"
  eq v w := decide (v = w)

abbrev TextRequest := Request String Unit Empty

def rehearse : List TextRequest → Store → Store
  | [], s => s
  | q :: qs, s => rehearse qs ((q.program textSaver).run (serve (fun _ => .ok ()) 0) s).2

theorem reachable_rehearse {s : Store} (h : Reachable textSaver s) (qs : List TextRequest) :
    Reachable textSaver (rehearse qs s) := by
  induction qs generalizing s with
  | nil => exact h
  | cons q qs ih => exact ih (h.step q (ends_run (fun _ => .ok ()) 0 (q.program textSaver) s).leads)

def putOf (t ns id : String) (versions : ChannelVersions) (values : Dict String String) :
    TextRequest :=
  .put none ⟨some ⟨some t, some ns, none, none⟩⟩ ⟨⟨id, versions, ()⟩, values⟩ ∅ versions

def twoCheckpoints : Store := rehearse [putOf "t" "" "" ∅ ∅, putOf "t" "" "a" ∅ ∅] ∅

theorem reachable_twoCheckpoints : Reachable textSaver twoCheckpoints :=
  reachable_rehearse .empty _

end LangGraphFunctions.Checkpointers.TextSerde

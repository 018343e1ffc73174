import LangGraphFunctions.Stores.TableJsonLaws
import LangGraphFunctions.Lib.JsonLaws
import Mathlib.Data.List.Perm.Subperm
import Mathlib.Data.List.Induction

/-! JSON fields of a row under one rewrite after another. -/

namespace LangGraphFunctions.Stores

open Lib

variable {entity entity' : Entity} {field key encoded : String}

abbrev InPlace := ExceptT Exn (StateM Entity)

def delete (key : String) : InPlace Unit := modify (·.erase key)

def assign (key : String) (value : Property) : InPlace Unit := modify (·.set key value)

def writeJsonIn (field : String) (value : Json.Value) : InPlace Unit := do
  let encoded ← liftExcept (dumps value false)
  (← get).keys.forM fun key => if ownsKey field key then delete key else pure ()
  if utf16Size encoded ≤ propertyBytes then assign field (.str encoded)
  else
    assign (partKey field "format") (.str "utf16-v1")
    let parts := chunks chunkCharacters encoded.toList
    assign (partKey field "count") (.int parts.length)
    parts.zipIdx.forM fun part => assign (partKey field (toString part.2)) (.str part.1)

def InPlace.on {α : Type} (p : InPlace α) (e : Entity) : Except Exn α × Entity :=
  StateT.run (ExceptT.run p) e

theorem on_bind {α β : Type} {p : InPlace α} {q : α → InPlace β} {e e' : Entity} {a : α}
    (h : p.on e = (.ok a, e')) : (p >>= q).on e = (q a).on e' := by
  change StateT.run (ExceptT.bindCont q (p.on e).1) (p.on e).2 = _
  rw [h]
  rfl

theorem on_forM {α : Type} (f : α → Entity → Entity) (xs : List α) (e : Entity) :
    InPlace.on (xs.forM fun x => (modify (f x) : InPlace PUnit)) e =
      (.ok (), xs.foldl (fun e x => f x e) e) := by
  induction xs generalizing e with
  | nil => rfl
  | cons x xs ih => exact ih (f x e)

theorem on_clear (e : Entity) : InPlace.on (e.keys.forM fun key =>
    if ownsKey field key then delete key else pure ()) e =
      (.ok (), e.filterKeys fun key => !ownsKey field key) := by
  have hstep : (fun key => if ownsKey field key then delete key else pure () : String → InPlace PUnit) =
      fun key => modify fun e => if ownsKey field key then e.erase key else e := by
    funext key
    split <;> rfl
  rw [hstep, on_forM, Dict.foldl_erase_keys]

theorem on_writeJsonIn_error {value : Json.Value} {x : Exn} (h : dumps value false = .error x)
    (e : Entity) : (writeJsonIn field value).on e = (.error x, e) := by
  rw [writeJsonIn, h]
  rfl

theorem on_writeJsonIn {value : Json.Value} (h : dumps value false = .ok encoded) (e : Entity) :
    (writeJsonIn field value).on e = (.ok (), writeText e field encoded) := by
  have hencoded : InPlace.on (liftExcept (dumps value false)) e = (.ok encoded, e) := by
    rw [h]
    rfl
  have hkeys : InPlace.on get e = (.ok e, e) := rfl
  rw [writeJsonIn, on_bind hencoded, on_bind hkeys, on_bind (on_clear e), writeText, jsonProperties]
  split
  · rfl
  · have hformat (e : Entity) : InPlace.on (assign (partKey field "format") (.str "utf16-v1")) e =
        (.ok (), e.set (partKey field "format") (.str "utf16-v1")) := rfl
    have hcount (n : Nat) (e : Entity) : InPlace.on (assign (partKey field "count") (.int n)) e =
        (.ok (), e.set (partKey field "count") (.int n)) := rfl
    rw [on_bind (hformat _)]
    generalize chunks chunkCharacters encoded.toList = parts
    refine (on_bind (hcount _ _)).trans ?_
    simp only [List.mapIdx_eq_zipIdx_map, List.foldl_cons, List.foldl_map]
    exact on_forM (fun (part : String × Nat) e =>
      e.set (partKey field (toString part.2)) (.str part.1)) parts.zipIdx _

theorem flatMap_chunks {α : Type} (n k : Nat) (cs : List α) :
    (List.range k).flatMap (fun i => (cs.drop (i * n)).take n) = cs.take (k * n) := by
  induction k with
  | zero => simp
  | succ k ih =>
    rw [List.range_succ, List.flatMap_append, ih, List.flatMap_singleton, Nat.succ_mul,
      List.take_add]

theorem join_chunks {n : Nat} (hn : 0 < n) (cs : List Char) :
    String.join (chunks n cs) = String.ofList cs := by
  have hlong : cs.length ≤ (cs.length + n - 1) / n * n := by
    have hdiv := Nat.div_add_mod (cs.length + n - 1) n
    have hmod := Nat.mod_lt (cs.length + n - 1) hn
    rw [Nat.mul_comm] at hdiv
    omega
  refine String.toList_inj.mp ?_
  rw [String.toList_join, chunks, List.flatMap_map, String.toList_ofList]
  simp only [String.toList_ofList]
  rw [flatMap_chunks, List.take_of_length_le hlong]

theorem length_le_of_mem_chunks {n : Nat} {cs : List Char} {part : String}
    (h : part ∈ chunks n cs) : part.toList.length ≤ n ∧ part.toList ⊆ cs := by
  obtain ⟨i, -, rfl⟩ := List.mem_map.mp h
  rw [String.toList_ofList]
  exact ⟨List.length_take_le .., fun c hc => List.mem_of_mem_drop (List.mem_of_mem_take hc)⟩

def Ascii (s : String) : Prop := ∀ c ∈ s.toList, c.toNat < 0x80

theorem utf16Size_le_of_ascii {cs : List Char} (h : ∀ c ∈ cs, c.toNat < 0x80) :
    (cs.map fun c => if c.toNat < 0x10000 then 2 else 4).sum = cs.length * 2 := by
  induction cs with
  | nil => rfl
  | cons c cs ih =>
    obtain ⟨hc, hcs⟩ := List.forall_mem_cons.mp h
    rw [List.map_cons, List.sum_cons, ih hcs, if_pos (by omega), List.length_cons]
    omega

theorem utf16Size_jsonProperties (hascii : Ascii encoded) {p : String × Property} {s : String}
    (hp : p ∈ jsonProperties field encoded) (hs : p.2 = .str s) : utf16Size s ≤ propertyBytes := by
  rw [jsonProperties] at hp
  split at hp
  · next hshort =>
    rw [List.mem_singleton.mp hp] at hs
    cases hs
    exact hshort
  · simp only [List.mem_cons] at hp
    obtain rfl | rfl | hp := hp
    · cases hs
      decide
    · cases hs
    · obtain ⟨i, hi, rfl⟩ := List.mem_mapIdx.mp hp
      cases hs
      obtain ⟨hlength, hsub⟩ := length_le_of_mem_chunks (List.getElem_mem hi)
      rw [utf16Size, utf16Size_le_of_ascii fun c hc => hascii c (hsub hc)]
      exact (Nat.mul_le_mul_right 2 hlength).trans (by decide)

theorem partKey_inj {part part' : String} : partKey field part = partKey field part' ↔
    part = part' := by
  constructor
  · intro h
    have h' := congrArg String.toList h
    simp only [partKey, String.toList_append] at h'
    exact String.toList_inj.mp (List.append_cancel_left (List.append_cancel_left h'))
  · rintro rfl
    rfl

theorem partKey_ne (field part : String) : partKey field part ≠ field := fun h => by
  have h' := congrArg (fun s : String => s.toList.length) h
  simp [partKey] at h'

theorem isDigit_of_mem_toString (n : Nat) : ∀ c ∈ (toString n).toList, c.isDigit := by
  intro c hc
  rw [Nat.toString_eq_repr, Nat.toList_repr] at hc
  exact List.all_eq_true.mp (Json.toDigits_all n) c hc

theorem toString_injective : Function.Injective (toString : Nat → String) := by
  intro i j h
  have htext : (toString i).toList = (toString j).toList := congrArg String.toList h
  rw [Nat.toString_eq_repr, Nat.toString_eq_repr, Nat.toList_repr, Nat.toList_repr] at htext
  have hread := congrArg Json.readNat htext
  rw [Json.readNat_toDigits, Json.readNat_toDigits] at hread
  exact Option.some.inj hread

theorem toString_ne {n : Nat} {part : String} {c : Char} (hc : c ∈ part.toList)
    (hdigit : c.isDigit = false) : toString n ≠ part := fun h => by
  rw [← h] at hc
  rw [isDigit_of_mem_toString n c hc] at hdigit
  cases hdigit

theorem nodup_jsonProperties (field encoded : String) :
    ((jsonProperties field encoded).map Prod.fst).Nodup := by
  rw [jsonProperties]
  split
  · exact List.nodup_singleton _
  · rw [List.map_cons, List.map_cons, List.nodup_cons, List.nodup_cons]
    have hindex {part : String} {c : Char} (hc : c ∈ part.toList) (hdigit : c.isDigit = false) :
        partKey field part ∉ ((chunks chunkCharacters encoded.toList).mapIdx fun i part =>
          (partKey field (toString i), Property.str part)).map Prod.fst := by
      intro h
      obtain ⟨p, hp, hkey⟩ := List.mem_map.mp h
      obtain ⟨i, hi, rfl⟩ := List.mem_mapIdx.mp hp
      exact toString_ne hc hdigit (partKey_inj.mp hkey)
    refine ⟨fun h => ?_, hindex (c := 'c') (by decide) (by decide), ?_⟩
    · obtain h | h := List.mem_cons.mp h
      · exact absurd (partKey_inj.mp h) (by decide)
      · exact hindex (c := 'f') (by decide) (by decide) h
    · rw [List.mapIdx_eq_zipIdx_map, List.map_map]
      change ((chunks chunkCharacters encoded.toList).zipIdx.map
        ((fun i => partKey field (toString i)) ∘ Prod.snd)).Nodup
      rw [← List.map_map, List.zipIdx_map_snd]
      refine List.Nodup.map (fun i j h => ?_) List.nodup_range'
      exact toString_injective (partKey_inj.mp h)

theorem get?_writeText_of_owns (h : ownsKey field key) :
    (writeText entity field encoded).get? key = (jsonProperties field encoded).lookup key := by
  have hnodup := nodup_jsonProperties field encoded
  rw [writeText, Dict.get?_foldl_set _ hnodup]
  cases (jsonProperties field encoded).lookup key with
  | some v => rfl
  | none => simp [h]

/-- The text that is kept under `field`: none, one written by `write_json`, or a single property. -/
def Keeps (e : Entity) (field : String) : Option String → Prop
  | none => ∀ key, ownsKey field key → e.get? key = none
  | some text => (∀ key, ownsKey field key → e.get? key = (jsonProperties field text).lookup key) ∨
    e.get? field = some (.str text) ∧ ∀ key, ownsKey field key → key ≠ field → e.get? key = none

theorem mapM_ok {α β : Type} {f : α → Except Exn β} {g : α → β} {xs : List α}
    (h : ∀ x ∈ xs, f x = .ok (g x)) : xs.mapM f = .ok (xs.map g) := by
  induction xs with
  | nil => rfl
  | cons x xs ih =>
    obtain ⟨hx, hxs⟩ := List.forall_mem_cons.mp h
    rw [List.mapM_cons, hx, ih hxs]
    rfl

theorem length_jsonProperties (h : ¬ utf16Size encoded ≤ propertyBytes) :
    (jsonProperties field encoded).length = (chunks chunkCharacters encoded.toList).length + 2 := by
  rw [jsonProperties, if_neg h, List.length_cons, List.length_cons, List.length_mapIdx]

theorem lookup_jsonProperties {p : String × Property} (h : p ∈ jsonProperties field encoded) :
    (jsonProperties field encoded).lookup p.1 = some p.2 :=
  (Dict.lookup_eq_some_iff (nodup_jsonProperties field encoded)).mpr h

theorem foldlM_measure {items : List (String × Property)} {acc result : Nat × Nat}
    (h : items.foldlM measure acc = .ok result) :
    result.2 = acc.2 + (items.filter isCounted).length := by
  induction items generalizing acc with
  | nil => cases h; rfl
  | cons p items ih =>
    rw [List.foldlM_cons, measure] at h
    rw [List.filter_cons]
    cases hp : isCounted p with
    | false =>
      rw [hp] at h
      exact ih h
    | true =>
      rw [hp] at h
      cases hv : valueSize p.2 with
      | error e => rw [hv] at h; cases h
      | ok n =>
        rw [hv] at h
        have hrest := ih h
        rw [if_pos rfl, List.length_cons]
        omega

theorem length_counted_le (h : validateEntity entity = .ok ()) :
    (entity.items.filter isCounted).length ≤ 254 := by
  rw [validateEntity] at h
  cases hmeasure : entity.items.foldlM measure (4096, 1) with
  | error e => rw [hmeasure] at h; cases h
  | ok result =>
    rw [hmeasure] at h
    have hcount := foldlM_measure hmeasure
    change (if result.2 > 255 then throw _ else _ : Except Exn Unit) = _ at h
    split at h
    · cases h
    · change result.2 = 1 + _ at hcount
      omega

theorem length_jsonProperties_le (hetag : ownsKey field "etag" = false)
    (htimestamp : ownsKey field "Timestamp" = false) (hvalid : validateEntity entity = .ok ())
    (h : ∀ key, ownsKey field key →
      entity.get? key = (jsonProperties field encoded).lookup key) :
    (jsonProperties field encoded).length ≤ 254 := by
  have hsub : (jsonProperties field encoded).map Prod.fst ⊆
      (entity.items.filter isCounted).map Prod.fst := by
    intro key hkey
    obtain ⟨p, hp, rfl⟩ := List.mem_map.mp hkey
    have howns := ownsKey_of_mem_jsonProperties hp
    have hget : entity.get? p.1 = some p.2 := (h p.1 howns).trans (lookup_jsonProperties hp)
    refine List.mem_map.mpr ⟨p, List.mem_filter.mpr ⟨Dict.get?_eq_some_iff.mp hget, ?_⟩, rfl⟩
    have hvalue : p.2 ≠ .none := by
      rw [jsonProperties] at hp
      split at hp
      · rw [List.mem_singleton.mp hp]
        exact Property.noConfusion
      · simp only [List.mem_cons] at hp
        obtain rfl | rfl | hp := hp
        · exact Property.noConfusion
        · exact Property.noConfusion
        · obtain ⟨i, hi, rfl⟩ := List.mem_mapIdx.mp hp
          exact Property.noConfusion
    have hname (name : String) (hname : ownsKey field name = false) : (p.1 == name) = false := by
      refine beq_eq_false_iff_ne.mpr fun heq => ?_
      rw [heq, hname] at howns
      cases howns
    simp [isCounted, hname _ hetag, hname _ htimestamp, hvalue]
  have hle := (List.subperm_of_subset (nodup_jsonProperties field encoded) hsub).length_le
  rw [List.length_map, List.length_map] at hle
  exact hle.trans (length_counted_le hvalid)

theorem chunks_ne_nil {cs : List Char} (h : cs ≠ []) : 1 ≤ (chunks chunkCharacters cs).length := by
  have hpos : 0 < cs.length := List.length_pos_of_ne_nil h
  rw [chunks, List.length_map, List.length_range]
  exact Nat.div_pos (by omega) (by decide)

theorem ok_bind {α β : Type} (a : α) (f : α → Except Exn β) : (Except.ok a >>= f) = f a := rfl

theorem joinChunks_eq {count : Nat} {parts : List String} (hcount : count = parts.length)
    (h : ∀ i (hi : i < parts.length), entity.get? (partKey field (toString i)) =
      some (.str (parts.get ⟨i, hi⟩))) : joinChunks entity field count = .ok (String.join parts) := by
  subst hcount
  have hgetD {i : Nat} (hi : i < parts.length) : parts.getD i "" = parts.get ⟨i, hi⟩ := by
    rw [List.getD_eq_getElem?_getD, List.getElem?_eq_getElem hi]
    rfl
  have hlist : (List.range parts.length).map (fun i => parts.getD i "") = parts := by
    refine List.ext_getElem (by simp) fun i hi hi' => ?_
    rw [List.getElem_map, List.getElem_range]
    exact hgetD hi'
  rw [joinChunks, mapM_ok (g := fun i => Property.str (parts.getD i "")) fun i hi => ?_]
  · rw [ok_bind, List.mapM_map, mapM_ok (g := fun i => parts.getD i "") fun i hi => ?_, ok_bind,
      hlist]
    · rfl
    · rfl
  · rw [h i (List.mem_range.mp hi), hgetD (List.mem_range.mp hi)]

theorem readText_of_keeps (hetag : ownsKey field "etag" = false)
    (htimestamp : ownsKey field "Timestamp" = false) (hvalid : validateEntity entity = .ok ())
    {text : Option String} (h : Keeps entity field text) : readText entity field = .ok text := by
  have hformat := ownsKey_partKey field "format"
  cases text with
  | none => rw [readText, h _ hformat, h _ (ownsKey_self field)]
  | some text =>
    obtain h | ⟨hfield, hrest⟩ := h
    · by_cases hshort : utf16Size text ≤ propertyBytes
      · have hproperties : jsonProperties field text = [(field, .str text)] := if_pos hshort
        rw [readText, h _ hformat, h _ (ownsKey_self field), hproperties]
        simp only [List.lookup_cons, beq_eq_false_iff_ne.mpr (partKey_ne field _), beq_self_eq_true]
        rfl
      · have hlookup {p : String × Property} (hp : p ∈ jsonProperties field text) :
            entity.get? p.1 = some p.2 :=
          (h p.1 (ownsKey_of_mem_jsonProperties hp)).trans (lookup_jsonProperties hp)
        have hproperties : jsonProperties field text = (partKey field "format", .str "utf16-v1") ::
            (partKey field "count", .int (chunks chunkCharacters text.toList).length) ::
              (chunks chunkCharacters text.toList).mapIdx fun i part =>
                (partKey field (toString i), .str part) := if_neg hshort
        have hget : entity.get? (partKey field "format") = some (.str "utf16-v1") :=
          hlookup (p := (_, _)) (by rw [hproperties]; exact List.mem_cons_self)
        have hcount : entity.get? (partKey field "count") =
            some (.int (chunks chunkCharacters text.toList).length) :=
          hlookup (p := (_, _)) (by
            rw [hproperties]
            exact List.mem_cons_of_mem _ List.mem_cons_self)
        have hlower : 1 ≤ (chunks chunkCharacters text.toList).length := by
          refine chunks_ne_nil fun hnil => hshort ?_
          rw [utf16Size, hnil]
          decide
        have hupper := length_jsonProperties_le hetag htimestamp hvalid h
        rw [length_jsonProperties hshort] at hupper
        have hjoin := @joinChunks_eq entity field _ _ rfl fun i hi =>
          hlookup (p := (partKey field (toString i), .str _)) (by
            rw [hproperties]
            refine List.mem_cons_of_mem _ (List.mem_cons_of_mem _ ?_)
            exact List.mem_mapIdx.mpr ⟨i, hi, rfl⟩)
        rw [join_chunks (by decide), String.ofList_toList] at hjoin
        have hread : chunkCount entity field = .ok (chunks chunkCharacters text.toList).length := by
          rw [chunkCount, hcount]
          change (if _ then _ else _) = _
          rw [if_pos ⟨by omega, by omega⟩, Int.toNat_natCast]
        rw [readText, hget]
        change (if Property.str "utf16-v1" = .str "utf16-v1" then _ else _) = _
        rw [if_pos rfl, hread]
        change (do return some (← joinChunks entity field _)) = _
        rw [hjoin]
        rfl
    · rw [readText, hrest _ hformat (partKey_ne field _), hfield]

def jsonFields : List String := ["metadata_json", "values_json", "interrupts_json"]

theorem head?_of_ownsKey (hne : field ≠ "") (h : ownsKey field key) :
    key.toList.head? = field.toList.head? := by
  have hnil : field.toList ≠ [] := fun hnil => hne (String.toList_eq_nil_iff.mp hnil)
  rw [ownsKey, Bool.or_eq_true, beq_iff_eq, Names.startswith_iff] at h
  obtain rfl | ⟨rest, rfl⟩ := h
  · rfl
  · rw [String.toList_append, String.toList_append, List.append_assoc,
      List.head?_append_of_ne_nil _ hnil]

theorem eq_of_ownsKey {field' : String} (hf : field ∈ jsonFields) (hf' : field' ∈ jsonFields)
    (h : ownsKey field key) (h' : ownsKey field' key) : field = field' := by
  have hne : ∀ f ∈ jsonFields, f ≠ "" := by decide
  have hhead : ∀ f ∈ jsonFields, ∀ g ∈ jsonFields, f.toList.head? = g.toList.head? → f = g := by
    decide
  exact hhead _ hf _ hf'
    ((head?_of_ownsKey (hne _ hf) h).symm.trans (head?_of_ownsKey (hne _ hf') h'))

theorem Keeps.congr {text : Option String} (h : Keeps entity field text)
    (hagree : ∀ key, ownsKey field key → entity'.get? key = entity.get? key) :
    Keeps entity' field text := by
  cases text with
  | none => exact fun key hkey => (hagree key hkey).trans (h key hkey)
  | some text =>
    obtain h | ⟨hfield, hrest⟩ := h
    · exact .inl fun key hkey => (hagree key hkey).trans (h key hkey)
    · exact .inr ⟨(hagree field (ownsKey_self field)).trans hfield,
        fun key hkey hne => (hagree key hkey).trans (hrest key hkey hne)⟩

def rewritten (e : Entity) (writes : List (String × Json.Value)) : Entity :=
  writes.foldl (fun e write => ((writeJsonIn write.1 write.2).on e).2) e

theorem rewritten_concat (e : Entity) (writes : List (String × Json.Value))
    (write : String × Json.Value) : rewritten e (writes ++ [write]) =
      ((writeJsonIn write.1 write.2).on (rewritten e writes)).2 := List.foldl_concat ..

def lastWritten (writes : List (String × Json.Value)) (field : String) : Option Json.Value :=
  (writes.reverse.find? fun write => write.1 == field && (dumps write.2 false).isOk).map (·.2)

theorem lastWritten_concat (writes : List (String × Json.Value)) (write : String × Json.Value)
    (field : String) : lastWritten (writes ++ [write]) field =
      if write.1 == field && (dumps write.2 false).isOk then some write.2
      else lastWritten writes field := by
  rw [lastWritten, List.reverse_append, List.reverse_singleton, List.singleton_append,
    List.find?_cons]
  split
  · next h => rw [if_pos h]; rfl
  · next h => rw [if_neg (by simp [h])]; rfl

def lastText (writes : List (String × Json.Value)) (field : String) (original : Option String) :
    Option String :=
  (lastWritten writes field).elim original fun value => (dumps value false).toOption

theorem keeps_rewritten {e : Entity} {original : String → Option String}
    (h : ∀ f ∈ jsonFields, Keeps e f (original f)) (writes : List (String × Json.Value))
    (hfields : ∀ write ∈ writes, write.1 ∈ jsonFields) (hf : field ∈ jsonFields) :
    Keeps (rewritten e writes) field (lastText writes field (original field)) := by
  induction writes using List.reverseRecOn with
  | nil => exact h field hf
  | append_singleton writes write ih =>
    have ih := ih fun w hw => hfields w (List.mem_append_left _ hw)
    have hwrite := hfields write (List.mem_append_right _ List.mem_cons_self)
    rw [rewritten_concat, lastText, lastWritten_concat]
    cases hdumps : dumps write.2 false with
    | error x =>
      rw [on_writeJsonIn_error hdumps, if_neg (by simp [Except.isOk, Except.toBool])]
      exact ih
    | ok text =>
      rw [on_writeJsonIn hdumps]
      by_cases heq : write.1 = field
      · rw [if_pos (by simp [heq, Except.isOk, Except.toBool]), Option.elim_some, hdumps, ← heq]
        exact .inl fun key hkey => get?_writeText_of_owns hkey
      · rw [if_neg (by simp [heq])]
        refine ih.congr fun key hkey => get?_writeText (Bool.eq_false_iff.mpr fun howns => heq ?_)
        exact eq_of_ownsKey hwrite hf howns hkey

/-- What is relied on: the text of a value is ASCII, and loads to it. -/
def Faithful (value : Json.Value) : Prop :=
  ∀ text, dumps value false = .ok text → Ascii text ∧ loads text = .ok value

theorem faithful_of_isJson {value : Json.Value} (h : Json.IsJson value) : Faithful value := by
  intro text htext
  have hjson : Json.dumps .spaced false value = .ok text := by
    rw [dumps] at htext
    cases hdumps : Json.dumps .spaced false value with
    | error e => rw [hdumps] at htext; cases htext
    | ok text' => rw [hdumps] at htext; exact congrArg Except.ok (Except.ok.inj htext)
  refine ⟨fun c hc => ?_, by rw [loads, Json.loads_dumps h hjson]⟩
  rw [Json.dumps] at hjson
  cases hemit : Json.emit .spaced false value with
  | error e => rw [hemit] at hjson; cases hjson
  | ok cs =>
    rw [hemit] at hjson
    cases hjson
    rw [String.toList_ofList] at hc
    exact (Json.printable_emit h hemit c hc).2.trans_lt (by decide)

theorem readJson_of_keeps (hf : field ∈ jsonFields) (hvalid : validateEntity entity = .ok ())
    {text : Option String} (h : Keeps entity field text) (default : Json.Value) :
    readJson entity field default = text.elim (.ok default) loads := by
  have hetag : ∀ f ∈ jsonFields, ownsKey f "etag" = false := by decide
  have htimestamp : ∀ f ∈ jsonFields, ownsKey f "Timestamp" = false := by decide
  rw [readJson, readText_of_keeps (hetag _ hf) (htimestamp _ hf) hvalid h]
  cases text <;> rfl

theorem lastWritten_encodes {writes : List (String × Json.Value)} {value : Json.Value}
    (h : lastWritten writes field = some value) :
    (field, value) ∈ writes ∧ ∃ text, dumps value false = .ok text := by
  obtain ⟨write, hfind, rfl⟩ := Option.map_eq_some_iff.mp h
  have hmem := List.mem_reverse.mp (List.mem_of_find?_eq_some hfind)
  have hcond := List.find?_some hfind
  rw [Bool.and_eq_true, beq_iff_eq] at hcond
  obtain ⟨rfl, hok⟩ := hcond
  refine ⟨hmem, ?_⟩
  cases hdumps : dumps write.2 false with
  | ok text => exact ⟨text, rfl⟩
  | error x => rw [hdumps] at hok; cases hok

/-- Whatever is written, in whatever order: a row that is accepted reads back, and a write changes
no more than the names of its field. -/
theorem rewritten_roundTrip {e : Entity} {original : String → Option String}
    (h : ∀ f ∈ jsonFields, Keeps e f (original f)) (writes : List (String × Json.Value))
    (hfields : ∀ write ∈ writes, write.1 ∈ jsonFields)
    (hfaithful : ∀ write ∈ writes, Faithful write.2) :
    (validateEntity (rewritten e writes) = .ok () → ∀ f ∈ jsonFields, ∀ default,
      readJson (rewritten e writes) f default = (lastWritten writes f).elim
        ((original f).elim (.ok default) loads) .ok) ∧
    ∀ earlier write later, writes = earlier ++ write :: later →
      (∀ x, dumps write.2 false = .error x →
        (writeJsonIn write.1 write.2).on (rewritten e earlier) = (.error x, rewritten e earlier)) ∧
      (∀ text, dumps write.2 false = .ok text →
        ((writeJsonIn write.1 write.2).on (rewritten e earlier)).1 = .ok () ∧
        (∀ key, ownsKey write.1 key → (rewritten e (earlier ++ [write])).get? key =
          (jsonProperties write.1 text).lookup key) ∧
        ∀ p ∈ jsonProperties write.1 text, ∀ s, p.2 = .str s → utf16Size s ≤ propertyBytes) ∧
      ∀ key, ownsKey write.1 key = false →
        (rewritten e (earlier ++ [write])).get? key = (rewritten e earlier).get? key := by
  refine ⟨fun hvalid f hf default => ?_, ?_⟩
  · rw [readJson_of_keeps hf hvalid (keeps_rewritten h writes hfields hf), lastText]
    cases hlast : lastWritten writes f with
    | none => rfl
    | some value =>
      obtain ⟨hmem, text, htext⟩ := lastWritten_encodes hlast
      rw [Option.elim_some, Option.elim_some, htext]
      exact (hfaithful _ hmem text htext).2
  · rintro earlier write later rfl
    have hmem : write ∈ earlier ++ write :: later := List.mem_append_right _ List.mem_cons_self
    refine ⟨fun x hx => on_writeJsonIn_error hx _, fun text htext => ⟨?_, fun key hkey => ?_, ?_⟩,
      fun key hkey => ?_⟩
    · rw [on_writeJsonIn htext]
    · rw [rewritten_concat, on_writeJsonIn htext]
      exact get?_writeText_of_owns hkey
    · exact fun p hp s hs => utf16Size_jsonProperties (hfaithful write hmem text htext).1 hp hs
    · rw [rewritten_concat]
      cases hdumps : dumps write.2 false with
      | error x => rw [on_writeJsonIn_error hdumps]
      | ok text =>
        rw [on_writeJsonIn hdumps]
        exact get?_writeText hkey

def legacyRow : Entity :=
  Dict.ofList [("PartitionKey", .str "thread"), ("RowKey", .str "t"), ("values_json", .str "[]"),
    ("interrupts_json", .str "\x7b\x7d")]

def legacyText (field : String) : Option String :=
  if field = "values_json" then some "[]"
  else if field = "interrupts_json" then some "\x7b\x7d" else none

theorem get?_eq_none_of_keys (h : ∀ key ∈ entity.keys, ownsKey field key = true → key = field)
    (hkey : ownsKey field key) (hne : key ≠ field) : entity.get? key = none := by
  refine Option.eq_none_iff_forall_ne_some.mpr fun v hv => hne ?_
  exact h key (Dict.mem_keys_iff.mpr ⟨v, hv⟩) hkey

theorem keeps_legacyRow : ∀ f ∈ jsonFields, Keeps legacyRow f (legacyText f) := by
  have hkeys : ∀ f ∈ jsonFields, ∀ key ∈ legacyRow.keys, ownsKey f key = true → key = f := by
    decide
  have hmetadata : legacyRow.get? "metadata_json" = none := by decide
  intro f hf
  have hrest (key) (hkey : ownsKey f key) (hne : key ≠ f) := get?_eq_none_of_keys (hkeys f hf) hkey hne
  simp only [jsonFields, List.mem_cons, List.not_mem_nil, or_false] at hf
  obtain rfl | rfl | rfl := hf
  · intro key hkey
    by_cases heq : key = "metadata_json"
    · rw [heq, hmetadata]
    · exact hrest key hkey heq
  · exact .inr ⟨by decide, hrest⟩
  · exact .inr ⟨by decide, hrest⟩

def someRewrites : List (String × Json.Value) :=
  [("metadata_json", .list [.int 1]), ("interrupts_json", .null), ("values_json", .float .nan),
    ("metadata_json", .list [.int 1, .int 2])]

theorem rewritten_roundTrip_legacyRow :
    readJson (rewritten legacyRow someRewrites) "metadata_json" .null =
      .ok (.list [.int 1, .int 2]) ∧
    readJson (rewritten legacyRow someRewrites) "interrupts_json" (.dict []) = .ok .null ∧
    readJson (rewritten legacyRow someRewrites) "values_json" .null = loads "[]" := by
  have hfields : ∀ write ∈ someRewrites, write.1 ∈ jsonFields := by decide
  have hfaithful : ∀ write ∈ someRewrites, Faithful write.2 := by
    intro write hwrite
    simp only [someRewrites, List.mem_cons, List.not_mem_nil, or_false] at hwrite
    have hlist (ns : List Int) : Faithful (.list (ns.map .int)) := by
      refine faithful_of_isJson (.list fun v hv => ?_)
      obtain ⟨n, -, rfl⟩ := List.mem_map.mp hv
      exact .int
    obtain rfl | rfl | rfl | rfl := hwrite
    · exact hlist [1]
    · exact faithful_of_isJson .null
    · intro text htext
      cases htext
    · exact hlist [1, 2]
  have hround := rewritten_roundTrip keeps_legacyRow someRewrites hfields hfaithful
  have hvalid : validateEntity (rewritten legacyRow someRewrites) = .ok () := by decide +kernel
  exact ⟨hround.1 hvalid "metadata_json" (by decide) .null,
    hround.1 hvalid "interrupts_json" (by decide) (.dict []),
    hround.1 hvalid "values_json" (by decide) .null⟩

end LangGraphFunctions.Stores

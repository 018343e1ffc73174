import Mathlib.Data.List.Nodup
import Mathlib.Data.List.Lookmap

universe u v

namespace LangGraphFunctions.Lib

variable {κ : Type u} {α : Type v}

/-- An insertion-ordered map: an association list whose keys are distinct. -/
structure Dict (κ : Type u) (α : Type v) where
  items : List (κ × α)
  nodup : (items.map Prod.fst).Nodup

namespace Dict

@[ext] theorem ext {d e : Dict κ α} (h : d.items = e.items) : d = e := by
  cases d; cases e; cases h; rfl

def empty : Dict κ α := ⟨[], List.nodup_nil⟩

instance : EmptyCollection (Dict κ α) := ⟨empty⟩
instance : Inhabited (Dict κ α) := ⟨empty⟩

def keys (d : Dict κ α) : List κ := d.items.map Prod.fst

variable [DecidableEq κ]

instance [DecidableEq α] : DecidableEq (Dict κ α) := fun d e =>
  if h : d.items = e.items then .isTrue (ext h) else .isFalse (fun he => h (he ▸ rfl))

def get? (d : Dict κ α) (k : κ) : Option α := d.items.lookup k

def contains (d : Dict κ α) (k : κ) : Bool := (d.get? k).isSome

theorem lookup_cons_eq_ite (p : κ × α) (l : List (κ × α)) (k : κ) :
    (p :: l).lookup k = if k = p.1 then some p.2 else l.lookup k := by
  obtain ⟨k', v⟩ := p
  by_cases h : k = k'
  · simp [h]
  · simp [List.lookup_cons, beq_eq_false_iff_ne.mpr h, h]

theorem lookup_isSome_iff (l : List (κ × α)) (k : κ) :
    (l.lookup k).isSome ↔ k ∈ l.map Prod.fst := by
  induction l with
  | nil => simp
  | cons p l ih =>
    rw [lookup_cons_eq_ite, List.map_cons, List.mem_cons, ← ih]
    by_cases h : k = p.1 <;> simp [h]

theorem contains_iff_mem_keys {d : Dict κ α} {k : κ} : d.contains k ↔ k ∈ d.keys :=
  lookup_isSome_iff d.items k

theorem lookup_eq_some_iff {l : List (κ × α)} (hl : (l.map Prod.fst).Nodup) {k : κ} {v : α} :
    l.lookup k = some v ↔ (k, v) ∈ l := by
  induction l with
  | nil => simp
  | cons p l ih =>
    obtain ⟨k', v'⟩ := p
    simp only [List.map_cons, List.nodup_cons] at hl
    rw [lookup_cons_eq_ite, List.mem_cons, Prod.mk.injEq]
    by_cases h : k = k'
    · subst h
      have hnot : (k, v) ∉ l := fun hm => hl.1 (List.mem_map.mpr ⟨_, hm, rfl⟩)
      simp [hnot, eq_comm]
    · simp [ih hl.2, h]

theorem get?_eq_some_iff {d : Dict κ α} {k : κ} {v : α} :
    d.get? k = some v ↔ (k, v) ∈ d.items := lookup_eq_some_iff d.nodup

theorem mem_keys_iff {d : Dict κ α} {k : κ} : k ∈ d.keys ↔ ∃ v, d.get? k = some v := by
  rw [← contains_iff_mem_keys, contains, Option.isSome_iff_exists]

@[simp] theorem get?_empty (k : κ) : (∅ : Dict κ α).get? k = none := rfl

def setItems (k : κ) (v : α) : List (κ × α) → List (κ × α)
  | [] => [(k, v)]
  | p :: l => if p.1 = k then (k, v) :: l else p :: setItems k v l

theorem mem_map_setItems (k : κ) (v : α) (l : List (κ × α)) (k' : κ) :
    k' ∈ (setItems k v l).map Prod.fst ↔ k' = k ∨ k' ∈ l.map Prod.fst := by
  induction l with
  | nil => simp [setItems]
  | cons p l ih =>
    by_cases h : p.1 = k
    · simp [setItems, h]
    · rw [setItems, if_neg h, List.map_cons, List.mem_cons, ih, List.map_cons, List.mem_cons]
      tauto

theorem nodup_setItems (k : κ) (v : α) {l : List (κ × α)} (hl : (l.map Prod.fst).Nodup) :
    ((setItems k v l).map Prod.fst).Nodup := by
  induction l with
  | nil => simp [setItems]
  | cons p l ih =>
    rw [List.map_cons, List.nodup_cons] at hl
    by_cases h : p.1 = k
    · rw [setItems, if_pos h, List.map_cons, List.nodup_cons]
      exact ⟨h ▸ hl.1, hl.2⟩
    · rw [setItems, if_neg h, List.map_cons, List.nodup_cons, mem_map_setItems]
      exact ⟨fun hm => hm.elim h hl.1, ih hl.2⟩

theorem lookup_setItems (k : κ) (v : α) (l : List (κ × α)) (k' : κ) :
    (setItems k v l).lookup k' = if k' = k then some v else l.lookup k' := by
  induction l with
  | nil => simp [setItems, lookup_cons_eq_ite]
  | cons p l ih =>
    by_cases hp : p.1 = k
    · subst hp
      rw [setItems, if_pos rfl, lookup_cons_eq_ite, lookup_cons_eq_ite]
      by_cases h : k' = p.1 <;> simp [h]
    · rw [setItems, if_neg hp, lookup_cons_eq_ite, lookup_cons_eq_ite, ih]
      by_cases h : k' = p.1
      · simp [h, hp]
      · simp [h]

/-- `d[k] = v`: an existing key keeps its place, a new one goes last. -/
def set (d : Dict κ α) (k : κ) (v : α) : Dict κ α :=
  ⟨setItems k v d.items, nodup_setItems k v d.nodup⟩

@[simp] theorem get?_set (d : Dict κ α) (k : κ) (v : α) (k' : κ) :
    (d.set k v).get? k' = if k' = k then some v else d.get? k' :=
  lookup_setItems k v d.items k'

theorem get?_set_self (d : Dict κ α) (k : κ) (v : α) : (d.set k v).get? k = some v := by simp

theorem get?_set_ne (d : Dict κ α) {k k' : κ} (v : α) (h : k' ≠ k) :
    (d.set k v).get? k' = d.get? k' := by simp [h]

theorem set_set (d : Dict κ α) (k : κ) (v w : α) : (d.set k v).set k w = d.set k w := by
  apply ext
  change setItems k w (setItems k v d.items) = setItems k w d.items
  induction d.items with
  | nil => simp [setItems]
  | cons p l ih =>
    by_cases h : p.1 = k
    · simp [setItems, h]
    · simp [setItems, h, ih]

theorem set_of_get? {d : Dict κ α} {k : κ} {v : α} (h : d.get? k = some v) : d.set k v = d := by
  apply ext
  change setItems k v d.items = d.items
  change d.items.lookup k = some v at h
  revert h
  induction d.items with
  | nil =>
    intro h
    cases h
  | cons p l ih =>
    intro h
    rw [lookup_cons_eq_ite] at h
    rw [setItems]
    split
    · next hk =>
      subst hk
      rw [if_pos rfl] at h
      cases h
      rfl
    · next hk =>
      rw [if_neg fun he => hk he.symm] at h
      rw [ih h]

def filterKeys (d : Dict κ α) (p : κ → Bool) : Dict κ α :=
  ⟨d.items.filter fun kv => p kv.1, by
    have h : (d.items.filter fun kv => p kv.1).map Prod.fst = (d.items.map Prod.fst).filter p := by
      rw [List.filter_map]; rfl
    rw [h]
    exact d.nodup.filter _⟩

@[simp] theorem get?_filterKeys (d : Dict κ α) (p : κ → Bool) (k : κ) :
    (d.filterKeys p).get? k = if p k then d.get? k else none := by
  cases hp : p k with
  | false =>
    rw [if_neg (by simp), Option.eq_none_iff_forall_ne_some]
    intro v hv
    have hm := get?_eq_some_iff.mp hv
    simp [filterKeys, hp] at hm
  | true =>
    rw [if_pos rfl]
    apply Option.ext
    intro v
    rw [get?_eq_some_iff, get?_eq_some_iff]
    simp [filterKeys, hp]

variable {β : Type*}

def filterMap (d : Dict κ α) (f : κ → α → Option β) : Dict κ β :=
  ⟨d.items.filterMap fun p => (f p.1 p.2).map (p.1, ·), by
    have hsub : ((d.items.filterMap fun p => (f p.1 p.2).map (p.1, ·)).map Prod.fst).Sublist
        (d.items.map Prod.fst) := by
      rw [List.map_filterMap]
      generalize d.items = l
      induction l with
      | nil => exact .slnil
      | cons p l ih =>
        rw [List.map_cons, List.filterMap_cons]
        cases f p.1 p.2 with
        | none => exact ih.cons _
        | some b => exact ih.cons_cons _
    exact d.nodup.sublist hsub⟩

@[simp] theorem get?_filterMap (d : Dict κ α) (f : κ → α → Option β) (k : κ) :
    (d.filterMap f).get? k = (d.get? k).bind (f k) := by
  apply Option.ext
  intro b
  rw [get?_eq_some_iff, filterMap, List.mem_filterMap, Option.bind_eq_some_iff]
  constructor
  · rintro ⟨⟨k', a⟩, hmem, hb⟩
    obtain ⟨b', hf, hp⟩ := Option.map_eq_some_iff.mp hb
    cases hp
    exact ⟨a, get?_eq_some_iff.mpr hmem, hf⟩
  · rintro ⟨a, ha, hf⟩
    exact ⟨(k, a), get?_eq_some_iff.mp ha, by rw [hf]; rfl⟩

def mapValues (d : Dict κ α) (f : α → β) : Dict κ β := d.filterMap fun _ a => some (f a)

@[simp] theorem get?_mapValues (d : Dict κ α) (f : α → β) (k : κ) :
    (d.mapValues f).get? k = (d.get? k).map f := by
  rw [mapValues, get?_filterMap]
  cases d.get? k <;> rfl

omit [DecidableEq κ] in
theorem items_mapValues (d : Dict κ α) (f : α → β) :
    (d.mapValues f).items = d.items.map fun p => (p.1, f p.2) := by
  simp [mapValues, filterMap]

omit [DecidableEq κ] in
theorem mapValues_filterKeys (d : Dict κ α) (p : κ → Bool) (f : α → β) :
    (d.filterKeys p).mapValues f = (d.mapValues f).filterKeys p := by
  apply ext
  change _ = (d.mapValues f).items.filter fun kv => p kv.1
  rw [items_mapValues, items_mapValues, List.filter_map]
  rfl

omit [DecidableEq κ] in
theorem mapValues_congr {d : Dict κ α} {f g : α → β} (h : ∀ p ∈ d.items, f p.2 = g p.2) :
    d.mapValues f = d.mapValues g := by
  apply ext
  rw [items_mapValues, items_mapValues]
  apply List.map_congr_left
  intro p hp
  rw [h p hp]

theorem mapValues_set (d : Dict κ α) (k : κ) (v : α) (f : α → β) :
    (d.set k v).mapValues f = (d.mapValues f).set k (f v) := by
  apply ext
  change _ = setItems k (f v) (d.mapValues f).items
  rw [items_mapValues, items_mapValues]
  change (setItems k v d.items).map (fun p => (p.1, f p.2)) = _
  induction d.items with
  | nil => rfl
  | cons p l ih =>
    rw [setItems, List.map_cons, setItems]
    split
    · rfl
    · rw [List.map_cons, ih]

def erase (d : Dict κ α) (k : κ) : Dict κ α := d.filterKeys fun k' => decide (k' ≠ k)

@[simp] theorem get?_erase (d : Dict κ α) (k k' : κ) :
    (d.erase k).get? k' = if k' = k then none else d.get? k' := by
  by_cases h : k' = k <;> simp [erase, h]

omit [DecidableEq κ] in
theorem filterKeys_filterKeys (d : Dict κ α) (p q : κ → Bool) :
    (d.filterKeys p).filterKeys q = d.filterKeys fun k => q k && p k :=
  ext List.filter_filter

theorem foldl_erase (p : κ → Bool) (ks : List κ) (d : Dict κ α) :
    ks.foldl (fun d k => if p k then d.erase k else d) d =
      d.filterKeys fun k => !(p k && decide (k ∈ ks)) := by
  induction ks generalizing d with
  | nil => exact ext (List.filter_eq_self.mpr fun _ _ => by simp).symm
  | cons k ks ih =>
    rw [List.foldl_cons, ih]
    split
    · next hk =>
      rw [erase, filterKeys_filterKeys]
      congr 1
      funext k'
      by_cases h : k' = k
      · subst h
        simp [hk]
      · simp [h]
    · next hk =>
      congr 1
      funext k'
      by_cases h : k' = k
      · subst h
        simp [hk]
      · simp [h]

theorem foldl_erase_keys (p : κ → Bool) (d : Dict κ α) :
    d.keys.foldl (fun d k => if p k then d.erase k else d) d = d.filterKeys fun k => !p k := by
  rw [foldl_erase]
  refine ext (List.filter_congr fun kv hkv => ?_)
  have hmem : kv.1 ∈ d.keys := List.mem_map_of_mem hkv
  simp [hmem]

def update (d e : Dict κ α) : Dict κ α := e.items.foldl (fun d p => d.set p.1 p.2) d

theorem get?_foldl_set (l : List (κ × α)) (hl : (l.map Prod.fst).Nodup) (d : Dict κ α) (k : κ) :
    (l.foldl (fun d p => d.set p.1 p.2) d).get? k = (l.lookup k).or (d.get? k) := by
  induction l generalizing d with
  | nil => simp
  | cons p l ih =>
    obtain ⟨k', v⟩ := p
    rw [List.map_cons, List.nodup_cons] at hl
    rw [List.foldl_cons, ih hl.2, get?_set, lookup_cons_eq_ite]
    by_cases h : k = k'
    · subst h
      have hnone : l.lookup k = none := by
        rw [← Option.not_isSome_iff_eq_none, lookup_isSome_iff]
        exact hl.1
      simp [hnone]
    · simp [h]

theorem get?_foldl_set_of_not_mem {l : List (κ × α)} {k : κ} (h : k ∉ l.map Prod.fst)
    (d : Dict κ α) : (l.foldl (fun d p => d.set p.1 p.2) d).get? k = d.get? k := by
  induction l generalizing d with
  | nil => rfl
  | cons p l ih =>
    rw [List.map_cons, List.mem_cons, not_or] at h
    rw [List.foldl_cons, ih h.2, get?_set_ne d p.2 h.1]

@[simp] theorem get?_update (d e : Dict κ α) (k : κ) :
    (d.update e).get? k = (e.get? k).or (d.get? k) :=
  get?_foldl_set e.items e.nodup d k

def ofList (l : List (κ × α)) : Dict κ α := l.foldl (fun d p => d.set p.1 p.2) ∅

theorem setItems_of_not_mem {k : κ} (v : α) {l : List (κ × α)} (h : k ∉ l.map Prod.fst) :
    setItems k v l = l ++ [(k, v)] := by
  induction l with
  | nil => rfl
  | cons p l ih =>
    rw [List.map_cons, List.mem_cons, not_or] at h
    rw [setItems, if_neg (Ne.symm h.1), ih h.2, List.cons_append]

theorem items_foldl_set {l : List (κ × α)} {d : Dict κ α}
    (h : ((d.items ++ l).map Prod.fst).Nodup) :
    (l.foldl (fun d p => d.set p.1 p.2) d).items = d.items ++ l := by
  induction l generalizing d with
  | nil => simp
  | cons p l ih =>
    have hp : p.1 ∉ d.items.map Prod.fst := by
      rw [List.map_append, List.map_cons, List.nodup_append] at h
      exact fun hm => h.2.2 _ hm _ (List.mem_cons_self ..) rfl
    have hset : (d.set p.1 p.2).items = d.items ++ [p] := setItems_of_not_mem p.2 hp
    rw [List.foldl_cons, ih (by rw [hset]; simpa using h), hset, List.append_assoc,
      List.singleton_append]

theorem items_ofList {l : List (κ × α)} (h : (l.map Prod.fst).Nodup) : (ofList l).items = l :=
  items_foldl_set (d := ∅) h

theorem ofList_items (d : Dict κ α) : ofList d.items = d := ext (items_ofList d.nodup)

theorem get?_ofList_of_not_mem {l : List (κ × α)} {k : κ} (h : k ∉ l.map Prod.fst) :
    (ofList l).get? k = none := get?_foldl_set_of_not_mem h ∅

theorem mem_setItems {k : κ} {v : α} {l : List (κ × α)} {p : κ × α}
    (h : p ∈ setItems k v l) : p = (k, v) ∨ p ∈ l := by
  induction l with
  | nil => exact .inl (List.mem_singleton.mp h)
  | cons q l ih =>
    rw [setItems] at h
    split at h
    · cases List.mem_cons.mp h with
      | inl h => exact .inl h
      | inr h => exact .inr (List.mem_cons_of_mem _ h)
    · cases List.mem_cons.mp h with
      | inl h => exact .inr (h ▸ List.mem_cons_self ..)
      | inr h => exact (ih h).imp id (List.mem_cons_of_mem _)

theorem mem_ofList {l : List (κ × α)} {p : κ × α}
    (h : p ∈ (ofList l).items) : p ∈ l := by
  suffices hfold : ∀ d : Dict κ α, p ∈ (l.foldl (fun d p => d.set p.1 p.2) d).items →
      p ∈ d.items ∨ p ∈ l from (hfold ∅ h).resolve_left fun h => nomatch h
  clear h
  induction l with
  | nil => exact fun d h => .inl h
  | cons q l ih =>
    intro d h
    obtain h | h := ih _ h
    · exact (mem_setItems h).symm.imp id fun h : p = q => h ▸ List.mem_cons_self ..
    · exact .inr (List.mem_cons_of_mem _ h)

end Dict

end LangGraphFunctions.Lib

import LangGraphFunctions.Lib.Dict
import LangGraphFunctions.Lib.Exec
import Mathlib.Algebra.GroupWithZero.Nat
import Mathlib.Algebra.Order.BigOperators.Group.List
import Mathlib.Algebra.Order.Group.Nat

/-! A table of property rows in which every write stamps its row with a fresh tag, and updates and
deletions may be made conditional on the tag that was read. -/

namespace LangGraphFunctions.Lib.EtagTable

variable {P : Type} {me : Nat}

abbrev Entity (P : Type) := Dict String P

structure Row (P : Type) where
  entity : Entity P
  etag : Nat

structure Table (P : Type) where
  rows : Dict String (Row P)
  nextEtag : Nat
  clock : Int
  issued : List (Nat × String)

inductive Mode
  | merge
  | replace
  deriving DecidableEq

inductive Failure
  | notFound
  | modified
  | exists
  | other (message : String)
  deriving DecidableEq

inductive Op (P : Type)
  | get (key : String)
  | update (key : String) (entity : Entity P) (mode : Mode) (etag : Nat)
  | create (key : String) (entity : Entity P)
  | delete (key : String)
  | query (matching : Entity P → Bool) (select : Option (List String))
  | now
  | uuid

abbrev Op.Ans : Op P → Type
  | .get _ => Except Failure (Row P)
  | .update .. => Except Failure Unit
  | .create .. => Except Failure Unit
  | .delete _ => Except Failure Unit
  | .query .. => Except Failure (List (String × Row P))
  | .now => Int
  | .uuid => String

abbrev interface (P : Type) : Interface := ⟨Op P, Op.Ans⟩

def Op.failure : (o : Op P) → o.Ans → Option Failure
  | .get _, .error f => some f
  | .update .., .error f => some f
  | .create .., .error f => some f
  | .delete _, .error f => some f
  | .query .., .error f => some f
  | _, _ => none

def Mode.written (mode : Mode) (old new : Entity P) : Entity P :=
  match mode with
  | .merge => old.update new
  | .replace => new

namespace Table

def row? (T : Table P) (key : String) : Option (Row P) := T.rows.get? key

def put (T : Table P) (key : String) (entity : Entity P) : Table P :=
  { T with rows := T.rows.set key ⟨entity, T.nextEtag⟩, nextEtag := T.nextEtag + 1 }

def read (T : Table P) (key : String) : Except Failure (Row P) :=
  match T.row? key with
  | some r => .ok r
  | none => .error .notFound

def update (T : Table P) (key : String) (entity : Entity P) (mode : Mode) (etag : Nat) :
    Except Failure Unit × Table P :=
  match T.row? key with
  | none => (.error .notFound, T)
  | some r =>
    if r.etag = etag then (.ok (), T.put key (mode.written r.entity entity))
    else (.error .modified, T)

def create (T : Table P) (key : String) (entity : Entity P) : Except Failure Unit × Table P :=
  match T.row? key with
  | none => (.ok (), T.put key entity)
  | some _ => (.error .exists, T)

def delete (T : Table P) (key : String) : Except Failure Unit × Table P :=
  match T.row? key with
  | none => (.error .notFound, T)
  | some _ => (.ok (), { T with rows := T.rows.erase key })

def query (T : Table P) (matching : Entity P → Bool) (select : Option (List String)) :
    List (String × Row P) :=
  (T.rows.items.filter fun p => matching p.2.entity).map fun p =>
    (p.1, match select with
      | none => p.2
      | some names => { p.2 with entity := p.2.entity.filterKeys fun name => names.contains name })

end Table

/-- An operation of the client `me` either does its work or fails for reasons of the service's
own, having done nothing; time never goes back and no token is handed out twice. -/
def step (me : Nat) : (o : Op P) → Table P → o.Ans → Table P → Prop
  | .get key, T, a, T' => (a = T.read key ∨ ∃ m, a = .error (.other m)) ∧ T' = T
  | .update key entity mode etag, T, a, T' =>
    (a, T') = T.update key entity mode etag ∨ (∃ m, a = .error (.other m)) ∧ T' = T
  | .create key entity, T, a, T' =>
    (a, T') = T.create key entity ∨ (∃ m, a = .error (.other m)) ∧ T' = T
  | .delete key, T, a, T' => (a, T') = T.delete key ∨ (∃ m, a = .error (.other m)) ∧ T' = T
  | .query matching select, T, a, T' =>
    (a = .ok (T.query matching select) ∨ ∃ m, a = .error (.other m)) ∧ T' = T
  | .now, T, a, T' => T.clock ≤ a ∧ T' = { T with clock := a }
  | .uuid, T, a, T' => (∀ i, (i, a) ∉ T.issued) ∧ T' = { T with issued := (me, a) :: T.issued }

def service (me : Nat) : Prog.Service (interface P) (Table P) := ⟨step me⟩

def freshToken (T : Table P) : String :=
  String.ofList (List.replicate ((T.issued.map fun p => p.2.length).sum + 1) 'u')

def act (me : Nat) : (o : Op P) → Table P → o.Ans × Table P
  | .get key, T => (T.read key, T)
  | .update key entity mode etag, T => T.update key entity mode etag
  | .create key entity, T => T.create key entity
  | .delete key, T => T.delete key
  | .query matching select, T => (.ok (T.query matching select), T)
  | .now, T => (T.clock + 1, { T with clock := T.clock + 1 })
  | .uuid, T => (freshToken T, { T with issued := (me, freshToken T) :: T.issued })

theorem freshToken_not_mem (T : Table P) (i : Nat) : (i, freshToken T) ∉ T.issued := by
  intro h
  have hle : (freshToken T).length ≤ (T.issued.map fun p => p.2.length).sum :=
    List.le_sum_of_mem (List.mem_map_of_mem (f := fun p => p.2.length) h)
  rw [freshToken, String.length_ofList, List.length_replicate] at hle
  exact Nat.not_succ_le_self _ hle

theorem act_step (me : Nat) (o : Op P) (T : Table P) : step me o T (act me o T).1 (act me o T).2 := by
  cases o with
  | get key => exact ⟨.inl rfl, rfl⟩
  | update key entity mode etag => exact .inl rfl
  | create key entity => exact .inl rfl
  | delete key => exact .inl rfl
  | query matching select => exact ⟨.inl rfl, rfl⟩
  | now => exact ⟨Int.le_of_lt (Int.lt_succ _), rfl⟩
  | uuid => exact ⟨freshToken_not_mem T, rfl⟩

def Stamped (T : Table P) : Prop := ∀ key r, T.row? key = some r → r.etag < T.nextEtag

/-- A row under an old tag is the row that was there. -/
structure Evolves (T T' : Table P) : Prop where
  row : ∀ key r, T'.row? key = some r → T.row? key = some r ∨ T.nextEtag ≤ r.etag
  next : T.nextEtag ≤ T'.nextEtag
  clock : T.clock ≤ T'.clock
  issued : ∀ p ∈ T.issued, p ∈ T'.issued
  stamped : Stamped T → Stamped T'

theorem Evolves.refl (T : Table P) : Evolves T T :=
  ⟨fun _ _ h => .inl h, Nat.le_refl _, Int.le_refl _, fun _ h => h, id⟩

theorem Evolves.trans {T T' T'' : Table P} (h : Evolves T T') (h' : Evolves T' T'') :
    Evolves T T'' where
  row key r hr := by
    cases h'.row key r hr with
    | inl hr' => exact h.row key r hr'
    | inr hr' => exact .inr (Nat.le_trans h.next hr')
  next := Nat.le_trans h.next h'.next
  clock := Int.le_trans h.clock h'.clock
  issued token ht := h'.issued token (h.issued token ht)
  stamped hT := h'.stamped (h.stamped hT)

@[simp] theorem row?_put (T : Table P) (key : String) (entity : Entity P) (key' : String) :
    (T.put key entity).row? key' =
      if key' = key then some ⟨entity, T.nextEtag⟩ else T.row? key' :=
  Dict.get?_set ..

theorem evolves_put (T : Table P) (key : String) (entity : Entity P) :
    Evolves T (T.put key entity) where
  row key' r hr := by
    rw [row?_put] at hr
    split at hr
    · cases hr
      exact .inr (Nat.le_refl _)
    · exact .inl hr
  next := Nat.le_succ _
  clock := Int.le_refl _
  issued _ h := h
  stamped hT key' r hr := by
    rw [row?_put] at hr
    split at hr
    · cases hr
      exact Nat.lt_succ_self _
    · exact Nat.lt_succ_of_lt (hT key' r hr)

@[simp] theorem row?_erase (T : Table P) (key key' : String) :
    ({ T with rows := T.rows.erase key } : Table P).row? key' =
      if key' = key then none else T.row? key' :=
  Dict.get?_erase ..

theorem evolves_erase (T : Table P) (key : String) :
    Evolves T { T with rows := T.rows.erase key } where
  row key' r hr := by
    rw [row?_erase] at hr
    split at hr
    · exact nomatch hr
    · exact .inl hr
  next := Nat.le_refl _
  clock := Int.le_refl _
  issued _ h := h
  stamped hT key' r hr := by
    rw [row?_erase] at hr
    split at hr
    · exact nomatch hr
    · exact hT key' r hr

theorem update_ok {T T' : Table P} {key : String} {entity : Entity P} {mode : Mode} {etag : Nat}
    (h : (.ok (), T') = T.update key entity mode etag) :
    ∃ r, T.row? key = some r ∧ r.etag = etag ∧ T' = T.put key (mode.written r.entity entity) := by
  rw [Table.update] at h
  split at h
  · exact nomatch (congrArg Prod.fst h)
  · next r hr =>
    split at h
    · next he => exact ⟨r, hr, he, congrArg Prod.snd h⟩
    · exact nomatch (congrArg Prod.fst h)

theorem update_error {T T' : Table P} {key : String} {entity : Entity P} {mode : Mode}
    {etag : Nat} {f : Failure} (h : (.error f, T') = T.update key entity mode etag) :
    T' = T ∧ (f = .notFound ∧ T.row? key = none ∨
      f = .modified ∧ ∃ r, T.row? key = some r ∧ r.etag ≠ etag) := by
  rw [Table.update] at h
  split at h
  · next hr =>
    cases h
    exact ⟨rfl, .inl ⟨rfl, hr⟩⟩
  · next r hr =>
    split at h
    · exact nomatch (congrArg Prod.fst h)
    · next he =>
      cases h
      exact ⟨rfl, .inr ⟨rfl, r, hr, he⟩⟩

theorem step_get (me : Nat) {T T' : Table P} {key : String} {r : Row P}
    (h : step me (.get key) T (.ok r) T') : T' = T ∧ T.row? key = some r := by
  refine ⟨h.2, ?_⟩
  obtain h | ⟨m, h⟩ := h.1
  · rw [Table.read] at h
    split at h
    · next hrow => cases h; exact hrow
    · exact nomatch h
  · exact nomatch h

theorem step_update (me : Nat) {T T' : Table P} {key : String} {entity : Entity P} {mode : Mode}
    {etag : Nat} {a : Except Failure Unit} (h : step me (.update key entity mode etag) T a T') :
    (∃ f, a = .error f ∧ T' = T) ∨ a = .ok () ∧ ∃ r, T.row? key = some r ∧ r.etag = etag ∧
      T' = T.put key (mode.written r.entity entity) := by
  obtain h | ⟨⟨m, rfl⟩, rfl⟩ := h
  · cases a with
    | ok u => exact .inr ⟨rfl, update_ok h⟩
    | error f => exact .inl ⟨f, rfl, (update_error h).1⟩
  · exact .inl ⟨_, rfl, rfl⟩

theorem step_modified (me : Nat) {T T' : Table P} {key : String} {entity : Entity P} {mode : Mode}
    {etag : Nat} (h : step me (.update key entity mode etag) T (.error .modified) T') :
    T' = T ∧ ∃ r, T.row? key = some r ∧ r.etag ≠ etag := by
  obtain h | ⟨⟨m, h⟩, -⟩ := h
  · obtain ⟨hT, ⟨h, -⟩ | ⟨-, h⟩⟩ := update_error h
    · exact nomatch h
    · exact ⟨hT, h⟩
  · exact nomatch h

theorem step_create (me : Nat) {T T' : Table P} {key : String} {entity : Entity P}
    {a : Except Failure Unit} (h : step me (.create key entity) T a T') :
    (∃ f, a = .error f ∧ T' = T) ∨ a = .ok () ∧ T.row? key = none ∧ T' = T.put key entity := by
  obtain h | ⟨⟨m, rfl⟩, rfl⟩ := h
  · rw [Table.create] at h
    split at h
    · next hr =>
      cases h
      exact .inr ⟨rfl, hr, rfl⟩
    · cases h
      exact .inl ⟨_, rfl, rfl⟩
  · exact .inl ⟨_, rfl, rfl⟩

theorem step_delete (me : Nat) {T T' : Table P} {key : String} {a : Except Failure Unit}
    (h : step me (.delete key : Op P) T a T') :
    (∃ f, a = .error f ∧ T' = T) ∨ a = .ok () ∧ T' = { T with rows := T.rows.erase key } := by
  obtain h | ⟨⟨m, rfl⟩, rfl⟩ := h
  · rw [Table.delete] at h
    split at h
    · cases h
      exact .inl ⟨_, rfl, rfl⟩
    · cases h
      exact .inr ⟨rfl, rfl⟩
  · exact .inl ⟨_, rfl, rfl⟩

theorem step_evolves (me : Nat) {o : Op P} {T T' : Table P} {a : o.Ans} (h : step me o T a T') :
    Evolves T T' := by
  cases o with
  | get key => rw [h.2]; exact .refl T
  | update key entity mode etag =>
    obtain ⟨f, -, rfl⟩ | ⟨-, r, -, -, rfl⟩ := step_update me h
    · exact .refl _
    · exact evolves_put ..
  | create key entity =>
    obtain ⟨f, -, rfl⟩ | ⟨-, -, rfl⟩ := step_create me h
    · exact .refl _
    · exact evolves_put ..
  | delete key =>
    obtain ⟨f, -, rfl⟩ | ⟨-, rfl⟩ := step_delete me h
    · exact .refl _
    · exact evolves_erase ..
  | query matching select => rw [h.2]; exact .refl T
  | now =>
    obtain ⟨hc, rfl⟩ := h
    exact ⟨fun _ _ h => .inl h, Nat.le_refl _, hc, fun _ h => h, id⟩
  | uuid =>
    obtain ⟨-, rfl⟩ := h
    exact ⟨fun _ _ h => .inl h, Nat.le_refl _, Int.le_refl _,
      fun _ h => List.mem_cons_of_mem _ h, id⟩

theorem evolves_run {ε α : Type} (me : Nat) (p : Prog (interface P) ε α) (T : Table P) :
    Evolves T (p.run (act me) T).2 := by
  induction p generalizing T with
  | ret a => exact .refl T
  | raise e => exact .refl T
  | call o k ih =>
    rw [Prog.run_call]
    exact (step_evolves me (act_step me o T)).trans (ih _ _)

theorem step_issued (me : Nat) {o : Op P} {T T' : Table P} {a : o.Ans} (h : step me o T a T') :
    T'.issued = T.issued ∨
      ∃ token, T'.issued = (me, token) :: T.issued ∧ ∀ i, (i, token) ∉ T.issued := by
  cases o with
  | get key => rw [h.2]; exact .inl rfl
  | update key entity mode etag =>
    obtain ⟨f, -, rfl⟩ | ⟨-, r, -, -, rfl⟩ := step_update me h <;> exact .inl rfl
  | create key entity =>
    obtain ⟨f, -, rfl⟩ | ⟨-, -, rfl⟩ := step_create me h <;> exact .inl rfl
  | delete key =>
    obtain ⟨f, -, rfl⟩ | ⟨-, rfl⟩ := step_delete me h <;> exact .inl rfl
  | query matching select => rw [h.2]; exact .inl rfl
  | now =>
    obtain ⟨-, rfl⟩ := h
    exact .inl rfl
  | uuid =>
    obtain ⟨hfresh, rfl⟩ := h
    exact .inr ⟨a, rfl, hfresh⟩

/-- `r` was the row under `key` at some time: whenever its tag is found again, so is the row. -/
def Seen (key : String) (r : Row P) (T : Table P) : Prop :=
  r.etag < T.nextEtag ∧ ∀ r', T.row? key = some r' → r'.etag = r.etag → r' = r

theorem seen_of_row? {T : Table P} {key : String} {r : Row P} (hT : Stamped T)
    (h : T.row? key = some r) : Seen key r T :=
  ⟨hT key r h, fun _ h' _ => Option.some.inj (h'.symm.trans h)⟩

theorem Seen.evolves {T T' : Table P} {key : String} {r : Row P} (h : Seen key r T)
    (hE : Evolves T T') : Seen key r T' := by
  refine ⟨Nat.lt_of_lt_of_le h.1 hE.next, fun r' hr' he => ?_⟩
  cases hE.row key r' hr' with
  | inl hr => exact h.2 r' hr he
  | inr hn => exact absurd (he ▸ h.1) (Nat.not_lt.mpr hn)

theorem Seen.update_ok (me : Nat) {T T' : Table P} {key : String} {r : Row P} {entity : Entity P}
    {mode : Mode} {a : Except Failure Unit} (hseen : Seen key r T)
    (h : step me (.update key entity mode r.etag) T a T') (ha : a = .ok ()) :
    T.row? key = some r ∧ T' = T.put key (mode.written r.entity entity) := by
  subst ha
  obtain ⟨f, hf, -⟩ | ⟨-, r', hr', he, rfl⟩ := step_update me h
  · exact nomatch hf
  · cases hseen.2 r' hr' he
    exact ⟨hr', rfl⟩

def written : (o : Op P) → o.Ans → Option String
  | .update key .., .ok () => some key
  | .create key _, .ok () => some key
  | .delete key, .ok () => some key
  | _, _ => none

def Writes (W : String → Table P → Table P → Prop) (o : Op P) (T : Table P) (a : o.Ans)
    (T' : Table P) : Prop :=
  match written o a with
  | some key => W key T T'
  | none => T'.rows = T.rows

theorem Writes.of_written {W : String → Table P → Table P → Prop} {o : Op P} {T T' : Table P}
    {a : o.Ans} {key : String} (h : Writes W o T a T') (hwritten : written o a = some key) :
    W key T T' := by
  rw [Writes, hwritten] at h
  exact h

variable {ε β : Type} {W : String → Table P → Table P → Prop} {Q : Except ε β → Table P → Prop}
  {T : Table P} {key : String}

theorem safe_get {f : Except Failure (Row P) → Prog (interface P) ε β} (hT : Stamped T)
    (hok : ∀ T' row, Evolves T T' → Stamped T' → T'.row? key = some row → Seen key row T' →
      (f (.ok row)).Safe (service me) Evolves (Writes W) Q T')
    (hnone : ∀ T', Evolves T T' → Stamped T' → T'.row? key = none →
      (f (.error .notFound)).Safe (service me) Evolves (Writes W) Q T')
    (hother : ∀ T' m, Evolves T T' → Stamped T' →
      (f (.error (.other m))).Safe (service me) Evolves (Writes W) Q T') :
    (Prog.perform (I := interface P) (.get key) >>= f).Safe (service me) Evolves (Writes W) Q T := by
  rw [Prog.safe_perform_bind]
  rintro T₁ hE a _ ⟨ha, rfl⟩
  refine ⟨rfl, ?_⟩
  obtain rfl | ⟨m, rfl⟩ := ha
  · rw [Table.read]
    split
    · next row hrow => exact hok _ row hE (hE.stamped hT) hrow (seen_of_row? (hE.stamped hT) hrow)
    · next hrow => exact hnone _ hE (hE.stamped hT) hrow
  · exact hother _ m hE (hE.stamped hT)

theorem safe_now {f : Int → Prog (interface P) ε β}
    (h : ∀ T' t, Evolves T T' → T'.clock = t →
      (f t).Safe (service me) Evolves (Writes W) Q T') :
    (Prog.perform (I := interface P) .now >>= f).Safe (service me) Evolves (Writes W) Q T := by
  rw [Prog.safe_perform_bind]
  intro T₁ hE t T₂ hstep
  refine ⟨(congrArg Table.rows hstep.2).trans rfl, ?_⟩
  exact h T₂ t (hE.trans (step_evolves me (o := .now) hstep)) (by rw [hstep.2])

theorem safe_uuid {f : String → Prog (interface P) ε β}
    (h : ∀ T' token, Evolves T T' → (me, token) ∈ T'.issued →
      (f token).Safe (service me) Evolves (Writes W) Q T') :
    (Prog.perform (I := interface P) .uuid >>= f).Safe (service me) Evolves (Writes W) Q T := by
  rw [Prog.safe_perform_bind]
  intro T₁ hE token T₂ hstep
  refine ⟨(congrArg Table.rows hstep.2).trans rfl, ?_⟩
  exact h T₂ token (hE.trans (step_evolves me (o := .uuid) hstep))
    (by rw [hstep.2]; exact List.mem_cons_self ..)

theorem safe_update {entity : Entity P} {mode : Mode} {r : Row P}
    {f : Except Failure Unit → Prog (interface P) ε β} (hseen : Seen key r T)
    (hok : ∀ T', Evolves T T' → T'.row? key = some r →
      W key T' (T'.put key (mode.written r.entity entity)) ∧
      (f (.ok ())).Safe (service me) Evolves (Writes W) Q
        (T'.put key (mode.written r.entity entity)))
    (herror : ∀ T' e, Evolves T T' → (f (.error e)).Safe (service me) Evolves (Writes W) Q T') :
    (Prog.perform (I := interface P) (.update key entity mode r.etag) >>= f).Safe (service me)
      Evolves (Writes W) Q T := by
  rw [Prog.safe_perform_bind]
  intro T₁ hE a T₂ hstep
  cases a with
  | ok u =>
    obtain ⟨hrow, rfl⟩ := (hseen.evolves hE).update_ok me hstep rfl
    obtain ⟨hW, hf⟩ := hok T₁ hE hrow
    exact ⟨hW, hf⟩
  | error e =>
    have hsame : T₂ = T₁ := by
      obtain ⟨f, -, h⟩ | ⟨h, -⟩ := step_update me hstep
      · exact h
      · exact nomatch h
    subst hsame
    exact ⟨rfl, herror _ e hE⟩

theorem safe_create {entity : Entity P} {f : Except Failure Unit → Prog (interface P) ε β}
    (hok : ∀ T', Evolves T T' → T'.row? key = none →
      W key T' (T'.put key entity) ∧
      (f (.ok ())).Safe (service me) Evolves (Writes W) Q (T'.put key entity))
    (herror : ∀ T' e, Evolves T T' → (f (.error e)).Safe (service me) Evolves (Writes W) Q T') :
    (Prog.perform (I := interface P) (.create key entity) >>= f).Safe (service me)
      Evolves (Writes W) Q T := by
  rw [Prog.safe_perform_bind]
  intro T₁ hE a T₂ hstep
  obtain ⟨e, rfl, rfl⟩ | ⟨rfl, hrow, rfl⟩ := step_create me hstep
  · exact ⟨rfl, herror _ e hE⟩
  · obtain ⟨hW, hf⟩ := hok T₁ hE hrow
    exact ⟨hW, hf⟩

theorem safe_delete {f : Except Failure Unit → Prog (interface P) ε β}
    (hok : ∀ T', Evolves T T' →
      W key T' { T' with rows := T'.rows.erase key } ∧
      (f (.ok ())).Safe (service me) Evolves (Writes W) Q { T' with rows := T'.rows.erase key })
    (herror : ∀ T' e, Evolves T T' → (f (.error e)).Safe (service me) Evolves (Writes W) Q T') :
    (Prog.perform (I := interface P) (.delete key) >>= f).Safe (service me)
      Evolves (Writes W) Q T := by
  rw [Prog.safe_perform_bind]
  intro T₁ hE a T₂ hstep
  obtain ⟨e, rfl, rfl⟩ | ⟨rfl, rfl⟩ := step_delete me hstep
  · exact ⟨rfl, herror _ e hE⟩
  · obtain ⟨hW, hf⟩ := hok T₁ hE
    exact ⟨hW, hf⟩

def Found (matching : Entity P → Bool) (select : Option (List String)) (T : Table P)
    (p : String × Row P) : Prop :=
  ∃ r, Seen p.1 r T ∧ matching r.entity ∧ p.2.etag = r.etag ∧
    ∀ name, (∀ names ∈ select, name ∈ names) → p.2.entity.get? name = r.entity.get? name

theorem Found.evolves {matching : Entity P → Bool} {select : Option (List String)}
    {T T' : Table P} {p : String × Row P} (h : Found matching select T p) (hE : Evolves T T') :
    Found matching select T' p := by
  obtain ⟨r, hseen, hrest⟩ := h
  exact ⟨r, hseen.evolves hE, hrest⟩

theorem found_of_mem_query {matching : Entity P → Bool} {select : Option (List String)}
    {T : Table P} {p : String × Row P} (hT : Stamped T) (h : p ∈ T.query matching select) :
    Found matching select T p := by
  obtain ⟨⟨key, r⟩, hmem, rfl⟩ := List.mem_map.mp h
  obtain ⟨hitem, hmatch⟩ := List.mem_filter.mp hmem
  refine ⟨r, seen_of_row? hT (Dict.get?_eq_some_iff.mpr hitem), hmatch, ?_, fun name hname => ?_⟩
  · cases select <;> rfl
  · cases select with
    | none => rfl
    | some names =>
      have hin : names.contains name := List.contains_iff_mem.mpr (hname names rfl)
      change (r.entity.filterKeys fun name => names.contains name).get? name = _
      rw [Dict.get?_filterKeys, if_pos hin]

theorem safe_query {matching : Entity P → Bool} {select : Option (List String)}
    {f : Except Failure (List (String × Row P)) → Prog (interface P) ε β} (hT : Stamped T)
    (hok : ∀ T' found, Evolves T T' → (∀ p ∈ found, Found matching select T' p) →
      (f (.ok found)).Safe (service me) Evolves (Writes W) Q T')
    (hother : ∀ T' m, Evolves T T' →
      (f (.error (.other m))).Safe (service me) Evolves (Writes W) Q T') :
    (Prog.perform (I := interface P) (.query matching select) >>= f).Safe (service me)
      Evolves (Writes W) Q T := by
  rw [Prog.safe_perform_bind]
  rintro T₁ hE a _ ⟨ha, rfl⟩
  refine ⟨rfl, ?_⟩
  obtain rfl | ⟨m, rfl⟩ := ha
  · exact hok _ _ hE fun p hp => found_of_mem_query (hE.stamped hT) hp
  · exact hother _ m hE

end LangGraphFunctions.Lib.EtagTable

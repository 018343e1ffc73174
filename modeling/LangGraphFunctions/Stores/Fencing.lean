import LangGraphFunctions.Stores.Exclusion

/-! A run whose lock a sweep has reclaimed: what its release and its renewals may still do. -/

namespace LangGraphFunctions.Stores.AzureTable

open Lib EtagTable Platform

def Request.carries (threadId token : String) : Request → Bool
  | .releaseRunLock threadId' _ _ ownerToken => threadId' == threadId && ownerToken == some token
  | .renewRunLock threadId' ownerToken => threadId' == threadId && ownerToken == token
  | _ => false

def Request.isSweep : Request → Bool
  | .resetStaleLocks .. => true
  | _ => false

def Reclaims (threadId token : String) : StoreEvent → Prop
  | .op _ q o T a _ => q.isSweep ∧ written o a = some threadId ∧ HeldBy threadId token T
  | _ => False

instance (threadId token : String) : DecidablePred (Reclaims threadId token)
  | .op _ q o _ a _ => inferInstanceAs (Decidable (q.isSweep ∧ written o a = some threadId ∧ _))
  | .start .. => .isFalse id
  | .leave .. => .isFalse id

def property? (T : Table) (threadId name : String) : Option Property :=
  (T.row? threadId).bind fun row => row.entity.get? name

def KeepsProperty (threadId token name : String) : StoreEvent → Prop
  | .op _ q _ T _ T' =>
    q.carries threadId token → property? T' threadId name = property? T threadId name
  | _ => True

instance (threadId token name : String) : DecidablePred (KeepsProperty threadId token name)
  | .op _ q _ _ _ _ => inferInstanceAs (Decidable (q.carries threadId token → _ = _))
  | .start .. => .isTrue trivial
  | .leave .. => .isTrue trivial

def isLockField (name : String) : Bool :=
  name == "status" || name == "lock_token" || name == "lock_expires_at" || ownsKey "values_json" name

def RenewalWritesNothing (threadId token : String) : StoreEvent → Prop
  | .op _ q _ T _ T' => q = .renewRunLock threadId token → T'.rows = T.rows
  | _ => True

/-- Once the thread is reclaimed from `token`, no release under it changes the lock, and a renewal
under it writes nothing and returns `False`. -/
structure Fenced (threadId token : String) (t : List StoreEvent) : Prop where
  lock : t.Pairwise fun e e' => Reclaims threadId token e →
    ∀ name, isLockField name → KeepsProperty threadId token name e'
  renewal : t.Pairwise fun e e' => Reclaims threadId token e →
    RenewalWritesNothing threadId token e'
  refused : ∀ t₁ e u i s u' b T v, t = t₁ ++ e :: (u ++ .start i (.renewRunLock threadId token) s ::
      (u' ++ .leave i (.renewRunLock threadId token) (.ret (.flag b)) T :: v)) →
    Reclaims threadId token e → (∀ q s, .start i q s ∉ u') → b = false

def ReadsGone (threadId token : String) : StoreEvent → Prop
  | .op _ q (.get _) T _ _ => q.carries threadId token →
      ∀ row ∈ T.row? threadId, ¬holdsToken row.entity token
  | _ => True

instance (threadId token : String) : DecidablePred (ReadsGone threadId token)
  | .op _ q (.get _) _ _ _ => inferInstanceAs (Decidable (q.carries threadId token → ∀ row ∈ _, _))
  | .op _ _ (.update ..) _ _ _ => .isTrue trivial
  | .op _ _ (.create ..) _ _ _ => .isTrue trivial
  | .op _ _ (.delete _) _ _ _ => .isTrue trivial
  | .op _ _ (.query ..) _ _ _ => .isTrue trivial
  | .op _ _ .now _ _ _ => .isTrue trivial
  | .op _ _ .uuid _ _ _ => .isTrue trivial
  | .start .. => .isTrue trivial
  | .leave .. => .isTrue trivial

structure Phase where
  table : Table
  since : Option Nat

variable {threadId token : String} {p p' p'' : Phase} {me : Nat} {q : Request}

def Phase.Above (threadId : String) (p : Phase) : Prop :=
  ∀ n, p.since = some n → n ≤ p.table.nextEtag ∧
    ∀ row, p.table.row? threadId = some row → n ≤ row.etag

structure Turns (threadId : String) (p p' : Phase) : Prop where
  evolves : Evolves p.table p'.table
  kept : ∀ n, p.since = some n → p'.since = some n
  begun : ∀ n, p'.since = some n → p.since = some n ∨ p.table.nextEtag ≤ n
  above : p.Above threadId → p'.Above threadId

theorem Turns.refl (p : Phase) : Turns threadId p p :=
  ⟨.refl _, fun _ h => h, fun _ h => .inl h, id⟩

theorem Turns.trans (h : Turns threadId p p') (h' : Turns threadId p' p'') :
    Turns threadId p p'' where
  evolves := h.evolves.trans h'.evolves
  kept n hn := h'.kept n (h.kept n hn)
  begun n hn := by
    cases h'.begun n hn with
    | inl hn => exact h.begun n hn
    | inr hn => exact .inr (Nat.le_trans h.evolves.next hn)
  above hp := h'.above (h.above hp)

theorem turns_of_evolves {T T' : Table} {since : Option Nat} (h : Evolves T T') :
    Turns threadId ⟨T, since⟩ ⟨T', since⟩ where
  evolves := h
  kept _ hn := hn
  begun _ hn := .inl hn
  above hp n hn := by
    obtain ⟨hnext, hrows⟩ := hp n hn
    refine ⟨Nat.le_trans hnext h.next, fun row hrow => ?_⟩
    cases h.row _ _ hrow with
    | inl hrow => exact hrows row hrow
    | inr hetag => exact Nat.le_trans hnext hetag

theorem turns_put (T : Table) (entity : Entity) :
    Turns threadId ⟨T, none⟩ ⟨T.put threadId entity, some T.nextEtag⟩ where
  evolves := evolves_put ..
  kept _ hn := nomatch hn
  begun _ hn := by cases hn; exact .inr (Nat.le_refl _)
  above _ n hn := by
    cases hn
    refine ⟨Nat.le_succ _, fun row hrow => ?_⟩
    change (T.put threadId entity).row? threadId = some row at hrow
    rw [row?_put, if_pos rfl] at hrow
    cases hrow
    exact Nat.le_refl _

def phaseService (threadId token : String) (i : Nat) (q : Request) :
    Prog.Service (interface Property) Phase where
  step o p a p' := EtagTable.step i o p.table a p'.table ∧ Turns threadId p p' ∧
    (p.since.isSome → q.carries threadId token → ∀ key, o = .get key →
      ∀ row, p.table.row? threadId = some row → ¬holdsToken row.entity token)

def Spares (threadId : String) (o : Op Property) (p : Phase) (a : o.Ans) (_ : Phase) : Prop :=
  p.since.isSome → written o a ≠ some threadId

theorem spares_update {row : Row} {entity : Entity} {mode : Mode} {a : Except Failure Unit}
    (hnone : p.since = none) (hrow : row.etag < p.table.nextEtag) (hturns : Turns threadId p p')
    (habove : p'.Above threadId)
    (hstep : EtagTable.step me (.update threadId entity mode row.etag) p'.table a p''.table) :
    Spares threadId (.update threadId entity mode row.etag) p' a p'' := by
  intro hsome hwritten
  obtain ⟨n, hn⟩ := Option.isSome_iff_exists.mp hsome
  obtain ⟨f, rfl, -⟩ | ⟨-, r, hr, hetag, -⟩ := step_update me hstep
  · exact nomatch hwritten
  · cases hturns.begun n hn with
    | inl h => exact nomatch hnone.symm.trans h
    | inr h =>
      have hle := (habove n hn).2 r hr
      exact absurd (Nat.lt_of_lt_of_le hrow h) (Nat.not_lt.mpr (hetag ▸ hle))

theorem spares_of_none {o : Op Property} {a : o.Ans} (h : written o a = none) :
    Spares threadId o p a p' := fun _ hwritten => nomatch h.symm.trans hwritten

theorem since_of_holdsToken {row : Row} (hq : q.carries threadId token)
    (hstep : (phaseService threadId token me q).step (.get threadId) p (.ok row) p')
    (htoken : holdsToken row.entity token) (hT : Stamped p.table) :
    p.since = none ∧ row.etag < p.table.nextEtag := by
  have hrow : p.table.row? threadId = some row := (step_get me hstep.1).2
  refine ⟨?_, hT threadId row hrow⟩
  by_contra hsome
  exact hstep.2.2 (Option.isSome_iff_ne_none.mpr hsome) hq threadId rfl row hrow htoken

theorem renew_spares (hT : Stamped p.table) (hp : p.Above threadId) :
    (renewRunLock threadId token).Safe
      (phaseService threadId token me (.renewRunLock threadId token)) (Turns threadId)
      (Spares threadId) (fun _ _ => True) p := by
  intro p₁ h₁ a p₂ hs₂
  refine ⟨spares_of_none rfl, ?_⟩
  cases a with
  | error f => trivial
  | ok row =>
    change Prog.Safe _ _ _ _ (if holdsToken row.entity token then _ else _) p₂
    split
    · next htoken =>
      have hread := since_of_holdsToken (by simp [Request.carries]) hs₂ htoken (h₁.evolves.stamped hT)
      intro p₃ h₃ now p₄ hs₄
      refine ⟨spares_of_none rfl, ?_⟩
      intro p₅ h₅ b p₆ hs₆
      have hturns := ((hs₂.2.1.trans h₃).trans hs₄.2.1).trans h₅
      refine ⟨spares_update hread.1 hread.2 hturns (hturns.above (h₁.above hp)) hs₆.1, ?_⟩
      cases b with
      | ok u => trivial
      | error f => cases f <;> trivial
    · trivial

theorem release_spares (hT : Stamped p.table) (hp : p.Above threadId) (status : ThreadStatus)
    (values : Option Json.Value) :
    (releaseRunLock threadId status values (some token)).Safe
      (phaseService threadId token me (.releaseRunLock threadId status values (some token)))
      (Turns threadId) (Spares threadId) (fun _ _ => True) p := by
  rw [releaseRunLock]
  split
  · trivial
  · generalize 3 = n
    induction n generalizing p with
    | zero => trivial
    | succ n ih =>
      intro p₁ h₁ a p₂ hs₂
      refine ⟨spares_of_none rfl, ?_⟩
      cases a with
      | error f => cases f <;> trivial
      | ok row =>
        change Prog.Safe _ _ _ _ (if isStale row.entity (some token) then _ else _) p₂
        split
        · exact Prog.safe_ofExcept trivial
        · next hstale =>
          have htoken : holdsToken row.entity token := by simpa [isStale] using hstale
          have hread := since_of_holdsToken (by simp [Request.carries]) hs₂ htoken
            (h₁.evolves.stamped hT)
          intro p₃ h₃ now p₄ hs₄
          refine ⟨spares_of_none rfl, ?_⟩
          apply Prog.safe_ofExcept_bind
          · intro entity hentity
            apply Prog.safe_ofExcept_bind
            · intro _ _ p₅ h₅ b p₆ hs₆
              have hturns := ((hs₂.2.1.trans h₃).trans hs₄.2.1).trans h₅
              have habove := hturns.above (h₁.above hp)
              refine ⟨spares_update hread.1 hread.2 hturns habove hs₆.1, ?_⟩
              have hT₆ := (((h₁.trans hturns).trans hs₆.2.1).evolves).stamped hT
              cases b with
              | ok u => exact Prog.safe_ofExcept trivial
              | error f =>
                cases f with
                | modified => exact ih hT₆ (hs₆.2.1.above habove)
                | notFound => trivial
                | «exists» => trivial
                | other m => trivial
            · intros; trivial
          · intros; trivial

def Kept (threadId token : String) (_ : Nat) (q : Request) (o : Op Property) (p : Phase)
    (a : o.Ans) (p' : Phase) : Prop :=
  Writes (Wrote q) o p.table a p'.table ∧ (q.carries threadId token → Spares threadId o p a p')

theorem request_kept (hT : Stamped p.table) (hp : p.Above threadId) (q : Request) :
    q.program.Safe (phaseService threadId token me q) (Turns threadId) (Kept threadId token me q)
      (fun _ _ => True) p := by
  have hwrites : q.program.Safe (phaseService threadId token me q) (Turns threadId)
      (fun o p a p' => Writes (Wrote q) o p.table a p'.table) (fun _ _ => True) p :=
    Prog.Safe.comap Phase.table And.left Turns.evolves (request_guarded hT q)
  suffices h : q.carries threadId token → q.program.Safe (phaseService threadId token me q)
      (Turns threadId) (Spares threadId) (fun _ _ => True) p by
    cases hq : q.carries threadId token with
    | true => exact (hwrites.and (h hq)).imp (fun _ _ _ _ h => ⟨h.1, fun _ => h.2⟩) fun _ _ _ => trivial
    | false => exact hwrites.imp (fun _ _ _ _ h => ⟨h, fun hc => nomatch hq.symm.trans hc⟩) fun _ _ h => h
  intro hq
  cases q with
  | releaseRunLock threadId' status values ownerToken =>
    simp only [Request.carries, Bool.and_eq_true, beq_iff_eq] at hq
    obtain ⟨rfl, rfl⟩ := hq
    exact (release_spares hT hp status values).map _
  | renewRunLock threadId' ownerToken =>
    simp only [Request.carries, Bool.and_eq_true, beq_iff_eq] at hq
    obtain ⟨rfl, rfl⟩ := hq
    exact (renew_spares hT hp).map _
  | _ => exact nomatch hq

theorem phase_compatible (threadId token : String) :
    Pool.Compatible (phaseService threadId token) Request.program (fun _ _ _ => True)
      (fun _ => Turns threadId) (Kept threadId token) (fun _ _ _ _ => True)
      (fun p => Stamped p.table ∧ p.Above threadId) where
  refl _ p := .refl p
  trans _ := .trans
  rely _ _ hstep _ := hstep.2.1
  stable _ _ := trivial
  inv hstep _ hp := ⟨hstep.2.1.evolves.stamped hp.1, hstep.2.1.above hp.2⟩
  safe hp _ := request_kept hp.1 hp.2 _

theorem runs_phase {P P' : Clients} {t : List StoreEvent} (since : Option Nat)
    (h : Pool.Runs (fun i _ => service i) Request.program (fun _ _ _ => True) P t P')
    (hreads : since.isSome → ∀ e ∈ t, ReadsGone threadId token e) :
    Pool.Runs (phaseService threadId token) Request.program (fun _ _ _ => True)
      ⟨P.clients, ⟨P.store, since⟩⟩ (t.map (Pool.Event.map fun T => ⟨T, since⟩))
      ⟨P'.clients, ⟨P'.store, since⟩⟩ := by
  apply h.embed (fun T => Phase.mk T since) (fun h => h)
  intro i q o T a T' hmem hstep
  refine ⟨hstep, turns_of_evolves (step_evolves _ hstep), ?_⟩
  rintro hsome hq key rfl row hrow
  exact hreads hsome _ hmem hq row hrow

abbrev PhaseSound (threadId token : String)
    (P : Pool (interface Property) Exn Response Phase Nat Request) : Prop :=
  Pool.Sound (phaseService threadId token) (fun _ => Turns threadId) (Kept threadId token)
    (fun _ _ _ _ => True) (fun p => Stamped p.table ∧ p.Above threadId) P

theorem StoreRun.reclaimed {clock : Int} {t₁ t₂ : List StoreEvent} {e : StoreEvent} {P : Clients}
    (h : StoreRun clock (t₁ ++ e :: t₂) P) (he : Reclaims threadId token e)
    (hreads : ∀ e' ∈ t₂, ReadsGone threadId token e') :
    ∃ n P₂ P', PhaseSound threadId token P₂ ∧
      Pool.Runs (phaseService threadId token) Request.program (fun _ _ _ => True) P₂
        (t₂.map (Pool.Event.map fun T => ⟨T, some n⟩)) P' := by
  have hsat := h.sound.2 e (by simp)
  obtain ⟨P₁, h₁, h₂⟩ := h.split
  cases h₂ with
  | @cons _ _ P₂ _ _ hstep h₂ =>
    cases hstep with
    | start _ _ => exact he.elim
    | leave _ => exact he.elim
    | @op i q o k a T' hcall hs =>
      have hturns : Turns threadId ⟨P₁.store, none⟩ ⟨T', some P₁.store.nextEtag⟩ := by
        cases hsat.2.2.of_written he.2.1 with
        | reset _ _ _ _ _ => exact turns_put ..
        | _ => exact nomatch he.1
      have hbefore : Pool.Runs (phaseService threadId token) _ _ _ _ _ :=
        runs_phase none h₁ fun h => nomatch h
      have hidle : PhaseSound threadId token (Pool.idle ⟨emptyTable clock, none⟩) :=
        Pool.sound_idle ⟨stamped_emptyTable clock, fun _ hn => nomatch hn⟩
      have hP₁ := (Pool.sound_runs (phase_compatible threadId token) hbefore hidle).1
      have hs' : (phaseService threadId token i q).step o ⟨P₁.store, none⟩ a
          ⟨T', some P₁.store.nextEtag⟩ := ⟨hs, hturns, fun h => nomatch h⟩
      have hstep' : Pool.Step (phaseService threadId token) Request.program (fun _ _ _ => True)
          ⟨P₁.clients, ⟨P₁.store, none⟩⟩ _ _ := .op hcall hs'
      have hP₂ := (Pool.sound_step (phase_compatible threadId token) hstep' hP₁).1
      exact ⟨_, _, _, hP₂, runs_phase _ h₂ fun _ => hreads⟩

theorem renew_refused (hT : Stamped p.table) (hsome : p.since.isSome) :
    (Request.renewRunLock threadId token).program.Safe
      (phaseService threadId token me (.renewRunLock threadId token)) (Turns threadId)
      (fun _ _ _ _ => True) (fun r _ => ∀ b, r = .ok (.flag b) → b = false) p := by
  intro p₁ h₁ a p₂ hs₂
  refine ⟨trivial, ?_⟩
  cases a with
  | error f => exact fun b h => nomatch h
  | ok row =>
    change Prog.Safe _ _ _ _ (Response.flag <$> if holdsToken row.entity token then _ else _) p₂
    split
    · next htoken =>
      obtain ⟨n, hn⟩ := Option.isSome_iff_exists.mp hsome
      have hread := since_of_holdsToken (by simp [Request.carries]) hs₂ htoken (h₁.evolves.stamped hT)
      exact nomatch hread.1.symm.trans (h₁.kept n hn)
    · rintro b ⟨⟩
      rfl

theorem StoreRun.spared {clock : Int} {t₁ t₂ : List StoreEvent} {e : StoreEvent} {P : Clients}
    (h : StoreRun clock (t₁ ++ e :: t₂) P) (he : Reclaims threadId token e)
    (hreads : ∀ e' ∈ t₂, ReadsGone threadId token e') {i : Nat} {o : Op Property} {T T' : Table}
    {a : o.Ans} (hmem : .op i q o T a T' ∈ t₂) (hq : q.carries threadId token) :
    written o a ≠ some threadId ∧ Writes (Wrote q) o T a T' := by
  obtain ⟨n, P₂, P', hP₂, hrun⟩ := h.reclaimed he hreads
  have hmap := List.mem_map_of_mem (f := Pool.Event.map fun T => Phase.mk T (some n)) hmem
  obtain ⟨hwrites, hspares⟩ :=
    ((Pool.sound_runs (phase_compatible threadId token) hrun hP₂).2 _ hmap).2.2
  exact ⟨hspares hq rfl, hwrites⟩

def reacquired : List (Nat × Request) :=
  [(0, .create none), (1, .tryAcquireRunLock "u" none), (2, .resetStaleLocks 0 .idle),
    (3, .tryAcquireRunLock "u" none), (1, .releaseRunLock "u" .error none (some "uu")),
    (1, .renewRunLock "u" "uu")]

def notReacquired : List (Nat × Request) :=
  [(0, .create none), (1, .tryAcquireRunLock "u" none), (2, .resetStaleLocks 0 .idle),
    (1, .releaseRunLock "u" .error none (some "uu"))]

end LangGraphFunctions.Stores.AzureTable

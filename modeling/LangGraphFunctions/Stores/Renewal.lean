import LangGraphFunctions.Stores.Fencing

/-! When a renewal reports that the lock is lost. -/

namespace LangGraphFunctions.Stores.AzureTable

open Lib EtagTable Platform

abbrev Trace := List (Lib.Event (interface Property) Table)

def moments (T : Table) (t : Trace) : List Table := T :: t.flatMap Lib.Event.states

def Lost (threadId token : String) (T : Table) : Prop :=
  ∃ row, T.row? threadId = some row ∧ ¬holdsToken row.entity token

/-- The renewal's conditional write finds the row that the renewal read. -/
def Undisturbed (threadId : String) (t : Trace) : Prop :=
  ∀ T₁ a T₁' entity mode etag T₂ b T₂', .call (.get threadId) T₁ a T₁' ∈ t →
    .call (.update threadId entity mode etag) T₂ b T₂' ∈ t →
    T₂.row? threadId = T₁.row? threadId

variable {threadId token : String} {T T' : Table} {t : Trace} {me : Nat} {b : Bool}
  {R : Table → Table → Prop}

theorem renew_exec (hT : Stamped T)
    (h : Exec (service me) Evolves (renewRunLock threadId token) T t (.ret b) T') :
    ∃ u T₁ row t', t = u ++ .call (.get threadId) T₁ (.ok row) T₁ :: t' ∧ (∀ e ∈ u, e.isEnv) ∧
      T₁.row? threadId = some row ∧
      (¬holdsToken row.entity token ∧ b = false ∧ t' = [] ∨
      ∃ v T₂ now T₂' w T₃ c T₃', t' = v ++ .call .now T₂ now T₂' ::
          (w ++ [.call (.update threadId (renewPatch threadId now) .merge row.etag) T₃ c T₃']) ∧
        (∀ e ∈ v, e.isEnv) ∧ (∀ e ∈ w, e.isEnv) ∧
        (b = true ∧ T₃.row? threadId = some row ∨
          b = false ∧ ∃ row', T₃.row? threadId = some row' ∧ row'.etag ≠ row.etag)) := by
  obtain ⟨u, T₁, a, T₁', t', rfl, hu, hE₁, hget, h₁⟩ := h.head Evolves.refl Evolves.trans
  cases a with
  | error f => exact nomatch h₁
  | ok row =>
    obtain ⟨rfl, hrow⟩ := step_get me hget
    refine ⟨u, T₁', row, t', rfl, hu, hrow, ?_⟩
    change Exec _ _ (if holdsToken row.entity token then _ else _) _ _ _ _ at h₁
    split at h₁
    · next htoken =>
      right
      obtain ⟨v, T₂, now, T₂', t'', rfl, hv, hE₂, hnow, h₂⟩ := h₁.head Evolves.refl Evolves.trans
      obtain ⟨w, T₃, c, T₃', t''', rfl, hw, hE₃, hupdate, h₃⟩ := h₂.head Evolves.refl Evolves.trans
      have hseen : Seen threadId row T₃ :=
        ((seen_of_row? (hE₁.stamped hT) hrow).evolves hE₂).evolves
          ((step_evolves me (o := .now) hnow).trans hE₃)
      cases c with
      | ok c =>
        cases h₃
        refine ⟨v, T₂, now, T₂', w, T₃, _, _, rfl, hv, hw, .inl ⟨rfl, ?_⟩⟩
        exact (hseen.update_ok me hupdate rfl).1
      | error f =>
        cases f with
        | modified =>
          cases h₃
          refine ⟨v, T₂, now, T₂', w, T₃, _, _, rfl, hv, hw, .inr ⟨rfl, ?_⟩⟩
          exact (step_modified me hupdate).2
        | notFound => exact nomatch h₃
        | «exists» => exact nomatch h₃
        | other m => exact nomatch h₃
    · next htoken =>
      cases h₁
      exact .inl ⟨htoken, rfl, rfl⟩

theorem undisturbed_iff {u v w : Trace} {row : Row} {T₁ T₂ T₂' T₃ T₃' : Table} {now : Int}
    {entity : Entity} {mode : EtagTable.Mode} {etag : Nat} {c : Except Failure Unit}
    (hu : ∀ e ∈ u, e.isEnv) (hv : ∀ e ∈ v, e.isEnv) (hw : ∀ e ∈ w, e.isEnv) :
    Undisturbed threadId (u ++ .call (.get threadId) T₁ (.ok row) T₁ :: (v ++ .call .now T₂ now T₂' ::
        (w ++ [.call (.update threadId entity mode etag) T₃ c T₃']))) ↔
      T₃.row? threadId = T₁.row? threadId := by
  have hcalls : ∀ {o : Op Property} {T T' : Table} {a : o.Ans}, .call o T a T' ∈
      u ++ .call (.get threadId) T₁ (.ok row) T₁ :: (v ++ .call .now T₂ now T₂' ::
        (w ++ [.call (.update threadId entity mode etag) T₃ c T₃'])) ↔
      .call o T a T' ∈ ([.call (.get threadId) T₁ (.ok row) T₁, .call .now T₂ now T₂',
        .call (.update threadId entity mode etag) T₃ c T₃'] : Trace) := by
    intro o T T' a
    have hnot : ∀ {x : Trace}, (∀ e ∈ x, e.isEnv) → .call o T a T' ∉ x :=
      fun hx hmem => nomatch hx _ hmem
    simp only [List.mem_append, List.mem_cons, hnot hu, hnot hv, hnot hw, false_or]
  constructor
  · intro h
    exact h T₁ _ T₁ _ _ _ T₃ _ T₃' (hcalls.mpr (.head _)) (hcalls.mpr (.tail _ (.tail _ (.head _))))
  · intro h T₄ a T₄' entity' mode' etag' T₅ b T₅' hget hupdate
    have hT₄ : T₄ = T₁ := by
      cases hcalls.mp hget with
      | head => rfl
      | tail _ hmem => nomatch hmem
    have hT₅ : T₅ = T₃ := by
      cases hcalls.mp hupdate with
      | tail _ hmem =>
        cases hmem with
        | tail _ hmem =>
          cases hmem with
          | head => rfl
          | tail _ hmem => nomatch hmem
    rw [hT₄, hT₅, h]

/-- A renewal reports only a real loss exactly where no other write comes between its read and its
write while the lock is held. -/
theorem renew_reports_loss_iff (hT : Stamped T)
    (h : Exec (service me) Evolves (renewRunLock threadId token) T t (.ret b) T') :
    (b = false → ∃ T₁ ∈ moments T t, Lost threadId token T₁) ↔
      ((∀ T₁ ∈ moments T t, ¬Lost threadId token T₁) → Undisturbed threadId t) := by
  obtain ⟨u, T₁, row, t', rfl, hu, hrow, hanswer⟩ := renew_exec hT h
  obtain ⟨htoken, rfl, rfl⟩ | ⟨v, T₂, now, T₂', w, T₃, c, T₃', rfl, hv, hw, hanswer⟩ := hanswer
  · have hlost : ∃ T₂ ∈ moments T (u ++ [.call (.get threadId) T₁ (.ok row) T₁]),
        Lost threadId token T₂ := ⟨T₁, by simp [moments, Lib.Event.states], row, hrow, htoken⟩
    constructor
    · rintro - hnone
      obtain ⟨T₁, hmem, hlost⟩ := hlost
      exact absurd hlost (hnone T₁ hmem)
    · exact fun _ _ => hlost
  · rw [undisturbed_iff hu hv hw]
    obtain ⟨rfl, hsame⟩ | ⟨rfl, row', hrow', hetag⟩ := hanswer
    · constructor
      · exact fun _ _ => hsame.trans hrow.symm
      · exact fun _ hb => nomatch hb
    · have hother : T₃.row? threadId ≠ T₁.row? threadId := by
        rw [hrow', hrow]
        rintro ⟨⟩
        exact hetag rfl
      constructor
      · intro h hnone
        obtain ⟨T₁, hmem, hlost⟩ := h rfl
        exact absurd hlost (hnone T₁ hmem)
      · intro h _
        by_contra hnone
        exact hother (h fun T₁ hmem hlost => hnone ⟨T₁, hmem, hlost⟩)

theorem HeldBy.not_lost (h : HeldBy threadId token T) : ¬Lost threadId token T := by
  rintro ⟨row, hrow, hnot⟩
  obtain ⟨held, hheld, -, htoken⟩ := h
  cases hheld.symm.trans hrow
  exact hnot htoken

theorem renew_conflict {row row' : Row} (hrow : T.row? threadId = some row)
    (htoken : holdsToken row.entity token) (hmove : R T T') (hrow' : T'.row? threadId = some row')
    (hetag : row'.etag ≠ row.etag) :
    ∃ t T'', Exec (service me) R (renewRunLock threadId token) T t (.ret false) T'' ∧
      ∀ m ∈ moments T t, m = T ∨ m = T' := by
  have hget : (service me).step (.get threadId) T (.ok row) T := by
    refine ⟨.inl ?_, rfl⟩
    rw [Table.read, hrow]
  have hnow : (service me).step .now T' T'.clock T' := ⟨Int.le_refl _, rfl⟩
  have hupdate : (service me).step (.update threadId (renewPatch threadId T'.clock) .merge row.etag)
      T' (.error .modified) T' := by
    left
    rw [Table.update, hrow']
    exact (if_neg hetag).symm
  refine ⟨[.call (.get threadId) T (.ok row) T, .env T T', .call .now T' T'.clock T', .call (.update
    threadId (renewPatch threadId T'.clock) .merge row.etag) T' (.error .modified) T'], T',
    .call hget ?_, ?_⟩
  · change Exec _ _ (if holdsToken row.entity token then _ else _) _ _ _ _
    rw [if_pos htoken]
    exact .env hmove (.call hnow (.call hupdate .stop))
  · simp [moments, Lib.Event.states]

def OtherUpdate (threadId : String) (T T' : Table) : Prop :=
  ∃ metadata values interrupts,
    T' = ((AzureTable.update threadId metadata none values interrupts none).run (act 2) T).2

def lockedRun : List StoreEvent × Clients :=
  played [(0, .create none), (1, .tryAcquireRunLock "u" none)]

def annotated : Table :=
  ((AzureTable.update "u" (some ∅) none none none none).run (act 2) lockedRun.2.store).2

theorem renew_annotated {R : Table → Table → Prop} (hR : R lockedRun.2.store annotated) :
    ∃ t T', Exec (service 1) R (renewRunLock "u" "uu") lockedRun.2.store t (.ret false) T' ∧
      ∀ m ∈ moments lockedRun.2.store t, ¬Lost "u" "uu" m := by
  have hlocked : HeldBy "u" "uu" lockedRun.2.store := by decide +kernel
  have hannotated : HeldBy "u" "uu" annotated := by decide +kernel
  have hetag : (annotated.row? "u").map (·.etag) ≠ (lockedRun.2.store.row? "u").map (·.etag) := by
    decide +kernel
  obtain ⟨row, hrow, -, htoken⟩ := id hlocked
  obtain ⟨row', hrow', -, -⟩ := id hannotated
  rw [hrow, hrow'] at hetag
  obtain ⟨t, T', hx, hmoments⟩ := renew_conflict hrow htoken hR hrow' fun h =>
    hetag (congrArg some h)
  refine ⟨t, T', hx, fun m hm => ?_⟩
  obtain rfl | rfl := hmoments m hm
  · exact hlocked.not_lost
  · exact hannotated.not_lost

theorem renew_reports_loss_annotated :
    ∃ t T', Exec (service 1) Evolves (renewRunLock "u" "uu") lockedRun.2.store t (.ret false) T' ∧
      ((false = false → ∃ m ∈ moments lockedRun.2.store t, Lost "u" "uu" m) ↔
        ((∀ m ∈ moments lockedRun.2.store t, ¬Lost "u" "uu" m) → Undisturbed "u" t)) := by
  obtain ⟨t, T', hx, -⟩ := renew_annotated (evolves_run 2 _ _)
  exact ⟨t, T', hx, renew_reports_loss_iff (StoreRun.sound (storeRun_played _)).1.1 hx⟩

theorem renew_reports_no_loss :
    StoreRun 0 lockedRun.1 lockedRun.2 ∧ ¬∀ t b T',
      Exec (service 1) (OtherUpdate "u") (renewRunLock "u" "uu") lockedRun.2.store t (.ret b) T' →
        b = false → ∃ m ∈ moments lockedRun.2.store t, Lost "u" "uu" m := by
  refine ⟨storeRun_played _, fun h => ?_⟩
  have hupdate : OtherUpdate "u" lockedRun.2.store annotated := ⟨some ∅, none, none, rfl⟩
  obtain ⟨t, T', hx, hheld⟩ := renew_annotated hupdate
  obtain ⟨m, hm, hlost⟩ := h t false T' hx rfl
  exact hheld m hm hlost

end LangGraphFunctions.Stores.AzureTable

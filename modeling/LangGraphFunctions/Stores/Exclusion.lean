import LangGraphFunctions.Stores.RunTokens

/-! The run lock over every run: any number of clients, one table, one operation at a time. -/

namespace LangGraphFunctions.Stores.AzureTable

open Lib EtagTable Platform

abbrev Clients := Pool (interface Property) Exn Response Table Nat Request
abbrev StoreEvent := Pool.Event (interface Property) Exn Response Table Nat Request

def emptyTable (clock : Int) : Table := ⟨∅, 0, clock, []⟩

abbrev StoreRun (clock : Int) (t : List StoreEvent) (P : Clients) : Prop :=
  Pool.Runs (fun i _ => service i) Request.program (fun _ _ _ => True) (Pool.idle (emptyTable clock)) t P

def Acquires (threadId token : String) : StoreEvent → Prop
  | .op _ q o _ a T' => q.isAcquire ∧ written o a = some threadId ∧ HeldBy threadId token T'
  | _ => False

def Ends (threadId token : String) : StoreEvent → Prop
  | .op _ q o _ a _ => written o a = some threadId ∧ Frees token q
  | _ => False

def Carries (threadId token : String) : StoreEvent → Prop
  | .op _ q _ _ _ _ => (∃ status values, q = .releaseRunLock threadId status values (some token)) ∨
      q = .renewRunLock threadId token
  | _ => False

def KeepsRow (threadId : String) : StoreEvent → Prop
  | .op _ _ _ T _ T' => T'.row? threadId = T.row? threadId
  | _ => True

/-- A release that writes keeps all it found but the lock, the status, the times and the values
it stores itself. -/
def KeepsFields : StoreEvent → Prop
  | .op _ (.releaseRunLock threadId _ values _) o T a T' => written o a = some threadId →
      ∃ row row', T.row? threadId = some row ∧ T'.row? threadId = some row' ∧
        ∀ name, name ∉ ["lock_token", "lock_expires_at", "etag", "Timestamp", "status",
            "updated_at"] →
          (values.isSome → ownsKey "values_json" name = false) →
          row'.entity.get? name = row.entity.get? name
  | _ => True

def Excludes (threadId : String) (t : List StoreEvent) : Prop :=
  ∀ t₁ e t₂ e' t₃ token token', t = t₁ ++ e :: (t₂ ++ e' :: t₃) → Acquires threadId token e →
    Acquires threadId token' e' → ∃ e₂ ∈ t₂, Ends threadId token e₂

def Fences (threadId : String) (t : List StoreEvent) : Prop :=
  ∀ t₁ e t₂ e' t₃ e'' t₄ token token', t = t₁ ++ e :: (t₂ ++ e' :: (t₃ ++ e'' :: t₄)) →
    Acquires threadId token e → Acquires threadId token' e' → Carries threadId token e'' →
    KeepsRow threadId e''

/-- A sweep writes only rows that are busy, and older than the cutoff of its first clock reading,
at the time of the write. -/
def SweepsStale (threadId : String) (t : List StoreEvent) : Prop :=
  ∀ t₁ i seconds status s t₂ o T a T' t₃,
    t = t₁ ++ .start i (.resetStaleLocks seconds status) s ::
      (t₂ ++ .op i (.resetStaleLocks seconds status) o T a T' :: t₃) →
    (∀ q s, .start i q s ∉ t₂) → written o a = some threadId →
    ∃ u T₁ start T₂ u' row,
      t₂ = u ++ .op i (.resetStaleLocks seconds status) .now T₁ start T₂ :: u' ∧
      (∀ e ∈ u, e.client ≠ i) ∧ T.row? threadId = some row ∧ isBusy row.entity ∧
      isOlder row.entity (start - seconds)

variable {threadId token token' : String} {t : List StoreEvent} {P P' : Clients} {q : Request}
  {T T' : Table} {clock : Int}

theorem stamped_emptyTable (clock : Int) : Stamped (emptyTable clock) := by
  intro key r h
  rw [Table.row?, emptyTable, Dict.get?_empty] at h
  cases h

theorem store_compatible : Pool.Compatible (fun i _ => service i) Request.program (fun _ _ _ => True)
    (fun _ => Evolves) (fun _ q => Writes (Wrote q)) (fun _ _ _ _ => True) Stamped where
  refl _ T := .refl T
  trans _ := .trans
  rely _ _ hstep _ := step_evolves _ hstep
  stable _ _ := trivial
  inv hstep _ hT := (step_evolves _ hstep).stamped hT
  safe hT _ := request_guarded hT _

theorem StoreRun.sound (h : StoreRun clock t P) :
    Pool.Sound (fun i _ => service i) (fun _ => Evolves) (fun _ q => Writes (Wrote q)) (fun _ _ _ _ => True)
      Stamped P ∧ ∀ e ∈ t, e.Satisfies (fun i _ => service i) (fun _ q => Writes (Wrote q)) (fun _ _ _ _ => True)
      Stamped :=
  Pool.sound_runs store_compatible h (Pool.sound_idle (stamped_emptyTable clock))

theorem row?_of_not_written {o : Op Property} {a : o.Ans} (h : Writes (Wrote q) o T a T')
    (hwritten : written o a ≠ some threadId) : T'.row? threadId = T.row? threadId := by
  cases hkey : written o a with
  | none =>
    rw [Writes, hkey] at h
    rw [Table.row?, show T'.rows = T.rows from h, Table.row?]
  | some key =>
    apply row?_wrote (h.of_written hkey)
    rintro rfl
    exact hwritten hkey

theorem HeldBy.of_op {o : Op Property} {a : o.Ans} (hheld : HeldBy threadId token T)
    (h : Writes (Wrote q) o T a T') (hends : ¬(written o a = some threadId ∧ Frees token q)) :
    HeldBy threadId token T' := by
  by_cases hwritten : written o a = some threadId
  · cases heldBy_wrote hheld (h.of_written hwritten) with
    | inl hheld' => exact hheld'
    | inr hfrees => exact absurd ⟨hwritten, hfrees⟩ hends
  · rw [HeldBy, row?_of_not_written h hwritten]
    exact hheld

theorem StoreRun.excludes (h : StoreRun clock t P) : Excludes threadId t := by
  rintro t₁ e t₂ e' t₃ token token' rfl he he'
  have hsat := h.sound.2
  obtain ⟨P₁, -, h₁⟩ := h.split
  cases e with
  | start i q s => exact he.elim
  | leave i q p s => exact he.elim
  | op i q o T a T' =>
    obtain ⟨-, P₂, rfl, h₂⟩ := h₁.op
    obtain ⟨P₃, hmid, h₃⟩ := h₂.split
    by_contra hnone
    have hheld : HeldBy threadId token P₃.store := by
      apply hmid.keeps _ he.2.2
      intro i q o T a T' hmem hheld
      have hop := hsat (.op i q o T a T') (by simp [hmem])
      exact hheld.of_op hop.2.2 fun hends => hnone ⟨_, hmem, hends⟩
    cases e' with
    | start i q s => exact he'.elim
    | leave i q p s => exact he'.elim
    | op i q o T₃ a T₄ =>
      obtain ⟨rfl, -⟩ := h₃.op
      have hop := hsat (.op i q o P₃.store a T₄) (by simp)
      exact (acquires_wrote he'.1 (hop.2.2.of_written he'.2.1)).2 token hheld

def Gone (threadId token : String) (H : History) : Prop :=
  token ∈ H.spent ∧ ∀ row, H.table.row? threadId = some row → ¬holdsToken row.entity token

theorem Gone.of_noted {i : Nat} {H H' : History} {o : Op Property} {a : o.Ans}
    (hspent : token ∈ H.spent) (hstep : (historyService i).step o H a H') (h : Noted i q o H a H')
    (hrow : written o a = some threadId ∧ q.isAcquire ∨ Gone threadId token H) :
    Gone threadId token H' := by
  constructor
  · rw [hstep.2]
    exact List.mem_append_right _ hspent
  · intro row hrow' htoken
    have hmint : written o a = some threadId → q.isAcquire = true → False := fun hwritten hq =>
      (h.mints hq threadId hwritten row hrow' token htoken).2 hspent
    obtain ⟨hwritten, hq⟩ | hgone := hrow
    · exact hmint hwritten hq
    · by_cases hwritten : written o a = some threadId
      · cases hq : q.isAcquire with
        | true => exact hmint hwritten hq
        | false =>
          obtain ⟨old, hold, hholds⟩ :=
            holdsToken_wrote (h.writes.of_written hwritten) hq hrow' htoken
          exact hgone.2 old hold hholds
      · rw [row?_of_not_written h.writes hwritten] at hrow'
        exact hgone.2 row hrow' htoken

theorem not_wrote_of_carries (hrow : ∀ row, T.row? threadId = some row → ¬holdsToken row.entity token)
    (hcarries : (∃ status values, q = .releaseRunLock threadId status values (some token)) ∨
      q = .renewRunLock threadId token) : ¬Wrote q threadId T T' := by
  intro hwrote
  obtain ⟨status, values, rfl⟩ | rfl := hcarries
  · cases hwrote with
    | release _ hold hstale _ =>
      apply hrow _ hold
      simpa [isStale] using hstale
  · cases hwrote with
    | renew hold hholds => exact hrow _ hold hholds

theorem recorded_emptyTable (clock : Int) : Recorded ⟨emptyTable clock, []⟩ where
  stamped := stamped_emptyTable clock
  owner hi := nomatch hi
  issued _ h := nomatch h
  rows _ h := nomatch h

theorem StoreRun.noted (h : StoreRun clock t P) :
    ∃ t' P', Pool.Runs (fun i _ => historyService i) Request.program (fun _ _ _ => True)
        (Pool.idle ⟨emptyTable clock, []⟩) t' P' ∧
      (∀ e ∈ t', e.Satisfies (fun i _ => historyService i) Noted (fun _ _ _ _ => True) Recorded) ∧
      t'.map (Pool.Event.map History.table) = t := by
  have hrecord : ∀ {i : Nat} {o : Op Property} {H : History} {a : o.Ans} {T' : Table},
      (service i).step o H.table a T' → ∃ H', H'.table = T' ∧ (historyService i).step o H a H' :=
    fun {_ _ H _ T'} hstep => ⟨⟨T', rowTokens T' ++ H.spent⟩, rfl, hstep, rfl⟩
  have hempty : (⟨emptyTable clock, []⟩ : History).table = emptyTable clock := rfl
  obtain ⟨t', H', hrun, -, hmap⟩ := h.lift History.table hrecord hempty
  have hsound := Pool.sound_runs history_compatible hrun
    (Pool.sound_idle (recorded_emptyTable clock))
  exact ⟨t', _, hrun, hsound.2, hmap⟩

theorem StoreRun.fences (h : StoreRun clock t P) : Fences threadId t := by
  rintro t₁ e t₂ e' t₃ e'' t₄ token token' ht he he' hcarries
  obtain ⟨t', P', hrun, hsat, rfl⟩ := h.noted
  obtain ⟨u₁, v₁, rfl, -, hv₁⟩ := List.map_eq_append_iff.mp ht
  obtain ⟨f, v₂, rfl, rfl, hv₂⟩ := List.map_eq_cons_iff.mp hv₁
  obtain ⟨u₂, v₃, rfl, -, hv₃⟩ := List.map_eq_append_iff.mp hv₂
  obtain ⟨f', v₄, rfl, rfl, hv₄⟩ := List.map_eq_cons_iff.mp hv₃
  obtain ⟨u₃, v₅, rfl, -, hv₅⟩ := List.map_eq_append_iff.mp hv₄
  obtain ⟨f'', u₄, rfl, rfl, -⟩ := List.map_eq_cons_iff.mp hv₅
  obtain ⟨P₁, -, hrun₁⟩ := hrun.split
  cases f with
  | start i q s => exact he.elim
  | leave i q p s => exact he.elim
  | op i q o H₁ a H₂ =>
    obtain ⟨-, P₂, rfl, hrun₂⟩ := hrun₁.op
    obtain ⟨P₃, hmid, hrun₃⟩ := hrun₂.split
    have hspent₂ : token ∈ P₂.store.spent := by
      obtain ⟨row, hrow, -, hholds⟩ := he.2.2
      obtain ⟨-, hstep, -⟩ := hsat (.op i q o H₁ a P₂.store) (by simp)
      rw [hstep.2]
      exact List.mem_append_left _ (mem_rowTokens.mpr ⟨threadId, row, hrow, hholds⟩)
    have hspent₃ : token ∈ P₃.store.spent := by
      refine hmid.keeps (J := fun H => token ∈ H.spent) ?_ hspent₂
      intro i q o H a H' hmem hspent
      obtain ⟨-, hstep, -⟩ := hsat (.op i q o H a H') (by simp [hmem])
      rw [hstep.2]
      exact List.mem_append_right _ hspent
    cases f' with
    | start i q s => exact he'.elim
    | leave i q p s => exact he'.elim
    | op i' q' o' H₃ a' H₄ =>
      obtain ⟨rfl, P₄, rfl, hrun₄⟩ := hrun₃.op
      obtain ⟨P₅, hmid', hrun₅⟩ := hrun₄.split
      obtain ⟨-, hstep', hnoted'⟩ := hsat (.op i' q' o' P₃.store a' P₄.store) (by simp)
      have hgone : Gone threadId token P₅.store := by
        apply hmid'.keeps _ (Gone.of_noted hspent₃ hstep' hnoted' (.inl ⟨he'.2.1, he'.1⟩))
        intro i q o H a H' hmem hgone
        obtain ⟨-, hstep, hnoted⟩ := hsat (.op i q o H a H') (by simp [hmem])
        exact Gone.of_noted hgone.1 hstep hnoted (.inr hgone)
      cases f'' with
      | start i q s => exact hcarries.elim
      | leave i q p s => exact hcarries.elim
      | op i'' q'' o'' H₅ a'' H₆ =>
        obtain ⟨rfl, -⟩ := hrun₅.op
        obtain ⟨-, -, hnoted''⟩ := hsat (.op i'' q'' o'' P₅.store a'' H₆) (by simp)
        apply row?_of_not_written hnoted''.writes
        intro hwritten
        exact not_wrote_of_carries hgone.2 hcarries (hnoted''.writes.of_written hwritten)

theorem StoreRun.keepsFields (h : StoreRun clock t P) : ∀ e ∈ t, KeepsFields e := by
  intro e he
  have hsat := h.sound.2 e he
  cases e with
  | start i q s => trivial
  | leave i q p s => trivial
  | op i q o T a T' =>
    cases q with
    | releaseRunLock threadId status values ownerToken =>
      intro hwritten
      cases hsat.2.2.of_written hwritten with
      | @release _ _ row entity _ _ _ _ _ hrow _ hreleased =>
        refine ⟨row, ⟨entity, T.nextEtag⟩, hrow, by rw [row?_put, if_pos rfl], ?_⟩
        exact fun name => get?_released hreleased
    | _ => trivial

def Swept (cutoff : Int) (key : String) (T _ : Table) : Prop :=
  ∃ row, T.row? key = some row ∧ isBusy row.entity ∧ isOlder row.entity cutoff

theorem sweep_guarded {me : Nat} {seconds : Int} {status : ThreadStatus} {k : Int → Call Response}
    (hT : Stamped T) (hk : (Request.resetStaleLocks seconds status).program = .call .now k)
    (start : Int) : Guarded me (Swept (start - seconds)) (k start) T := by
  rw [Request.program, resetStaleLocks] at hk
  split at hk
  · cases hk
  · split at hk
    · cases hk
    · cases hk
      apply Prog.Safe.map
      apply resetOlder_guarded hT (Int.le_refl T.clock)
      intro key T' row now _ hrow hbusy hold
      exact ⟨row, hrow, hbusy, hold⟩

theorem sweep_first {seconds : Int} {status : ThreadStatus} {o : Op Property}
    {k : o.Ans → Call Response} (hk : (Request.resetStaleLocks seconds status).program = .call o k) :
    o = .now := by
  rw [Request.program, resetStaleLocks] at hk
  split at hk
  · cases hk
  · split at hk
    · cases hk
    · cases hk
      rfl

theorem StoreRun.sweepsStale (h : StoreRun clock t P) : SweepsStale threadId t := by
  rintro t₁ i seconds status s t₂ o T a T' t₃ rfl ht₂ hwritten
  obtain ⟨P₁, h₁, hrest⟩ := h.split
  cases hrest with
  | @cons _ _ P₂ _ _ hstart hrest =>
    have hP₂ : P₂.clients i = some (.resetStaleLocks seconds status,
        (Request.resetStaleLocks seconds status).program) := by
      cases hstart with
      | start _ _ => exact Function.update_self ..
    cases hrest.first_op hP₂ ht₂ with
    | inl hfirst =>
      obtain ⟨-, k, hk⟩ := hfirst
      cases sweep_first hk
      exact nomatch hwritten
    | inr hfirst =>
      obtain ⟨u, o₀, T₁, start, T₂, u', k, P₃, rfl, hu, hk, hP₃, hbefore, hafter⟩ := hfirst
      cases sweep_first hk
      have hP₁ := (StoreRun.sound h₁).1
      have hsound := (Pool.sound_runs store_compatible (.cons hstart hbefore) hP₁).1
      rw [List.append_cons] at hafter
      obtain ⟨P₄, hcall, -⟩ := hafter.split
      have hsafe : ∀ q p, P₃.clients i = some (q, p) → q = .resetStaleLocks seconds status ∧
          Guarded i (Swept (start - seconds)) p P₃.store := by
        intro q p hp
        cases hP₃.symm.trans hp
        exact ⟨rfl, sweep_guarded hsound.1 hk start⟩
      have hnone : ∀ q s, .start i q s ∉ u' ++ [.op i (.resetStaleLocks seconds status) o T a T'] := by
        intro q s hmem
        cases List.mem_append.mp hmem with
        | inl hmem => exact ht₂ q s (List.mem_append_right _ (List.mem_cons_of_mem _ hmem))
        | inr hmem => exact nomatch List.mem_singleton.mp hmem
      have hsat := hcall.focus store_compatible (fun _ _ => trivial) hsound hsafe hnone
      have hop := hsat (.op i (.resetStaleLocks seconds status) o T a T') (by simp) rfl
      obtain ⟨row, hrow, hbusy, hold⟩ := Writes.of_written hop.2.2 hwritten
      exact ⟨u, T₁, start, T₂, u', row, rfl, hu, hrow, hbusy, hold⟩

def twoRuns : List (Nat × Request) :=
  [(0, .create none), (1, .tryAcquireRunLock "u" none), (1, .releaseRunLock "u" .idle none (some "uu")),
    (2, .tryAcquireRunLock "u" none)]

def played (calls : List (Nat × Request)) : List StoreEvent × Clients :=
  Pool.play (fun i _ => act i) Request.program (Pool.Move.calls 12 calls) (Pool.idle (emptyTable 0))

theorem storeRun_played (calls : List (Nat × Request)) :
    StoreRun 0 (played calls).1 (played calls).2 :=
  Pool.runs_play (fun i _ => act_step i) _ _

end LangGraphFunctions.Stores.AzureTable

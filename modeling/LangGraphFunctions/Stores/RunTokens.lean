import LangGraphFunctions.Stores.RunLock

/-! Owner tokens are written once: the table together with every token it ever held. -/

namespace LangGraphFunctions.Stores.AzureTable

open Lib EtagTable Platform

structure History where
  table : Table
  spent : List String

def rowToken (row : Row) : Option String :=
  match row.entity.get? "lock_token" with
  | some (.str token) => some token
  | _ => none

def rowTokens (T : Table) : List String := T.rows.items.filterMap fun p => rowToken p.2

def historyService (me : Nat) : Prog.Service (interface Property) History where
  step o H a H' := EtagTable.step me o H.table a H'.table ∧ H'.spent = rowTokens H'.table ++ H.spent

variable {T : Table} {H H' H'' : History} {i j me : Nat} {threadId token : String} {q : Request}

theorem rowToken_eq_some {row : Row} : rowToken row = some token ↔ holdsToken row.entity token := by
  rw [holdsToken_iff, rowToken]
  split
  · next h => rw [h]; simp
  · next h =>
    constructor
    · intro h'
      cases h'
    · exact fun h' => absurd h' (h token)

theorem mem_rowTokens :
    token ∈ rowTokens T ↔ ∃ key row, T.row? key = some row ∧ holdsToken row.entity token := by
  rw [rowTokens, List.mem_filterMap]
  constructor
  · rintro ⟨⟨key, row⟩, hmem, htoken⟩
    exact ⟨key, row, Dict.get?_eq_some_iff.mpr hmem, rowToken_eq_some.mp htoken⟩
  · rintro ⟨key, row, hrow, htoken⟩
    exact ⟨(key, row), Dict.get?_eq_some_iff.mp hrow, rowToken_eq_some.mpr htoken⟩

/-- Tokens in rows were spent, spent tokens were issued, and each was issued to one client. -/
structure Recorded (H : History) : Prop where
  stamped : Stamped H.table
  owner : ∀ {i j token}, (i, token) ∈ H.table.issued → (j, token) ∈ H.table.issued → i = j
  issued : ∀ token ∈ H.spent, ∃ i, (i, token) ∈ H.table.issued
  rows : ∀ token ∈ rowTokens H.table, token ∈ H.spent

structure Tracks (i : Nat) (H H' : History) : Prop where
  evolves : Evolves H.table H'.table
  spent : ∀ token ∈ H.spent, token ∈ H'.spent
  own : ∀ token, (i, token) ∈ H.table.issued → token ∈ H'.spent → token ∈ H.spent
  recorded : Recorded H → Recorded H'

theorem Tracks.refl (i : Nat) (H : History) : Tracks i H H :=
  ⟨.refl _, fun _ h => h, fun _ _ h => h, id⟩

theorem Tracks.trans (h : Tracks i H H') (h' : Tracks i H' H'') : Tracks i H H'' where
  evolves := h.evolves.trans h'.evolves
  spent token ht := h'.spent token (h.spent token ht)
  own token hi ht := h.own token hi (h'.own token (h.evolves.issued _ hi) ht)
  recorded hH := h'.recorded (h.recorded hH)

def Mints (i : Nat) (q : Request) (o : Op Property) (H : History) (a : o.Ans) (H' : History) :
    Prop :=
  q.isAcquire → ∀ key, written o a = some key → ∀ row, H'.table.row? key = some row →
    ∀ token, holdsToken row.entity token → (i, token) ∈ H.table.issued ∧ token ∉ H.spent

theorem holdsToken_wrote {key : String} {T T' : Table} (hwrote : Wrote q key T T')
    (hq : q.isAcquire = false) {row : Row} (hrow : T'.row? key = some row)
    (htoken : holdsToken row.entity token) :
    ∃ old, T.row? key = some old ∧ holdsToken old.entity token := by
  cases hwrote with
  | create _ hnone =>
    rw [row?_put, if_pos rfl] at hrow
    cases hrow
    rw [holdsToken_iff, hnone] at htoken
    exact nomatch htoken
  | update hold hupdated =>
    rw [row?_put, if_pos rfl] at hrow
    cases hrow
    refine ⟨_, hold, ?_⟩
    rw [holdsToken_iff] at htoken ⊢
    rw [← (get?_updated hupdated).1, htoken]
  | delete =>
    rw [row?_erase, if_pos rfl] at hrow
    exact nomatch hrow
  | acquire _ _ _ _ => exact nomatch hq
  | release _ _ _ hreleased =>
    rw [row?_put, if_pos rfl] at hrow
    cases hrow
    rw [holdsToken_iff, get?_released_token hreleased] at htoken
    exact nomatch htoken
  | renew hold _ =>
    rw [row?_put, if_pos rfl] at hrow
    cases hrow
    refine ⟨_, hold, ?_⟩
    rw [holdsToken_iff, Dict.get?_update, get?_renewPatch _ (by decide), Option.none_or] at htoken
    exact holdsToken_iff.mpr htoken
  | reset hold _ _ _ _ =>
    rw [row?_put, if_pos rfl] at hrow
    cases hrow
    refine ⟨_, hold, ?_⟩
    rw [holdsToken_iff, Dict.get?_update, get?_resetPatch _ _ (by decide), Option.none_or] at htoken
    exact holdsToken_iff.mpr htoken

theorem row?_wrote {key key' : String} {T T' : Table} (hwrote : Wrote q key T T')
    (h : key' ≠ key) : T'.row? key' = T.row? key' := by
  cases hwrote with
  | delete => rw [row?_erase, if_neg h]
  | _ => rw [row?_put, if_neg h]

structure Noted (i : Nat) (q : Request) (o : Op Property) (H : History) (a : o.Ans) (H' : History) :
    Prop where
  writes : Writes (Wrote q) o H.table a H'.table
  mints : Mints i q o H a H'

theorem Noted.tokens {o : Op Property} {a : o.Ans} (h : Noted i q o H a H') (hH : Recorded H)
    (htoken : token ∈ rowTokens H'.table) :
    token ∈ H.spent ∨ (i, token) ∈ H.table.issued := by
  obtain ⟨key', row, hrow, hholds⟩ := mem_rowTokens.mp htoken
  have hwrites := h.writes
  have hmints := h.mints
  rw [Writes] at hwrites
  rw [Mints] at hmints
  cases hwritten : written o a with
  | none =>
    rw [hwritten] at hwrites
    change H'.table.rows = H.table.rows at hwrites
    rw [Table.row?, hwrites] at hrow
    exact .inl (hH.rows token (mem_rowTokens.mpr ⟨key', row, hrow, hholds⟩))
  | some key =>
    rw [hwritten] at hwrites
    cases hq : q.isAcquire with
    | true =>
      by_cases hkey : key' = key
      · exact .inr (hmints hq key' (hkey ▸ hwritten) row hrow token hholds).1
      · rw [row?_wrote hwrites hkey] at hrow
        exact .inl (hH.rows token (mem_rowTokens.mpr ⟨key', row, hrow, hholds⟩))
    | false =>
      by_cases hkey : key' = key
      · subst hkey
        obtain ⟨old, hold, hholds'⟩ := holdsToken_wrote hwrites hq hrow hholds
        exact .inl (hH.rows token (mem_rowTokens.mpr ⟨key', old, hold, hholds'⟩))
      · rw [row?_wrote hwrites hkey] at hrow
        exact .inl (hH.rows token (mem_rowTokens.mpr ⟨key', row, hrow, hholds⟩))

theorem Recorded.step {o : Op Property} {a : o.Ans} (hH : Recorded H)
    (hstep : (historyService me).step o H a H')
    (hnew : ∀ token ∈ rowTokens H'.table, token ∈ H.spent ∨ ∃ i, (i, token) ∈ H.table.issued) :
    Recorded H' where
  stamped := (step_evolves me hstep.1).stamped hH.stamped
  owner {i j token} hi hj := by
    obtain h | ⟨fresh, h, hfresh⟩ := step_issued me hstep.1
    · rw [h] at hi hj
      exact hH.owner hi hj
    · rw [h, List.mem_cons, Prod.mk.injEq] at hi hj
      obtain ⟨rfl, rfl⟩ | hi := hi
      · obtain ⟨rfl, -⟩ | hj := hj
        · rfl
        · exact absurd hj (hfresh j)
      · obtain ⟨rfl, rfl⟩ | hj := hj
        · exact absurd hi (hfresh i)
        · exact hH.owner hi hj
  issued token htoken := by
    have hkeep : ∀ {i}, (i, token) ∈ H.table.issued → ∃ i, (i, token) ∈ H'.table.issued :=
      fun h => ⟨_, (step_evolves me hstep.1).issued _ h⟩
    rw [hstep.2, List.mem_append] at htoken
    cases htoken with
    | inl hrow =>
      cases hnew token hrow with
      | inl hspent =>
        obtain ⟨i, hi⟩ := hH.issued token hspent
        exact hkeep hi
      | inr hissued =>
        obtain ⟨i, hi⟩ := hissued
        exact hkeep hi
    | inr hspent =>
      obtain ⟨i, hi⟩ := hH.issued token hspent
      exact hkeep hi
  rows token htoken := by
    rw [hstep.2]
    exact List.mem_append_left _ htoken

theorem Recorded.of_rows {o : Op Property} {a : o.Ans} (hH : Recorded H)
    (hstep : (historyService me).step o H a H') (hrows : H'.table.rows = H.table.rows) :
    Recorded H' := by
  apply hH.step hstep
  intro token htoken
  rw [rowTokens, hrows] at htoken
  exact .inl (hH.rows token htoken)

theorem Noted.recorded {o : Op Property} {a : o.Ans} (hH : Recorded H)
    (hstep : (historyService i).step o H a H') (h : Noted i q o H a H') : Recorded H' := by
  apply hH.step hstep
  intro token htoken
  cases h.tokens hH htoken with
  | inl hspent => exact .inl hspent
  | inr hi => exact .inr ⟨i, hi⟩

theorem Noted.tracks {o : Op Property} {a : o.Ans} (hij : i ≠ j) (hH : Recorded H)
    (hstep : (historyService j).step o H a H') (h : Noted j q o H a H') : Tracks i H H' where
  evolves := step_evolves j hstep.1
  spent token htoken := by
    rw [hstep.2]
    exact List.mem_append_right _ htoken
  own token hi htoken := by
    rw [hstep.2, List.mem_append] at htoken
    cases htoken with
    | inl hrow =>
      cases h.tokens hH hrow with
      | inl hspent => exact hspent
      | inr hj => exact absurd (hH.owner hi hj) hij
    | inr hspent => exact hspent
  recorded hH := h.recorded hH hstep

theorem mints_of_none {o : Op Property} {a : o.Ans} (h : written o a = none) :
    Mints i q o H a H' := fun _ _ hkey => nomatch h.symm.trans hkey

theorem acquire_mints (hH : Recorded H) (threadId : String) (assistantId : Option String) :
    (tryAcquireRunLock threadId assistantId).Safe (historyService me) (Tracks me)
      (Mints me (.tryAcquireRunLock threadId assistantId)) (fun _ _ => True) H := by
  rw [tryAcquireRunLock]
  generalize 3 = n
  induction n generalizing H with
  | zero => trivial
  | succ n ih =>
    rw [acquireAttempts]
    intro H₁ hT₁ a H₂ hs₂
    refine ⟨mints_of_none rfl, ?_⟩
    have hH₂ := (hT₁.recorded hH).of_rows hs₂ (congrArg Table.rows hs₂.1.2)
    cases a with
    | error f => cases f <;> trivial
    | ok row =>
      apply Prog.safe_ofExcept_bind
      · intro thread hthread
        split
        · trivial
        · split
          · trivial
          · intro H₃ hT₃ now H₄ hs₄
            refine ⟨mints_of_none rfl, ?_⟩
            have hH₄ := (hT₃.recorded hH₂).of_rows hs₄ ((congrArg Table.rows hs₄.1.2).trans rfl)
            intro H₅ hT₅ ownerToken H₆ hs₆
            refine ⟨mints_of_none rfl, ?_⟩
            have hH₅ := hT₅.recorded hH₄
            have hH₆ := hH₅.of_rows hs₆ ((congrArg Table.rows hs₆.1.2).trans rfl)
            have hissued : (me, ownerToken) ∈ H₆.table.issued := by
              rw [hs₆.1.2]
              exact List.mem_cons_self ..
            have hfresh : ownerToken ∉ H₆.spent := by
              have hrows : rowTokens H₆.table = rowTokens H₅.table := by
                rw [hs₆.1.2]
                rfl
              rw [hs₆.2, hrows, List.mem_append]
              rintro (h | h)
              · obtain ⟨i, hi⟩ := hH₅.issued _ (hH₅.rows _ h)
                exact hs₆.1.1 i hi
              · obtain ⟨i, hi⟩ := hH₅.issued _ h
                exact hs₆.1.1 i hi
            apply Prog.safe_ofExcept_bind
            · intro _ _ H₇ hT₇ b H₈ hs₈
              have hH₇ := hT₇.recorded hH₆
              obtain ⟨f, rfl, hsame⟩ | ⟨rfl, old, hold, -, hput⟩ := step_update me hs₈.1
              · refine ⟨mints_of_none rfl, ?_⟩
                cases f with
                | modified => exact ih (hH₇.of_rows hs₈ (congrArg Table.rows hsame))
                | notFound => trivial
                | «exists» => trivial
                | other m => trivial
              · refine ⟨?_, trivial⟩
                rintro - key ⟨⟩ row' hrow' token htoken
                rw [hput, row?_put, if_pos rfl] at hrow'
                cases hrow'
                rw [holdsToken_iff] at htoken
                change (old.entity.update _).get? _ = _ at htoken
                rw [Dict.get?_update, get?_lockPatch_token] at htoken
                cases htoken
                exact ⟨hT₇.evolves.issued _ hissued, fun h => hfresh (hT₇.own _ hissued h)⟩
            · intros; trivial
      · intros; trivial

theorem request_noted (hH : Recorded H) (q : Request) :
    q.program.Safe (historyService me) (Tracks me) (Noted me q) (fun _ _ => True) H := by
  have hwrites : q.program.Safe (historyService me) (Tracks me)
      (fun o H a H' => Writes (Wrote q) o H.table a H'.table) (fun _ _ => True) H :=
    Prog.Safe.comap History.table And.left Tracks.evolves (request_guarded hH.stamped q)
  have hmints : q.program.Safe (historyService me) (Tracks me) (Mints me q) (fun _ _ => True) H := by
    cases q with
    | tryAcquireRunLock threadId assistantId => exact (acquire_mints hH threadId assistantId).map _
    | _ => exact hwrites.imp (fun _ _ _ _ _ hq => nomatch hq) fun _ _ h => h
  exact (hwrites.and hmints).imp (fun _ _ _ _ h => ⟨h.1, h.2⟩) fun _ _ _ => trivial

theorem history_compatible : Pool.Compatible (fun i _ => historyService i) Request.program
    (fun _ _ _ => True) Tracks Noted (fun _ _ _ _ => True) Recorded where
  refl := Tracks.refl
  trans _ := Tracks.trans
  rely hij hH hstep h := h.tracks hij hH hstep
  stable _ _ := trivial
  inv hstep h hH := h.recorded hH hstep
  safe hH _ := request_noted hH _

end LangGraphFunctions.Stores.AzureTable

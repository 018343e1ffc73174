import LangGraphFunctions.Lib.Pool
import LangGraphFunctions.Lib.Transcript

/-! The calls of a client of a pool, each as a run of its own. -/

namespace LangGraphFunctions.Lib

variable {I : Interface} {ε α σ ι L : Type}

theorem Prog.Plays.call {A : (o : I.Op) → I.Ans o → Prop} {p : Prog I ε α} {w : Transcript I}
    {o : I.Op} {k : I.Ans o → Prog I ε α} {a : I.Ans o} (h : p.Plays A w (.call o k)) (ha : A o a) :
    p.Plays A (w ++ [⟨o, a⟩]) (k a) := by
  obtain ⟨t, ht⟩ := h
  suffices hfrom : ∀ {p q : Prog I ε α} {w₀ : Transcript I}, Exec (recorder A) Eq p w₀ t q w →
      Prog.call o k = q → ∃ t', Exec (recorder A) Eq p w₀ t' (k a) (w ++ [⟨o, a⟩]) from
    hfrom ht rfl
  clear ht
  intro p q w₀ ht hq
  induction ht with
  | stop =>
    subst hq
    exact ⟨_, .call ⟨ha, rfl⟩ .stop⟩
  | env hR _ ih =>
    subst hR
    exact ih hq
  | call hs _ ih =>
    obtain ⟨t', ht'⟩ := ih hq
    exact ⟨_, .call hs ht'⟩

namespace Pool

variable [DecidableEq ι]

def opsOf (i : ι) (t : List (Event I ε α σ ι L)) : Transcript I :=
  t.filterMap fun
    | .op j _ o _ a _ => if j = i then some ⟨o, a⟩ else none
    | _ => none

theorem opsOf_append (i : ι) (t u : List (Event I ε α σ ι L)) :
    opsOf i (t ++ u) = opsOf i t ++ opsOf i u := List.filterMap_append

theorem opsOf_singleton_of_ne {i : ι} {e : Event I ε α σ ι L} (h : e.client ≠ i) :
    opsOf i [e] = [] := by
  cases e with
  | op j l o s a s' =>
    change [Event.op j l o s a s'].filterMap _ = []
    rw [List.filterMap_cons_none, List.filterMap_nil]
    exact if_neg h
  | _ => rfl

theorem opsOf_op (i : ι) (l : L) (o : I.Op) (s : σ) (a : I.Ans o) (s' : σ) :
    opsOf i [(.op i l o s a s' : Event I ε α σ ι L)] = [⟨o, a⟩] := by
  change [Event.op i l o s a s'].filterMap _ = _
  rw [List.filterMap_cons_some, List.filterMap_nil]
  exact if_pos rfl

theorem mem_opsOf {i : ι} {t : List (Event I ε α σ ι L)} {o : I.Op} {a : I.Ans o} :
    ⟨o, a⟩ ∈ opsOf i t ↔ ∃ l s s', .op i l o s a s' ∈ t := by
  rw [opsOf, List.mem_filterMap]
  constructor
  · rintro ⟨e, he, h⟩
    cases e with
    | op j l o' s a' s' =>
      change (if j = i then some _ else none) = some _ at h
      split at h
      · next hj =>
        subst hj
        cases h
        exact ⟨l, s, s', he⟩
      · exact nomatch h
    | start j l s => exact nomatch h
    | leave j l p s => exact nomatch h
  · rintro ⟨l, s, s', h⟩
    exact ⟨_, h, if_pos rfl⟩

variable {S : ι → L → Prog.Service I σ} {prog : L → Prog I ε α} {Starts : ι → L → σ → Prop}
  {P P' : Pool I ε α σ ι L} {t : List (Event I ε α σ ι L)} {i : ι} {l : L}

theorem Runs.step_of_op (h : Runs S prog Starts P t P') {o : I.Op} {s s' : σ} {a : I.Ans o}
    (hmem : .op i l o s a s' ∈ t) : (S i l).step o s a s' := by
  induction h with
  | nil => exact absurd hmem List.not_mem_nil
  | cons hstep _ ih =>
    cases List.mem_cons.mp hmem with
    | inl heq =>
      subst heq
      cases hstep with
      | op _ hs => exact hs
    | inr hmem => exact ih hmem

theorem Runs.transcript {A : (o : I.Op) → I.Ans o → Prop} {u : List (Event I ε α σ ι L)} {s : σ}
    {l' : L} {p : Prog I ε α} (h : Runs S prog Starts P (t ++ .start i l s :: u) P')
    (hno : ∀ l s, .start i l s ∉ u) (hA : ∀ l o s a s', .op i l o s a s' ∈ u → A o a)
    (hp : P'.clients i = some (l', p)) : l' = l ∧ (prog l).Plays A (opsOf i u) p := by
  obtain ⟨P₁, -, h⟩ := h.split
  cases h with
  | cons hstart h =>
    suffices hJ : ∀ l' p, P'.clients i = some (l', p) →
        l' = l ∧ (prog l).Plays A (opsOf i ([] ++ u)) p from hJ l' p hp
    refine h.record (J := fun u P => ∀ l' p, P.clients i = some (l', p) →
        l' = l ∧ (prog l).Plays A (opsOf i u) p)
      (F := fun e => (∀ l s, e ≠ .start i l s) ∧ ∀ l o s a s', e = .op i l o s a s' → A o a) ?_
      (fun e he => ⟨fun l s heq => hno l s (heq ▸ he), fun l o s a s' heq => hA l o s a s' (heq ▸ he)⟩)
      fun l' p hl => ?_
    · intro u P e P' hJ hstep ⟨hstarts, hops⟩ l' p hl
      by_cases hi : e.client = i
      · cases hstep with
        | @start j l' _ _ =>
          obtain rfl : j = i := hi
          exact absurd rfl (hstarts _ _)
        | @op j l' o k a s' hcall hs =>
          obtain rfl : j = i := hi
          cases (Function.update_self ..).symm.trans hl
          obtain ⟨rfl, hplays⟩ := hJ _ _ hcall
          rw [opsOf_append, opsOf_op]
          exact ⟨rfl, hplays.call (hops _ _ _ _ _ rfl)⟩
        | @leave j l' p' _ =>
          obtain rfl : j = i := hi
          exact nomatch (Function.update_self ..).symm.trans hl
      · rw [hstep.clients_of_ne hi] at hl
        rw [opsOf_append, opsOf_singleton_of_ne hi, List.append_nil]
        exact hJ l' p hl
    · cases hstart with
      | start _ _ =>
        cases (Function.update_self ..).symm.trans hl
        exact ⟨rfl, Prog.plays_nil _⟩

theorem Runs.transcript_of_leave {A : (o : I.Op) → I.Ans o → Prop} {s s' : σ} {l' : L}
    {u v : List (Event I ε α σ ι L)} {p : Prog I ε α}
    (h : Runs S prog Starts P (t ++ .start i l s :: (u ++ .leave i l' p s' :: v)) P')
    (hno : ∀ l s, .start i l s ∉ u) (hA : ∀ l o s a s', .op i l o s a s' ∈ u → A o a) :
    l' = l ∧ (prog l).Plays A (opsOf i u) p := by
  rw [← List.cons_append, ← List.append_assoc] at h
  obtain ⟨P₁, h₁, h₂⟩ := h.split
  cases h₂ with
  | cons hstep _ =>
    cases hstep with
    | leave hcall => exact h₁.transcript hno hA hcall

theorem Runs.outcome {R : σ → σ → Prop} {G : (o : I.Op) → σ → I.Ans o → σ → Prop}
    {Q : Except ε α → σ → Prop} {s s' : σ} {u v : List (Event I ε α σ ι L)} {r : Except ε α}
    (htrans : ∀ {s s' s''}, R s s' → R s' s'' → R s s'') (hrefl : ∀ s, R s s)
    (hstable : ∀ {r s s'}, R s s' → Q r s → Q r s')
    (h : Runs S prog Starts P (t ++ .start i l s :: (u ++ .leave i l (.ofExcept r) s' :: v)) P')
    (hno : ∀ l s, .start i l s ∉ u)
    (hothers : ∀ j l o s a s', .op j l o s a s' ∈ u → j ≠ i → R s s')
    (hsafe : (prog l).Safe (S i l) R G Q s) : Q r s' := by
  obtain ⟨P₁, -, h⟩ := h.split
  cases h with
  | cons hstart h =>
    obtain ⟨P₂, h₁, h₂⟩ := h.split
    have hJ : ∀ l' p, P₂.clients i = some (l', p) → l' = l ∧ p.Safe (S i l) R G Q P₂.store := by
      refine h₁.record (u := []) (J := fun _ P => ∀ l' p, P.clients i = some (l', p) →
          l' = l ∧ p.Safe (S i l) R G Q P.store)
        (F := fun e => (∀ l s, e ≠ .start i l s) ∧
          ∀ j l o s a s', e = .op j l o s a s' → j ≠ i → R s s') ?_
        (fun e he => ⟨fun l s heq => hno l s (heq ▸ he),
          fun j l o s a s' heq => hothers j l o s a s' (heq ▸ he)⟩) fun l' p hl => ?_
      · intro u P e P' hJ hstep ⟨hstarts, hops⟩ l' p hl
        by_cases hi : e.client = i
        · cases hstep with
          | @start j l' _ _ =>
            obtain rfl : j = i := hi
            exact absurd rfl (hstarts _ _)
          | @op j l' o k a s' hcall hs =>
            obtain rfl : j = i := hi
            cases (Function.update_self ..).symm.trans hl
            obtain ⟨rfl, hp⟩ := hJ _ _ hcall
            exact ⟨rfl, (hp _ (hrefl _) _ _ hs).2⟩
          | @leave j l' p' _ =>
            obtain rfl : j = i := hi
            cases (Function.update_self ..).symm.trans hl
        · rw [hstep.clients_of_ne hi] at hl
          obtain ⟨hl, hp⟩ := hJ l' p hl
          refine ⟨hl, hp.move htrans hstable ?_⟩
          cases hstep with
          | start _ _ => exact hrefl _
          | op _ _ => exact hops _ _ _ _ _ _ rfl hi
          | leave _ => exact hrefl _
      · cases hstart with
        | start _ _ =>
          cases (Function.update_self ..).symm.trans hl
          exact ⟨rfl, hsafe⟩
    cases h₂ with
    | cons hstep _ =>
      cases hstep with
      | leave hcall => exact Prog.safe_ofExcept_iff.mp (hJ _ _ hcall).2

end Pool

end LangGraphFunctions.Lib

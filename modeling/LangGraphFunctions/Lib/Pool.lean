import LangGraphFunctions.Lib.Exec
import Mathlib.Logic.Function.Basic

/-! Any number of clients running programs against one service, one operation at a time and in
any order.  A client may leave at any moment, its call finished or not. -/

namespace LangGraphFunctions.Lib

variable {I : Interface} {ε α σ ι L : Type}

structure Pool (I : Interface) (ε α σ ι L : Type) where
  clients : ι → Option (L × Prog I ε α)
  store : σ

theorem pairwise_iff_append {r : α → α → Prop} {t : List α} :
    t.Pairwise r ↔ ∀ t₁ e t₂, t = t₁ ++ e :: t₂ → ∀ e' ∈ t₂, r e e' := by
  constructor
  · rintro h t₁ e t₂ rfl
    exact (List.pairwise_cons.mp (List.pairwise_append.mp h).2.1).1
  · intro h
    induction t with
    | nil => exact .nil
    | cons e t ih =>
      refine .cons (h [] e t rfl) (ih fun t₁ e' t₂ ht => ?_)
      exact h (e :: t₁) e' t₂ (congrArg (e :: ·) ht)

namespace Pool

inductive Event (I : Interface) (ε α σ ι L : Type)
  | start (i : ι) (l : L) (s : σ)
  | op (i : ι) (l : L) (o : I.Op) (s : σ) (a : I.Ans o) (s' : σ)
  | leave (i : ι) (l : L) (p : Prog I ε α) (s : σ)

def Event.client : Event I ε α σ ι L → ι
  | .start i .. => i
  | .op i .. => i
  | .leave i .. => i

def Event.Finished : Event I ε α σ ι L → Prop
  | .leave _ _ p _ => p.ended
  | _ => True

instance (e : Event I ε α σ ι L) : Decidable e.Finished :=
  match e with
  | .start .. => .isTrue trivial
  | .op .. => .isTrue trivial
  | .leave _ _ p _ => inferInstanceAs (Decidable (p.ended = true))

def idle (s : σ) : Pool I ε α σ ι L := ⟨fun _ => none, s⟩

section

variable [DecidableEq ι]

def become (P : Pool I ε α σ ι L) (i : ι) (c : Option (L × Prog I ε α)) (s : σ) :
    Pool I ε α σ ι L :=
  ⟨Function.update P.clients i c, s⟩

inductive Step (S : ι → L → Prog.Service I σ) (prog : L → Prog I ε α) (Starts : ι → L → σ → Prop) :
    Pool I ε α σ ι L → Event I ε α σ ι L → Pool I ε α σ ι L → Prop
  | start {P : Pool I ε α σ ι L} {i : ι} {l : L} : P.clients i = none → Starts i l P.store →
      Step S prog Starts P (.start i l P.store) (P.become i (some (l, prog l)) P.store)
  | op {P : Pool I ε α σ ι L} {i : ι} {l : L} {o : I.Op} {k : I.Ans o → Prog I ε α} {a : I.Ans o}
      {s' : σ} : P.clients i = some (l, .call o k) → (S i l).step o P.store a s' →
      Step S prog Starts P (.op i l o P.store a s') (P.become i (some (l, k a)) s')
  | leave {P : Pool I ε α σ ι L} {i : ι} {l : L} {p : Prog I ε α} : P.clients i = some (l, p) →
      Step S prog Starts P (.leave i l p P.store) (P.become i none P.store)

inductive Runs (S : ι → L → Prog.Service I σ) (prog : L → Prog I ε α) (Starts : ι → L → σ → Prop) :
    Pool I ε α σ ι L → List (Event I ε α σ ι L) → Pool I ε α σ ι L → Prop
  | nil : Runs S prog Starts P [] P
  | cons : Step S prog Starts P e P' → Runs S prog Starts P' t P'' →
      Runs S prog Starts P (e :: t) P''

end

variable {S : ι → L → Prog.Service I σ} {prog : L → Prog I ε α} {Starts : ι → L → σ → Prop}
  {R : ι → σ → σ → Prop} {G : ι → L → (o : I.Op) → σ → I.Ans o → σ → Prop}
  {Q : ι → L → Except ε α → σ → Prop} {Inv : σ → Prop} {P P' : Pool I ε α σ ι L}
  {e : Event I ε α σ ι L} {t : List (Event I ε α σ ι L)}

def Event.Satisfies (S : ι → L → Prog.Service I σ) (G : ι → L → (o : I.Op) → σ → I.Ans o → σ → Prop)
    (Q : ι → L → Except ε α → σ → Prop) (Inv : σ → Prop) : Event I ε α σ ι L → Prop
  | .start _ _ s => Inv s
  | .op i l o s a s' => Inv s ∧ (S i l).step o s a s' ∧ G i l o s a s'
  | .leave i l p s => Inv s ∧ ∀ r, (match r with
      | .ok a => p = .ret a
      | .error e => p = .raise e) → Q i l r s

/-- The conditions under which clients may be reasoned about one at a time. -/
structure Compatible (S : ι → L → Prog.Service I σ) (prog : L → Prog I ε α) (Starts : ι → L → σ → Prop)
    (R : ι → σ → σ → Prop) (G : ι → L → (o : I.Op) → σ → I.Ans o → σ → Prop)
    (Q : ι → L → Except ε α → σ → Prop) (Inv : σ → Prop) : Prop where
  refl : ∀ i s, R i s s
  trans : ∀ i {s s' s''}, R i s s' → R i s' s'' → R i s s''
  rely : ∀ {i j l o s a s'}, i ≠ j → Inv s → (S j l).step o s a s' → G j l o s a s' → R i s s'
  stable : ∀ {i l r s s'}, R i s s' → Q i l r s → Q i l r s'
  inv : ∀ {i l o s a s'}, (S i l).step o s a s' → G i l o s a s' → Inv s → Inv s'
  safe : ∀ {i l s}, Inv s → Starts i l s → (prog l).Safe (S i l) (R i) (G i l) (Q i l) s

def Sound (S : ι → L → Prog.Service I σ) (R : ι → σ → σ → Prop)
    (G : ι → L → (o : I.Op) → σ → I.Ans o → σ → Prop) (Q : ι → L → Except ε α → σ → Prop)
    (Inv : σ → Prop) (P : Pool I ε α σ ι L) : Prop :=
  Inv P.store ∧ ∀ i l p, P.clients i = some (l, p) → p.Safe (S i l) (R i) (G i l) (Q i l) P.store

theorem sound_idle {s : σ} (hs : Inv s) : Sound S R G Q Inv (idle s : Pool I ε α σ ι L) :=
  ⟨hs, fun _ _ _ h => nomatch h⟩

variable [DecidableEq ι]

theorem clients_become {i j : ι} {c : Option (L × Prog I ε α)} {s : σ} {x : L × Prog I ε α}
    (h : (P.become i c s).clients j = some x) :
    j = i ∧ c = some x ∨ j ≠ i ∧ P.clients j = some x := by
  by_cases hji : j = i
  · subst hji
    change Function.update P.clients j c j = some x at h
    rw [Function.update_self] at h
    exact .inl ⟨rfl, h⟩
  · change Function.update P.clients i c j = some x at h
    rw [Function.update_of_ne hji] at h
    exact .inr ⟨hji, h⟩

theorem sound_step (hC : Compatible S prog Starts R G Q Inv) (h : Step S prog Starts P e P')
    (hP : Sound S R G Q Inv P) : Sound S R G Q Inv P' ∧ e.Satisfies S G Q Inv := by
  obtain ⟨hinv, hsafe⟩ := hP
  cases h with
  | start hnone hstart =>
    refine ⟨⟨hinv, fun j l' p hj => ?_⟩, hinv⟩
    cases clients_become hj with
    | inl h =>
      obtain ⟨rfl, ⟨⟩⟩ := h
      exact hC.safe hinv hstart
    | inr h => exact hsafe j l' p h.2
  | op hcall hstep =>
    obtain ⟨hg, hk⟩ := hsafe _ _ _ hcall _ (hC.refl _ _) _ _ hstep
    refine ⟨⟨hC.inv hstep hg hinv, fun j l' p hj => ?_⟩, hinv, hstep, hg⟩
    cases clients_become hj with
    | inl h =>
      obtain ⟨rfl, ⟨⟩⟩ := h
      exact hk
    | inr h =>
      exact (hsafe j l' p h.2).move (hC.trans j) hC.stable (hC.rely h.1 hinv hstep hg)
  | leave hcall =>
    refine ⟨⟨hinv, fun j l' p' hj => ?_⟩, hinv, fun r hr => ?_⟩
    · cases clients_become hj with
      | inl h => exact nomatch h.2
      | inr h => exact hsafe j l' p' h.2
    · have hp := hsafe _ _ _ hcall
      cases r with
      | ok a => cases hr; exact hp
      | error e => cases hr; exact hp

theorem sound_runs (hC : Compatible S prog Starts R G Q Inv) (h : Runs S prog Starts P t P')
    (hP : Sound S R G Q Inv P) :
    Sound S R G Q Inv P' ∧ ∀ e ∈ t, e.Satisfies S G Q Inv := by
  induction h with
  | nil => exact ⟨hP, by simp⟩
  | cons hstep _ ih =>
    obtain ⟨hP', he⟩ := sound_step hC hstep hP
    obtain ⟨hP'', ht⟩ := ih hP'
    exact ⟨hP'', List.forall_mem_cons.mpr ⟨he, ht⟩⟩

/-- The conditions under which clients may be reasoned about one at a time, where something is known
of a client without a call (`Idle`) and of a call under way at every moment (`Busy`). -/
structure Attended (S : ι → L → Prog.Service I σ) (prog : L → Prog I ε α) (Starts : ι → L → σ → Prop)
    (R : ι → σ → σ → Prop) (G : ι → L → (o : I.Op) → σ → I.Ans o → σ → Prop)
    (Q : ι → L → Except ε α → σ → Prop) (Inv : σ → Prop) (Idle : ι → σ → Prop)
    (Busy : ι → L → σ → Prop) : Prop where
  refl : ∀ i s, R i s s
  trans : ∀ i {s s' s''}, R i s s' → R i s' s'' → R i s s''
  rely : ∀ {i j l o s a s'}, i ≠ j → Inv s → (S j l).step o s a s' → G j l o s a s' → R i s s'
  inv : ∀ {i l o s a s'}, (S i l).step o s a s' → G i l o s a s' → Inv s → Inv s'
  stable : ∀ {i l r s s'}, R i s s' → Q i l r s → Q i l r s'
  idle : ∀ {i s s'}, R i s s' → Idle i s → Idle i s'
  busy : ∀ {i l s s'}, R i s s' → Busy i l s → Busy i l s'
  start : ∀ {i l s}, Inv s → Idle i s → Starts i l s →
    (prog l).Safe (S i l) (R i) (G i l) (Q i l) s ∧ Busy i l s
  op : ∀ {i l o s a s'}, Inv s → (S i l).step o s a s' → G i l o s a s' → Busy i l s → Busy i l s'
  leave : ∀ {i l r s}, Q i l r s → Idle i s

def Attends (S : ι → L → Prog.Service I σ) (R : ι → σ → σ → Prop)
    (G : ι → L → (o : I.Op) → σ → I.Ans o → σ → Prop) (Q : ι → L → Except ε α → σ → Prop)
    (Inv : σ → Prop) (Idle : ι → σ → Prop) (Busy : ι → L → σ → Prop) (P : Pool I ε α σ ι L) : Prop :=
  Inv P.store ∧ (∀ i, P.clients i = none → Idle i P.store) ∧
    ∀ i l p, P.clients i = some (l, p) → p.Safe (S i l) (R i) (G i l) (Q i l) P.store ∧
      Busy i l P.store

variable {Idle : ι → σ → Prop} {Busy : ι → L → σ → Prop}

theorem attends_step (hC : Attended S prog Starts R G Q Inv Idle Busy)
    (h : Step S prog Starts P e P') (hend : e.Finished) (hP : Attends S R G Q Inv Idle Busy P) :
    Attends S R G Q Inv Idle Busy P' ∧ e.Satisfies S G Q Inv := by
  obtain ⟨hinv, hidle, hcalls⟩ := hP
  cases h with
  | @start i l hnone hstart =>
    refine ⟨⟨hinv, fun j hj => ?_, fun j l' p hj => ?_⟩, hinv⟩
    · by_cases hji : j = i
      · subst hji
        exact hidle j hnone
      · exact hidle j ((Function.update_of_ne hji _ _).symm.trans hj)
    · cases clients_become hj with
      | inl h =>
        obtain ⟨rfl, ⟨⟩⟩ := h
        exact hC.start hinv (hidle _ hnone) hstart
      | inr h => exact hcalls j l' p h.2
  | @op i l o k a s' hcall hstep =>
    obtain ⟨hp, hbusy⟩ := hcalls _ _ _ hcall
    obtain ⟨hg, hk⟩ := hp _ (hC.refl _ _) _ _ hstep
    refine ⟨⟨hC.inv hstep hg hinv, fun j hj => ?_, fun j l' p hj => ?_⟩, hinv, hstep, hg⟩
    · by_cases hji : j = i
      · subst hji
        exact nomatch (Function.update_self ..).symm.trans hj
      · exact hC.idle (hC.rely hji hinv hstep hg)
          (hidle j ((Function.update_of_ne hji _ _).symm.trans hj))
    · cases clients_become hj with
      | inl h =>
        obtain ⟨rfl, ⟨⟩⟩ := h
        exact ⟨hk, hC.op hinv hstep hg hbusy⟩
      | inr h =>
        obtain ⟨hp, hbusy⟩ := hcalls j l' p h.2
        have hR := hC.rely h.1 hinv hstep hg
        exact ⟨hp.move (hC.trans j) hC.stable hR, hC.busy hR hbusy⟩
  | @leave i l p hcall =>
    refine ⟨⟨hinv, fun j hj => ?_, fun j l' p' hj => ?_⟩, hinv, fun r hr => ?_⟩
    · by_cases hji : j = i
      · subst hji
        have hp := (hcalls _ _ _ hcall).1
        cases p with
        | ret a => exact hC.leave hp
        | raise e => exact hC.leave hp
        | call o k => exact nomatch hend
      · exact hidle j ((Function.update_of_ne hji _ _).symm.trans hj)
    · cases clients_become hj with
      | inl h => exact nomatch h.2
      | inr h => exact hcalls j l' p' h.2
    · have hp := (hcalls _ _ _ hcall).1
      cases r with
      | ok a => cases hr; exact hp
      | error e => cases hr; exact hp

theorem attends_runs (hC : Attended S prog Starts R G Q Inv Idle Busy)
    (h : Runs S prog Starts P t P') (hend : ∀ e ∈ t, e.Finished)
    (hP : Attends S R G Q Inv Idle Busy P) :
    Attends S R G Q Inv Idle Busy P' ∧ ∀ e ∈ t, e.Satisfies S G Q Inv := by
  induction h with
  | nil => exact ⟨hP, by simp⟩
  | cons hstep _ ih =>
    obtain ⟨he, hend⟩ := List.forall_mem_cons.mp hend
    obtain ⟨hP', hsat⟩ := attends_step hC hstep he hP
    obtain ⟨hP'', ht⟩ := ih hend hP'
    exact ⟨hP'', List.forall_mem_cons.mpr ⟨hsat, ht⟩⟩

theorem Runs.op {P P'' : Pool I ε α σ ι L} {i : ι} {l : L} {o : I.Op} {s s' : σ} {a : I.Ans o}
    (h : Runs S prog Starts P (.op i l o s a s' :: t) P'') :
    P.store = s ∧ ∃ P', P'.store = s' ∧ Runs S prog Starts P' t P'' := by
  cases h with
  | cons hstep hrest =>
    cases hstep with
    | op _ _ => exact ⟨rfl, _, rfl, hrest⟩

def Event.map {τ : Type} (π : τ → σ) : Event I ε α τ ι L → Event I ε α σ ι L
  | .start i l h => .start i l (π h)
  | .op i l o h a h' => .op i l o (π h) a (π h')
  | .leave i l p h => .leave i l p (π h)

theorem Runs.lift {τ : Type} {T : ι → L → Prog.Service I τ} (π : τ → σ)
    (hS : ∀ {i l o h a s'}, (S i l).step o (π h) a s' → ∃ h', π h' = s' ∧ (T i l).step o h a h')
    (hrun : Runs S prog Starts P t P') {h : τ} (hh : π h = P.store) :
    ∃ t' h', Runs T prog (fun i l h => Starts i l (π h)) ⟨P.clients, h⟩ t' ⟨P'.clients, h'⟩ ∧
      π h' = P'.store ∧ t'.map (Event.map π) = t := by
  induction hrun generalizing h with
  | nil => exact ⟨[], h, .nil, hh, rfl⟩
  | cons hstep _ ih =>
    cases hstep with
    | start hnone hstart =>
      obtain ⟨t', h', hr, hπ, hmap⟩ := ih hh
      refine ⟨.start _ _ h :: t', h', .cons (.start hnone (hh ▸ hstart)) hr, hπ, ?_⟩
      rw [List.map_cons, hmap, Event.map, hh]
    | op hcall hs =>
      obtain ⟨h₁, hh₁, hs₁⟩ := hS (hh ▸ hs)
      obtain ⟨t', h', hr, hπ, hmap⟩ := ih hh₁
      refine ⟨.op _ _ _ h _ h₁ :: t', h', .cons (.op hcall hs₁) hr, hπ, ?_⟩
      rw [List.map_cons, hmap, Event.map, hh, hh₁]
    | leave hcall =>
      obtain ⟨t', h', hr, hπ, hmap⟩ := ih hh
      refine ⟨.leave _ _ _ h :: t', h', .cons (.leave hcall) hr, hπ, ?_⟩
      rw [List.map_cons, hmap, Event.map, hh]

theorem Runs.embed {τ : Type} {S' : ι → L → Prog.Service I τ} (f : σ → τ)
    {Starts' : ι → L → τ → Prop} (h : Runs S prog Starts P t P')
    (hStarts : ∀ {i l s}, Starts i l s → Starts' i l (f s))
    (hS : ∀ i l o s a s', .op i l o s a s' ∈ t → (S i l).step o s a s' →
      (S' i l).step o (f s) a (f s')) :
    Runs S' prog Starts' ⟨P.clients, f P.store⟩ (t.map (Event.map f)) ⟨P'.clients, f P'.store⟩ := by
  induction h with
  | nil => exact .nil
  | cons hstep _ ih =>
    have hrest := ih fun i l o s a s' hmem => hS i l o s a s' (List.mem_cons_of_mem _ hmem)
    cases hstep with
    | start hnone hstart => exact .cons (.start hnone (hStarts hstart)) hrest
    | op hcall hs => exact .cons (.op hcall (hS _ _ _ _ _ _ (List.mem_cons_self ..) hs)) hrest
    | leave hcall => exact .cons (.leave hcall) hrest

theorem Runs.split {t₁ t₂ : List (Event I ε α σ ι L)} {P P'' : Pool I ε α σ ι L}
    (h : Runs S prog Starts P (t₁ ++ t₂) P'') :
    ∃ P', Runs S prog Starts P t₁ P' ∧ Runs S prog Starts P' t₂ P'' := by
  induction t₁ generalizing P with
  | nil => exact ⟨P, .nil, h⟩
  | cons e t₁ ih =>
    cases h with
    | cons hstep hrest =>
      obtain ⟨P', h₁, h₂⟩ := ih hrest
      exact ⟨P', .cons hstep h₁, h₂⟩

theorem Runs.keeps {J : σ → Prop} (h : Runs S prog Starts P t P')
    (ht : ∀ i l o s a s', .op i l o s a s' ∈ t → J s → J s') (hJ : J P.store) : J P'.store := by
  induction h with
  | nil => exact hJ
  | @cons P e P' t P'' hstep hrest ih =>
    apply ih fun i l o s a s' he => ht i l o s a s' (List.mem_cons_of_mem _ he)
    cases hstep with
    | start _ _ => exact hJ
    | op _ _ => exact ht _ _ _ _ _ _ (List.mem_cons_self ..) hJ
    | leave _ => exact hJ

theorem Runs.record {J : List (Event I ε α σ ι L) → Pool I ε α σ ι L → Prop}
    {F : Event I ε α σ ι L → Prop} {u : List (Event I ε α σ ι L)} (h : Runs S prog Starts P t P')
    (hstep : ∀ {u P e P'}, J u P → Step S prog Starts P e P' → F e → J (u ++ [e]) P')
    (ht : ∀ e ∈ t, F e) (hJ : J u P) : J (u ++ t) P' := by
  induction h generalizing u with
  | nil => rwa [List.append_nil]
  | cons hs _ ih =>
    obtain ⟨he, ht⟩ := List.forall_mem_cons.mp ht
    rw [List.append_cons]
    exact ih ht (hstep hJ hs he)

theorem Step.clients_of_ne (h : Step S prog Starts P e P') {i : ι} (hi : e.client ≠ i) :
    P'.clients i = P.clients i := by
  cases h with
  | start _ _ => exact Function.update_of_ne (Ne.symm hi) _ _
  | op _ _ => exact Function.update_of_ne (Ne.symm hi) _ _
  | leave _ => exact Function.update_of_ne (Ne.symm hi) _ _

theorem Runs.start_of_op {t₁ t₂ : List (Event I ε α σ ι L)} {i : ι} {l : L} {o : I.Op} {s s' : σ}
    {a : I.Ans o} (h : Runs S prog Starts P (t₁ ++ .op i l o s a s' :: t₂) P')
    (hP : P.clients i = none) : ∃ l s, .start i l s ∈ t₁ := by
  induction t₁ generalizing P with
  | nil =>
    cases h with
    | cons hstep _ =>
      cases hstep with
      | op hcall _ => exact nomatch hP.symm.trans hcall
  | cons e t₁ ih =>
    cases h with
    | @cons _ _ P₁ _ _ hstep hrest =>
      by_cases hi : e.client = i
      · subst hi
        cases hstep with
        | start _ _ => exact ⟨_, _, List.mem_cons_self ..⟩
        | op hcall _ => exact nomatch hP.symm.trans hcall
        | leave hcall => exact nomatch hP.symm.trans hcall
      · obtain ⟨l, s, hmem⟩ := ih hrest ((hstep.clients_of_ne hi).trans hP)
        exact ⟨l, s, List.mem_cons_of_mem _ hmem⟩

theorem Runs.first_op {t₁ t₂ : List (Event I ε α σ ι L)} {i : ι} {l l' : L} {o : I.Op} {s s' : σ}
    {a : I.Ans o} {p : Prog I ε α}
    (h : Runs S prog Starts P (t₁ ++ .op i l' o s a s' :: t₂) P')
    (hP : P.clients i = some (l, p)) (ht : ∀ l s, .start i l s ∉ t₁) :
    (l' = l ∧ ∃ k, p = .call o k) ∨
      ∃ u o₀ s₀ a₀ s₁ u' k P₁, t₁ = u ++ .op i l o₀ s₀ a₀ s₁ :: u' ∧ (∀ e ∈ u, e.client ≠ i) ∧
        p = .call o₀ k ∧ P₁.clients i = some (l, k a₀) ∧
        Runs S prog Starts P (u ++ [.op i l o₀ s₀ a₀ s₁]) P₁ ∧
        Runs S prog Starts P₁ (u' ++ .op i l' o s a s' :: t₂) P' := by
  induction t₁ generalizing P with
  | nil =>
    cases h with
    | cons hstep _ =>
      cases hstep with
      | op hcall _ =>
        cases hP.symm.trans hcall
        exact .inl ⟨rfl, _, rfl⟩
  | cons e t₁ ih =>
    have ht₁ : ∀ l s, .start i l s ∉ t₁ := fun l s hmem => ht l s (List.mem_cons_of_mem _ hmem)
    cases h with
    | @cons _ _ P₁ _ _ hstep hrest =>
      by_cases hi : e.client = i
      · subst hi
        right
        cases hstep with
        | start hnone _ => exact nomatch hnone.symm.trans hP
        | op hcall hs =>
          cases hP.symm.trans hcall
          refine ⟨[], _, _, _, _, t₁, _, _, rfl, by simp, rfl, Function.update_self .., ?_, hrest⟩
          exact .cons (.op hcall hs) .nil
        | leave _ =>
          obtain ⟨l, s, hmem⟩ := hrest.start_of_op (Function.update_self ..)
          exact absurd hmem (ht₁ l s)
      · cases ih hrest ((hstep.clients_of_ne hi).trans hP) ht₁ with
        | inl h => exact .inl h
        | inr h =>
          right
          obtain ⟨u, o₀, s₀, a₀, s₁, u', k, P₂, rfl, hu, hk, hP₂, hr, hr'⟩ := h
          exact ⟨e :: u, o₀, s₀, a₀, s₁, u', k, P₂, rfl, List.forall_mem_cons.mpr ⟨hi, hu⟩, hk, hP₂,
            .cons hstep hr, hr'⟩

theorem Runs.focus (hC : Compatible S prog Starts R G Q Inv) {i : ι} {l : L}
    {G' : (o : I.Op) → σ → I.Ans o → σ → Prop} {Q' : Except ε α → σ → Prop}
    (hstable : ∀ {r s s'}, R i s s' → Q' r s → Q' r s') (h : Runs S prog Starts P t P')
    (hP : Sound S R G Q Inv P)
    (hsafe : ∀ l' p, P.clients i = some (l', p) → l' = l ∧ p.Safe (S i l) (R i) G' Q' P.store)
    (ht : ∀ l s, .start i l s ∉ t) :
    ∀ e ∈ t, e.client = i → e.Satisfies S (fun _ _ => G') (fun _ _ => Q') Inv := by
  induction h with
  | nil => exact fun _ he => nomatch he
  | @cons P e P₁ t P' hstep _ ih =>
    have hinv := hP.1
    obtain ⟨hP₁, hsat⟩ := sound_step hC hstep hP
    have hother : e.client ≠ i → R i P.store P₁.store → ∀ l' p, P₁.clients i = some (l', p) →
        l' = l ∧ p.Safe (S i l) (R i) G' Q' P₁.store := by
      intro hi hR l' p hp
      rw [hstep.clients_of_ne hi] at hp
      obtain ⟨hl, hp⟩ := hsafe l' p hp
      exact ⟨hl, hp.move (hC.trans i) hstable hR⟩
    suffices h : (e.client = i → e.Satisfies S (fun _ _ => G') (fun _ _ => Q') Inv) ∧
        ∀ l' p, P₁.clients i = some (l', p) → l' = l ∧ p.Safe (S i l) (R i) G' Q' P₁.store from
      List.forall_mem_cons.mpr
        ⟨h.1, ih hP₁ h.2 fun l s hmem => ht l s (List.mem_cons_of_mem _ hmem)⟩
    by_cases hi : e.client = i
    · subst hi
      cases hstep with
      | start _ _ => exact absurd (List.mem_cons_self ..) (ht _ _)
      | op hcall hs =>
        obtain ⟨rfl, hp⟩ := hsafe _ _ hcall
        obtain ⟨hg, hk⟩ := hp _ (hC.refl _ _) _ _ hs
        refine ⟨fun _ => ⟨hinv, hs, hg⟩, fun l' p hp => ?_⟩
        cases (Function.update_self ..).symm.trans hp
        exact ⟨rfl, hk⟩
      | leave hcall =>
        obtain ⟨rfl, hp⟩ := hsafe _ _ hcall
        refine ⟨fun _ => ⟨hinv, fun r hr => ?_⟩, fun l' p hp => ?_⟩
        · cases r with
          | ok a => cases hr; exact hp
          | error e => cases hr; exact hp
        · exact nomatch (Function.update_self ..).symm.trans hp
    · refine ⟨fun h => absurd h hi, hother hi ?_⟩
      cases hstep with
      | start _ _ => exact hC.refl _ _
      | op _ hs => exact hC.rely (Ne.symm hi) hinv hs hsat.2.2
      | leave _ => exact hC.refl _ _

theorem Runs.call (hC : Compatible S prog Starts R G Q Inv) {i : ι} {l : L} {s : σ}
    {u t v : List (Event I ε α σ ι L)} {G' : (o : I.Op) → σ → I.Ans o → σ → Prop}
    {Q' : Except ε α → σ → Prop} (hstable : ∀ {r s s'}, R i s s' → Q' r s → Q' r s')
    (h : Runs S prog Starts P (u ++ .start i l s :: (t ++ v)) P') (hP : Sound S R G Q Inv P)
    (hsafe : Inv s → (prog l).Safe (S i l) (R i) G' Q' s) (ht : ∀ l s, .start i l s ∉ t) :
    ∀ e ∈ t, e.client = i → e.Satisfies S (fun _ _ => G') (fun _ _ => Q') Inv := by
  obtain ⟨P₁, h₁, h₂⟩ := h.split
  have hP₁ := (sound_runs hC h₁ hP).1
  cases h₂ with
  | cons hstart hcall =>
    have hP₂ := (sound_step hC hstart hP₁).1
    obtain ⟨P₃, hcall, -⟩ := hcall.split
    cases hstart with
    | start _ _ =>
      have hcaller : ∀ l' p, (P₁.become i (some (l, prog l)) P₁.store).clients i = some (l', p) →
          l' = l ∧ p.Safe (S i l) (R i) G' Q' P₁.store := by
        intro l' p hp
        cases (Function.update_self ..).symm.trans hp
        exact ⟨rfl, hsafe hP₁.1⟩
      exact hcall.focus hC hstable hP₂ hcaller ht

inductive Move (ι L : Type)
  | start (i : ι) (l : L)
  | op (i : ι)
  | leave (i : ι)

def tryMove (f : ι → L → (o : I.Op) → σ → Option (I.Ans o × σ)) (prog : L → Prog I ε α)
    (P : Pool I ε α σ ι L) : Move ι L → Option (Event I ε α σ ι L × Pool I ε α σ ι L)
  | .start i l =>
    match P.clients i with
    | none => some (.start i l P.store, P.become i (some (l, prog l)) P.store)
    | some _ => none
  | .op i =>
    match P.clients i with
    | some (l, .call o k) =>
      (f i l o P.store).map fun r => (.op i l o P.store r.1 r.2, P.become i (some (l, k r.1)) r.2)
    | _ => none
  | .leave i =>
    match P.clients i with
    | some (l, p) => some (.leave i l p P.store, P.become i none P.store)
    | none => none

def tryPlay (f : ι → L → (o : I.Op) → σ → Option (I.Ans o × σ)) (prog : L → Prog I ε α) :
    List (Move ι L) → Pool I ε α σ ι L → List (Event I ε α σ ι L) × Pool I ε α σ ι L
  | [], P => ([], P)
  | m :: ms, P =>
    match tryMove f prog P m with
    | none => tryPlay f prog ms P
    | some (e, P') =>
      let rest := tryPlay f prog ms P'
      (e :: rest.1, rest.2)

def play (f : ι → L → (o : I.Op) → σ → I.Ans o × σ) (prog : L → Prog I ε α) :
    List (Move ι L) → Pool I ε α σ ι L → List (Event I ε α σ ι L) × Pool I ε α σ ι L :=
  tryPlay (fun i l o s => some (f i l o s)) prog

def Move.calls (steps : Nat) (ls : List (ι × L)) : List (Move ι L) :=
  ls.flatMap fun p => .start p.1 p.2 :: List.replicate steps (.op p.1) ++ [.leave p.1]

theorem step_tryMove {f : ι → L → (o : I.Op) → σ → Option (I.Ans o × σ)}
    (hf : ∀ {i l o s a s'}, f i l o s = some (a, s') → (S i l).step o s a s') {m : Move ι L}
    (h : tryMove f prog P m = some (e, P')) : Step S prog (fun _ _ _ => True) P e P' := by
  cases m with
  | start i l =>
    rw [tryMove] at h
    split at h
    · next hnone =>
      cases h
      exact .start hnone trivial
    · exact nomatch h
  | op i =>
    rw [tryMove] at h
    split at h
    · next l o k hcall =>
      obtain ⟨⟨a, s'⟩, ha, ⟨⟩⟩ := Option.map_eq_some_iff.mp h
      exact .op hcall (hf ha)
    · exact nomatch h
  | leave i =>
    rw [tryMove] at h
    split at h
    · next l p hcall =>
      cases h
      exact .leave hcall
    · exact nomatch h

theorem runs_tryPlay {f : ι → L → (o : I.Op) → σ → Option (I.Ans o × σ)}
    (hf : ∀ {i l o s a s'}, f i l o s = some (a, s') → (S i l).step o s a s') (ms : List (Move ι L))
    (P : Pool I ε α σ ι L) :
    Runs S prog (fun _ _ _ => True) P (tryPlay f prog ms P).1 (tryPlay f prog ms P).2 := by
  induction ms generalizing P with
  | nil => exact .nil
  | cons m ms ih =>
    rw [tryPlay]
    split
    · exact ih P
    · next hmove => exact .cons (step_tryMove hf hmove) (ih _)

theorem runs_play {f : ι → L → (o : I.Op) → σ → I.Ans o × σ}
    (hf : ∀ i l o s, (S i l).step o s (f i l o s).1 (f i l o s).2) (ms : List (Move ι L))
    (P : Pool I ε α σ ι L) :
    Runs S prog (fun _ _ _ => True) P (play f prog ms P).1 (play f prog ms P).2 := by
  refine runs_tryPlay (fun {i l o s a s'} h => ?_) ms P
  have hstep := hf i l o s
  rwa [Option.some.inj h] at hstep

end Pool

end LangGraphFunctions.Lib

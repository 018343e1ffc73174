import LangGraphFunctions.Lib.Prog

/-! Runs of a program whose surroundings move between its operations, and the verification
condition that follows a program through every such run. -/

namespace LangGraphFunctions.Lib

variable {I : Interface} {ε α β γ σ : Type}

inductive Event (I : Interface) (σ : Type)
  | env (s s' : σ)
  | call (o : I.Op) (s : σ) (a : I.Ans o) (s' : σ)

def Event.Satisfies (G : (o : I.Op) → σ → I.Ans o → σ → Prop) : Event I σ → Prop
  | .env _ _ => True
  | .call o s a s' => G o s a s'

def Event.isEnv : Event I σ → Bool
  | .env _ _ => true
  | .call .. => false

def Event.states : Event I σ → List σ
  | .env s s' => [s, s']
  | .call _ s _ s' => [s, s']

/-- `Exec S R p s t q s'`: started as `p` in `s`, disturbed by moves in `R`, the run has done `t`
and stands at `q` in `s'`.  The rest `q` need not be finished: a run may stop anywhere. -/
inductive Exec (S : Prog.Service I σ) (R : σ → σ → Prop) :
    Prog I ε α → σ → List (Event I σ) → Prog I ε α → σ → Prop
  | stop : Exec S R p s [] p s
  | env : R s s' → Exec S R (.call o k) s' t q s'' →
      Exec S R (.call o k) s (.env s s' :: t) q s''
  | call : S.step o s a s' → Exec S R (k a) s' t q s'' →
      Exec S R (.call o k) s (.call o s a s' :: t) q s''

namespace Prog

/-- Every operation `p` performs from `s` on meets `G`, and its outcome meets `Q`, however the
surroundings move by `R` before each operation. -/
def Safe (S : Service I σ) (R : σ → σ → Prop) (G : (o : I.Op) → σ → I.Ans o → σ → Prop)
    (Q : Except ε α → σ → Prop) : Prog I ε α → σ → Prop
  | .ret a, s => Q (.ok a) s
  | .raise e, s => Q (.error e) s
  | .call o k, s => ∀ s₁, R s s₁ → ∀ a s₂, S.step o s₁ a s₂ →
      G o s₁ a s₂ ∧ (k a).Safe S R G Q s₂

variable {S : Service I σ} {R : σ → σ → Prop} {G : (o : I.Op) → σ → I.Ans o → σ → Prop}

@[simp] theorem safe_ret {Q : Except ε α → σ → Prop} {a : α} {s : σ} :
    (Prog.ret a).Safe S R G Q s ↔ Q (.ok a) s := Iff.rfl

@[simp] theorem safe_raise {Q : Except ε α → σ → Prop} {e : ε} {s : σ} :
    (Prog.raise e).Safe S R G Q s ↔ Q (.error e) s := Iff.rfl

theorem safe_call {Q : Except ε α → σ → Prop} {o : I.Op} {k : I.Ans o → Prog I ε α} {s : σ} :
    (Prog.call o k).Safe S R G Q s ↔ ∀ s₁, R s s₁ → ∀ a s₂, S.step o s₁ a s₂ →
      G o s₁ a s₂ ∧ (k a).Safe S R G Q s₂ := Iff.rfl

def Post (S : Service I σ) (R : σ → σ → Prop) (G : (o : I.Op) → σ → I.Ans o → σ → Prop)
    (Q : Except ε β → σ → Prop) (f : α → Prog I ε β) : Except ε α → σ → Prop
  | .ok a, s => (f a).Safe S R G Q s
  | .error e, s => Q (.error e) s

@[simp] theorem post_ok {Q : Except ε β → σ → Prop} {f : α → Prog I ε β} {a : α} {s : σ} :
    Post S R G Q f (.ok a) s ↔ (f a).Safe S R G Q s := Iff.rfl

@[simp] theorem post_error {Q : Except ε β → σ → Prop} {f : α → Prog I ε β} {e : ε} {s : σ} :
    Post S R G Q f (.error e) s ↔ Q (.error e) s := Iff.rfl

theorem safe_bind {Q : Except ε β → σ → Prop} {f : α → Prog I ε β} {p : Prog I ε α} {s : σ} :
    (p >>= f).Safe S R G Q s ↔ p.Safe S R G (Post S R G Q f) s := by
  induction p generalizing s with
  | ret a => rfl
  | raise e => rfl
  | call o k ih =>
    rw [call_bind, safe_call, safe_call]
    constructor
    · intro h s₁ hR a s₂ hs
      exact ⟨(h s₁ hR a s₂ hs).1, (ih a).mp (h s₁ hR a s₂ hs).2⟩
    · intro h s₁ hR a s₂ hs
      exact ⟨(h s₁ hR a s₂ hs).1, (ih a).mpr (h s₁ hR a s₂ hs).2⟩

theorem safe_attempt {Q : Except ε (Except ε α) → σ → Prop} {p : Prog I ε α} {s : σ} :
    p.attempt.Safe S R G Q s ↔ p.Safe S R G (fun r => Q (.ok r)) s := by
  induction p generalizing s with
  | ret a => rfl
  | raise e => rfl
  | call o k ih =>
    constructor
    · intro h s₁ hR a s₂ hs
      exact ⟨(h s₁ hR a s₂ hs).1, (ih a).mp (h s₁ hR a s₂ hs).2⟩
    · intro h s₁ hR a s₂ hs
      exact ⟨(h s₁ hR a s₂ hs).1, (ih a).mpr (h s₁ hR a s₂ hs).2⟩

theorem Safe.imp {G' : (o : I.Op) → σ → I.Ans o → σ → Prop} {Q Q' : Except ε α → σ → Prop}
    {p : Prog I ε α} {s : σ} (h : p.Safe S R G Q s)
    (hG : ∀ o s₁ a s₂, G o s₁ a s₂ → G' o s₁ a s₂) (hQ : ∀ r s', Q r s' → Q' r s') :
    p.Safe S R G' Q' s := by
  induction p generalizing s with
  | ret a => exact hQ _ _ h
  | raise e => exact hQ _ _ h
  | call o k ih =>
    intro s₁ hR a s₂ hs
    obtain ⟨hg, hk⟩ := h s₁ hR a s₂ hs
    exact ⟨hG _ _ _ _ hg, ih a hk⟩

theorem Safe.mono {Q Q' : Except ε α → σ → Prop} {p : Prog I ε α} {s : σ}
    (h : p.Safe S R G Q s) (hQ : ∀ r s', Q r s' → Q' r s') : p.Safe S R G Q' s :=
  h.imp (fun _ _ _ _ hg => hg) hQ

theorem Safe.bind {Q : Except ε β → σ → Prop} {f : α → Prog I ε β} {p : Prog I ε α} {s : σ}
    (hp : p.Safe S R G (fun r s' => (∀ a, r = .ok a → (f a).Safe S R G Q s') ∧
      ∀ e, r = .error e → Q (.error e) s') s) : (p >>= f).Safe S R G Q s := by
  apply safe_bind.mpr
  apply Safe.mono hp
  intro r s' h
  cases r with
  | ok a => exact h.1 a rfl
  | error e => exact h.2 e rfl

theorem Safe.rely {R' : σ → σ → Prop} {Q : Except ε α → σ → Prop} {p : Prog I ε α} {s : σ}
    (h : p.Safe S R G Q s) (hR : ∀ s s', R' s s' → R s s') : p.Safe S R' G Q s := by
  induction p generalizing s with
  | ret a => exact h
  | raise e => exact h
  | call o k ih =>
    intro s₁ hs₁ a s₂ hs
    obtain ⟨hg, hk⟩ := h s₁ (hR _ _ hs₁) a s₂ hs
    exact ⟨hg, ih a hk⟩

theorem Safe.and {G' : (o : I.Op) → σ → I.Ans o → σ → Prop} {Q Q' : Except ε α → σ → Prop}
    {p : Prog I ε α} {s : σ} (h : p.Safe S R G Q s) (h' : p.Safe S R G' Q' s) :
    p.Safe S R (fun o s₁ a s₂ => G o s₁ a s₂ ∧ G' o s₁ a s₂)
      (fun r s' => Q r s' ∧ Q' r s') s := by
  induction p generalizing s with
  | ret a => exact ⟨h, h'⟩
  | raise e => exact ⟨h, h'⟩
  | call o k ih =>
    intro s₁ hR a s₂ hs
    obtain ⟨hg, hk⟩ := h s₁ hR a s₂ hs
    obtain ⟨hg', hk'⟩ := h' s₁ hR a s₂ hs
    exact ⟨⟨hg, hg'⟩, ih a hk hk'⟩

theorem Safe.comap {τ : Type} {S' : Service I τ} {R' : τ → τ → Prop} (π : τ → σ)
    (hS : ∀ {o h a h'}, S'.step o h a h' → S.step o (π h) a (π h'))
    (hR : ∀ {h h'}, R' h h' → R (π h) (π h')) {Q : Except ε α → σ → Prop} {p : Prog I ε α} {h : τ}
    (hp : p.Safe S R G Q (π h)) :
    p.Safe S' R' (fun o h a h' => G o (π h) a (π h')) (fun r h => Q r (π h)) h := by
  induction p generalizing h with
  | ret a => exact hp
  | raise e => exact hp
  | call o k ih =>
    intro h₁ hR₁ a h₂ hs
    obtain ⟨hg, hk⟩ := hp _ (hR hR₁) a _ (hS hs)
    exact ⟨hg, ih a hk⟩

theorem safe_ofExcept_bind {Q : Except ε β → σ → Prop} {x : Except ε α} {f : α → Prog I ε β} {s : σ}
    (hok : ∀ a, x = .ok a → (f a).Safe S R G Q s) (herror : ∀ e, x = .error e → Q (.error e) s) :
    (ofExcept x >>= f).Safe S R G Q s := by
  cases x with
  | ok a => exact hok a rfl
  | error e => exact herror e rfl

theorem safe_ofExcept {Q : Except ε α → σ → Prop} {x : Except ε α} {s : σ} (h : Q x s) :
    (ofExcept x : Prog I ε α).Safe S R G Q s := by
  cases x with
  | ok a => exact h
  | error e => exact h

theorem safe_ofExcept_iff {Q : Except ε α → σ → Prop} {x : Except ε α} {s : σ} :
    (ofExcept x : Prog I ε α).Safe S R G Q s ↔ Q x s := by
  cases x <;> rfl

theorem Safe.map {p : Prog I ε α} {s : σ} (f : α → β)
    (h : p.Safe S R G (fun _ _ => True) s) : (f <$> p).Safe S R G (fun _ _ => True) s := by
  rw [map_eq_pure_bind, safe_bind]
  apply h.mono
  intro r s' _
  cases r <;> trivial

theorem safe_perform_bind {Q : Except ε β → σ → Prop} {o : I.Op} {f : I.Ans o → Prog I ε β}
    {s : σ} :
    (perform o >>= f).Safe S R G Q s ↔ ∀ s₁, R s s₁ → ∀ a s₂, S.step o s₁ a s₂ →
      G o s₁ a s₂ ∧ (f a).Safe S R G Q s₂ := Iff.rfl

theorem safe_foldlM {Q : Except ε γ → σ → Prop} {f : γ → β → Prog I ε γ}
    (Inv : List β → γ → σ → Prop)
    (hbody : ∀ done x rest acc s, xs = done ++ x :: rest → Inv done acc s →
      (f acc x).Safe S R G
        (fun r s' => match r with
          | .ok acc' => Inv (done ++ [x]) acc' s'
          | .error e => Q (.error e) s') s)
    (hend : ∀ acc s, Inv xs acc s → Q (.ok acc) s) (hinit : Inv [] acc s) :
    (xs.foldlM f acc).Safe S R G Q s := by
  suffices h : ∀ rest done acc s, xs = done ++ rest → Inv done acc s →
      (rest.foldlM f acc).Safe S R G Q s from h xs [] acc s rfl hinit
  intro rest
  induction rest with
  | nil =>
    intro done acc s hxs hinv
    rw [List.append_nil] at hxs
    exact hend acc s (hxs ▸ hinv)
  | cons x rest ih =>
    intro done acc s hxs hinv
    rw [List.foldlM_cons, safe_bind]
    refine (hbody done x rest acc s hxs hinv).mono fun r s' h => ?_
    cases r with
    | ok acc' => exact ih (done ++ [x]) acc' s' (by simpa using hxs) h
    | error e => exact h

theorem safe_interpret {I' : Interface} {S : Service I' σ} {R : σ → σ → Prop}
    {G : (o : I'.Op) → σ → I'.Ans o → σ → Prop} {Q : Except ε α → σ → Prop} {s : σ}
    {f : (o : I.Op) → Prog I' ε (I.Ans o)} (Inv : σ → Prop)
    (hop : ∀ o s, Inv s → (f o).Safe S R G (fun r s' => (∃ a, r = .ok a) ∧ Inv s') s)
    (hQ : ∀ r s, Inv s → Q r s) (p : Prog I ε α) (hs : Inv s) :
    (p.interpret f).Safe S R G Q s := by
  induction p generalizing s with
  | ret a => exact hQ _ _ hs
  | raise e => exact hQ _ _ hs
  | call o k ih =>
    refine safe_bind.mpr ((hop o s hs).mono ?_)
    rintro r s' ⟨⟨a, rfl⟩, hs'⟩
    exact ih a hs'

end Prog

theorem Prog.Safe.env {S : Prog.Service I σ} {R : σ → σ → Prop}
    {G : (o : I.Op) → σ → I.Ans o → σ → Prop} {Q : Except ε α → σ → Prop}
    {o : I.Op} {k : I.Ans o → Prog I ε α} {s s' : σ}
    (hR : ∀ {s s' s''}, R s s' → R s' s'' → R s s'')
    (h : (Prog.call o k).Safe S R G Q s) (hs : R s s') : (Prog.call o k).Safe S R G Q s' :=
  fun s₁ hs₁ a s₂ ha => h s₁ (hR hs hs₁) a s₂ ha

theorem Prog.Safe.move {S : Prog.Service I σ} {R : σ → σ → Prop}
    {G : (o : I.Op) → σ → I.Ans o → σ → Prop} {Q : Except ε α → σ → Prop} {p : Prog I ε α}
    {s s' : σ} (hR : ∀ {s s' s''}, R s s' → R s' s'' → R s s'')
    (hQ : ∀ {r s s'}, R s s' → Q r s → Q r s') (h : p.Safe S R G Q s) (hs : R s s') :
    p.Safe S R G Q s' := by
  cases p with
  | ret a => exact hQ hs h
  | raise e => exact hQ hs h
  | call o k => exact Prog.Safe.env hR h hs

theorem Exec.safe {S : Prog.Service I σ} {R : σ → σ → Prop}
    {G : (o : I.Op) → σ → I.Ans o → σ → Prop} {Q : Except ε α → σ → Prop}
    {p q : Prog I ε α} {s s' : σ} {t : List (Event I σ)}
    (hrefl : ∀ s, R s s) (htrans : ∀ {s s' s''}, R s s' → R s' s'' → R s s'')
    (hx : Exec S R p s t q s') (h : p.Safe S R G Q s) :
    q.Safe S R G Q s' ∧ ∀ e ∈ t, e.Satisfies G := by
  induction hx with
  | stop => exact ⟨h, by simp⟩
  | env hR _ ih =>
    obtain ⟨hq, ht⟩ := ih (h.env htrans hR)
    exact ⟨hq, List.forall_mem_cons.mpr ⟨trivial, ht⟩⟩
  | call hs _ ih =>
    obtain ⟨hg, hk⟩ := h _ (hrefl _) _ _ hs
    obtain ⟨hq, ht⟩ := ih hk
    exact ⟨hq, List.forall_mem_cons.mpr ⟨hg, ht⟩⟩

theorem Exec.exists_call {S : Prog.Service I σ} {R : σ → σ → Prop} {o : I.Op}
    {k : I.Ans o → Prog I ε α} {q : Prog I ε α} {s s' s'' : σ} {a : I.Ans o}
    (hs : S.step o s a s') (h : ∃ t, Exec S R (k a) s' t q s'') :
    ∃ t, Exec S R (.call o k) s t q s'' :=
  h.imp' _ fun _ h => .call hs h

theorem Exec.bind {S : Prog.Service I σ} {R : σ → σ → Prop} {p q : Prog I ε α} {s s' : σ}
    {t : List (Event I σ)} (f : α → Prog I ε β) (h : Exec S R p s t q s') :
    Exec S R (p.bind f) s t (q.bind f) s' := by
  induction h with
  | stop => exact .stop
  | env hR _ ih => exact .env hR ih
  | call hs _ ih => exact .call hs ih

theorem Exec.restrict {S : Prog.Service I σ} {R : σ → σ → Prop}
    {A : (o : I.Op) → σ → I.Ans o → σ → Prop} {p q : Prog I ε α} {s s' : σ} {t : List (Event I σ)}
    (h : Exec S R p s t q s') (hA : ∀ e ∈ t, e.Satisfies A) : Exec (S.restrict A) R p s t q s' := by
  induction h with
  | stop => exact .stop
  | env hR _ ih => exact .env hR (ih (List.forall_mem_cons.mp hA).2)
  | call hs _ ih =>
    obtain ⟨ha, hA⟩ := List.forall_mem_cons.mp hA
    exact .call ⟨hs, ha⟩ (ih hA)

theorem Exec.among {S : Prog.Service I σ} {R : σ → σ → Prop} {p q : Prog I ε α} {s s' : σ}
    {t : List (Event I σ)} (h : Exec S Eq p s t q s') (hR : ∀ s, R s s) : Exec S R p s t q s' := by
  induction h with
  | stop => exact .stop
  | env hs _ ih => exact .env (hs ▸ hR _) ih
  | call hs _ ih => exact .call hs ih

theorem Exec.head {S : Prog.Service I σ} {R : σ → σ → Prop} {o : I.Op} {k : I.Ans o → Prog I ε α}
    {s s' : σ} {t : List (Event I σ)} {b : α} (hrefl : ∀ s, R s s)
    (htrans : ∀ {s s' s''}, R s s' → R s' s'' → R s s'') (h : Exec S R (.call o k) s t (.ret b) s') :
    ∃ u s₁ a s₂ t', t = u ++ .call o s₁ a s₂ :: t' ∧ (∀ e ∈ u, e.isEnv) ∧ R s s₁ ∧
      S.step o s₁ a s₂ ∧ Exec S R (k a) s₂ t' (.ret b) s' := by
  generalize hp : Prog.call o k = p at h
  generalize hq : Prog.ret b = q at h
  induction h with
  | stop => subst hq; exact nomatch hp
  | env hR _ ih =>
    cases hp
    obtain ⟨u, s₁, a, s₂, t', rfl, hu, hR', hs, hrest⟩ := ih rfl hq
    exact ⟨_ :: u, s₁, a, s₂, t', rfl, List.forall_mem_cons.mpr ⟨rfl, hu⟩, htrans hR hR', hs, hrest⟩
  | call hs hrest _ =>
    cases hp
    subst hq
    exact ⟨[], _, _, _, _, rfl, by simp, hrefl _, hs, hrest⟩

theorem Exec.invariant {S : Prog.Service I σ} {R : σ → σ → Prop} {Inv : σ → Prop}
    {p q : Prog I ε α} {s s' : σ} {t : List (Event I σ)}
    (hx : Exec S R p s t q s') (hR : ∀ {s s'}, R s s' → Inv s → Inv s')
    (ht : ∀ e ∈ t, e.Satisfies fun _ s _ s' => Inv s → Inv s') (hs : Inv s) : Inv s' := by
  induction hx with
  | stop => exact hs
  | env h _ ih => exact ih (List.forall_mem_cons.mp ht).2 (hR h hs)
  | call h _ ih =>
    obtain ⟨hg, ht⟩ := List.forall_mem_cons.mp ht
    exact ih ht (hg hs)

end LangGraphFunctions.Lib

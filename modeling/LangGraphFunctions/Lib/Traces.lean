import LangGraphFunctions.Lib.Exec

/-! The operations of a run one by one, each with the states before and after it. -/

namespace LangGraphFunctions.Lib

variable {I I' : Interface} {ε α β σ : Type}

def ownOf (t : List (Event I σ)) : List (Event I σ) := t.filter fun e => !e.isEnv

namespace Prog

/-- However the surroundings move by `R`, the outcome of `p`, the state it is reached in and the
operations that were made meet `Φ`. -/
def Traces (S : Service I σ) (R : σ → σ → Prop) :
    Prog I ε α → (Except ε α → σ → List (Event I σ) → Prop) → σ → Prop
  | .ret a, Φ, s => Φ (.ok a) s []
  | .raise e, Φ, s => Φ (.error e) s []
  | .call o k, Φ, s => ∀ s₁, R s s₁ → ∀ a s₂, S.step o s₁ a s₂ →
      (k a).Traces S R (fun r s' u => Φ r s' (.call o s₁ a s₂ :: u)) s₂

variable {S : Service I σ} {R : σ → σ → Prop} {p : Prog I ε α} {s : σ}
  {Φ Ψ : Except ε α → σ → List (Event I σ) → Prop}

theorem Traces.mono (h : p.Traces S R Φ s) (hΦ : ∀ r s' u, Φ r s' u → Ψ r s' u) :
    p.Traces S R Ψ s := by
  induction p generalizing Φ Ψ s with
  | ret a => exact hΦ _ _ _ h
  | raise e => exact hΦ _ _ _ h
  | call o k ih =>
    exact fun s₁ hs₁ a s₂ hs => ih a (h s₁ hs₁ a s₂ hs) fun r s' u => hΦ r s' _

theorem traces_of_all (p : Prog I ε α) (hΦ : ∀ r s' u, Φ r s' u) : p.Traces S R Φ s := by
  induction p generalizing Φ s with
  | ret a => exact hΦ _ _ _
  | raise e => exact hΦ _ _ _
  | call o k ih => exact fun s₁ _ a s₂ _ => ih a fun r s' u => hΦ r s' _

theorem Traces.and (h : p.Traces S R Φ s) (h' : p.Traces S R Ψ s) :
    p.Traces S R (fun r s' u => Φ r s' u ∧ Ψ r s' u) s := by
  induction p generalizing Φ Ψ s with
  | ret a => exact ⟨h, h'⟩
  | raise e => exact ⟨h, h'⟩
  | call o k ih => exact fun s₁ hs₁ a s₂ hs => ih a (h s₁ hs₁ a s₂ hs) (h' s₁ hs₁ a s₂ hs)

theorem traces_bind {f : α → Prog I ε β} {Θ : Except ε β → σ → List (Event I σ) → Prop}
    (h : p.Traces S R Φ s)
    (hok : ∀ a s' u, Φ (.ok a) s' u → (f a).Traces S R (fun r s'' v => Θ r s'' (u ++ v)) s')
    (herror : ∀ e s' u, Φ (.error e) s' u → Θ (.error e) s' u) : (p.bind f).Traces S R Θ s := by
  induction p generalizing Φ Θ s with
  | ret a => exact hok a s [] h
  | raise e => exact herror e s [] h
  | call o k ih =>
    intro s₁ hs₁ a s₂ hs
    exact ih a (h s₁ hs₁ a s₂ hs) (fun b s' u => hok b s' _) fun e s' u => herror e s' _

theorem traces_attempt {Θ : Except ε (Except ε α) → σ → List (Event I σ) → Prop}
    (h : p.Traces S R Φ s) (hΦ : ∀ r s' u, Φ r s' u → Θ (.ok r) s' u) :
    p.attempt.Traces S R Θ s := by
  induction p generalizing Φ Θ s with
  | ret a => exact hΦ _ _ _ h
  | raise e => exact hΦ _ _ _ h
  | call o k ih =>
    exact fun s₁ hs₁ a s₂ hs => ih a (h s₁ hs₁ a s₂ hs) fun r s' u => hΦ r s' _

theorem traces_ofExcept {r : Except ε α} (h : Φ r s []) : (ofExcept r).Traces S R Φ s := by
  cases r <;> exact h

end Prog

theorem Exec.traces {S : Prog.Service I σ} {R : σ → σ → Prop} {p : Prog I ε α} {s s' : σ}
    {t : List (Event I σ)} {r : Except ε α} {Φ : Except ε α → σ → List (Event I σ) → Prop}
    (hrefl : ∀ s, R s s) (htrans : ∀ {s s' s''}, R s s' → R s' s'' → R s s'')
    (hx : Exec S R p s t (.ofExcept r) s') (h : p.Traces S R Φ s) : Φ r s' (ownOf t) := by
  generalize hq : Prog.ofExcept r = q at hx
  induction hx generalizing Φ with
  | stop =>
    subst hq
    cases r <;> exact h
  | env hs _ ih => exact ih (fun s₁ hs₁ => h s₁ (htrans hs hs₁)) hq
  | call hs _ ih => exact ih (h _ (hrefl _) _ _ hs) hq

/-- Before each operation the surroundings move by `g`, and it is carried out by `f`. -/
def Prog.playOut (f : (o : I.Op) → σ → I.Ans o × σ) (g : I.Op → σ → σ) :
    Prog I ε α → σ → List (Event I σ) × Except ε α × σ
  | .ret a, s => ([], .ok a, s)
  | .raise e, s => ([], .error e, s)
  | .call o k, s =>
    let x := f o (g o s)
    let rest := (k x.1).playOut f g x.2
    (.env s (g o s) :: .call o (g o s) x.1 x.2 :: rest.1, rest.2)

theorem exec_playOut {S : Prog.Service I σ} {R : σ → σ → Prop}
    {f : (o : I.Op) → σ → I.Ans o × σ} {g : I.Op → σ → σ}
    (hf : ∀ o s, S.step o s (f o s).1 (f o s).2) (hg : ∀ o s, R s (g o s)) (p : Prog I ε α)
    (s : σ) :
    Exec S R p s (p.playOut f g s).1 (.ofExcept (p.playOut f g s).2.1) (p.playOut f g s).2.2 := by
  induction p generalizing s with
  | ret a => exact .stop
  | raise e => exact .stop
  | call o k ih => exact .env (hg o s) (.call (hf o _) (ih _ _))

end LangGraphFunctions.Lib

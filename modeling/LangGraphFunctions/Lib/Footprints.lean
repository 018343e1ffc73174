import LangGraphFunctions.Lib.Views

/-! Programs whose operations all meet a condition, run from states that are alike. -/

namespace LangGraphFunctions.Lib

variable {I : Interface} {ε α σ : Type} {A : (o : I.Op) → I.Ans o → Prop} {P : I.Op → Prop}
  {S : Prog.Service I σ} {R : σ → σ → Prop} {p q : Prog I ε α} {s s' s₁ : σ} {t : List (Event I σ)}

def Prog.Service.Parallel (S : Prog.Service I σ) (A : (o : I.Op) → I.Ans o → Prop) (P : I.Op → Prop)
    (R : σ → σ → Prop) : Prop :=
  ∀ o s a s₁ s', P o → S.step o s a s₁ → R s s' → A o a ∧ ∃ s₁', S.step o s' a s₁' ∧ R s₁ s₁'

theorem Exec.parallel (hS : S.Parallel A P R) (hp : p.Uses A P) (h : Exec S Eq p s t q s₁)
    (hs : R s s') : ∃ t' s₁', Exec S Eq p s' t' q s₁' ∧ R s₁ s₁' := by
  induction h generalizing s' with
  | stop => exact ⟨[], s', .stop, hs⟩
  | env heq _ ih =>
    cases heq
    exact ih hp hs
  | call hstep _ ih =>
    obtain ⟨ho, hk⟩ := Prog.uses_call.mp hp
    obtain ⟨ha, s₂', hstep', hs₂⟩ := hS _ _ _ _ _ ho hstep hs
    obtain ⟨t', s₁', hrun, hs₁⟩ := ih (hk _ ha) hs₂
    exact ⟨_, s₁', .call hstep' hrun, hs₁⟩

theorem Exec.alike (hS : ∀ o s a s₁, P o → S.step o s a s₁ → A o a ∧ R s s₁) (hrefl : ∀ s, R s s)
    (htrans : ∀ {s s₁ s₂}, R s s₁ → R s₁ s₂ → R s s₂) (hp : p.Uses A P)
    (h : Exec S Eq p s t q s₁) : R s s₁ := by
  induction h with
  | stop => exact hrefl _
  | env heq _ ih =>
    cases heq
    exact ih hp
  | call hstep _ ih =>
    obtain ⟨ho, hk⟩ := Prog.uses_call.mp hp
    obtain ⟨ha, hs₂⟩ := hS _ _ _ _ ho hstep
    exact htrans hs₂ (ih (hk _ ha))

end LangGraphFunctions.Lib

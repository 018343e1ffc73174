import LangGraphFunctions.Lib.Transcript

/-! Two programs that look the same from outside: one performs the operations of the other, and
besides them only operations that are hidden. -/

namespace LangGraphFunctions.Lib.Prog

variable {I : Interface} {ε α β : Type} {A : (o : I.Op) → I.Ans o → Prop} {hidden : I.Op → Bool}
  {p q : Prog I ε α} {f g : α → Prog I ε β} {w : Transcript I} {r : Except ε α}

inductive Yields (A : (o : I.Op) → I.Ans o → Prop) :
    Prog I ε α → Transcript I → Except ε α → Prop
  | ret {a : α} : Yields A (.ret a) [] (.ok a)
  | raise {e : ε} : Yields A (.raise e) [] (.error e)
  | call {o : I.Op} {k : I.Ans o → Prog I ε α} {a : I.Ans o} {w : Transcript I} {r : Except ε α} :
      A o a → Yields A (k a) w r → Yields A (.call o k) (⟨o, a⟩ :: w) r

theorem yields_answered {x : (o : I.Op) → Option (I.Ans o)} (hx : ∀ o a, x o = some a → A o a)
    (h : p.answered x = some (w, r)) : p.Yields A w r := by
  induction p generalizing w with
  | ret a =>
    cases h
    exact .ret
  | raise e =>
    cases h
    exact .raise
  | call o k ih =>
    obtain ⟨a, ha, h⟩ := Option.bind_eq_some_iff.mp h
    obtain ⟨⟨w', r'⟩, hrest, ⟨⟩⟩ := Option.bind_eq_some_iff.mp h
    exact .call (hx o a ha) (ih a hrest)

def visible (hidden : I.Op → Bool) (w : Transcript I) : Transcript I :=
  w.filter fun e => !hidden e.1

def Agree (A : (o : I.Op) → I.Ans o → Prop) (hidden : I.Op → Bool) (p q : Prog I ε α) : Prop :=
  ∀ v r, (∃ w, p.Yields A w r ∧ visible hidden w = v) ↔ ∃ w, q.Yields A w r ∧ visible hidden w = v

inductive Mirrors (A : (o : I.Op) → I.Ans o → Prop) (hidden : I.Op → Bool) :
    Prog I ε α → Prog I ε α → Prop
  | ret {a : α} : Mirrors A hidden (.ret a) (.ret a)
  | raise {e : ε} : Mirrors A hidden (.raise e) (.raise e)
  | call {o : I.Op} {k k' : I.Ans o → Prog I ε α} :
      (∀ a, A o a → Mirrors A hidden (k a) (k' a)) → Mirrors A hidden (.call o k) (.call o k')
  | hidden {p : Prog I ε α} {o : I.Op} {k : I.Ans o → Prog I ε α} : hidden o = true →
      (∃ a, A o a) → (∀ a, A o a → Mirrors A hidden p (k a)) → Mirrors A hidden p (.call o k)

theorem Mirrors.refl (p : Prog I ε α) : p.Mirrors A hidden p := by
  induction p with
  | ret a => exact .ret
  | raise e => exact .raise
  | call o k ih => exact .call fun a _ => ih a

theorem Mirrors.bind (h : p.Mirrors A hidden q) (hfg : ∀ a, (f a).Mirrors A hidden (g a)) :
    (p.bind f).Mirrors A hidden (q.bind g) := by
  induction h with
  | ret => exact hfg _
  | raise => exact .raise
  | call _ ih => exact .call ih
  | hidden ho hex _ ih => exact .hidden ho hex ih

theorem Mirrors.attempt (h : p.Mirrors A hidden q) : p.attempt.Mirrors A hidden q.attempt := by
  induction h with
  | ret => exact .ret
  | raise => exact .ret
  | call _ ih => exact .call ih
  | hidden ho hex _ ih => exact .hidden ho hex ih

theorem Mirrors.andFinally {cleanup : Prog I ε Unit} (h : p.Mirrors A hidden q) :
    (p.andFinally cleanup).Mirrors A hidden (q.andFinally cleanup) :=
  h.attempt.bind fun _ => .refl _

theorem Mirrors.yields (h : p.Mirrors A hidden q) (hp : p.Yields A w r) :
    ∃ w', q.Yields A w' r ∧ visible hidden w' = visible hidden w := by
  induction h generalizing w with
  | ret => exact ⟨w, hp, rfl⟩
  | raise => exact ⟨w, hp, rfl⟩
  | @call o _ _ _ ih =>
    cases hp with
    | @call _ _ a w _ ha hrest =>
      obtain ⟨w', hw', heq⟩ := ih a ha hrest
      refine ⟨⟨o, a⟩ :: w', .call ha hw', ?_⟩
      simp only [visible, List.filter_cons] at heq ⊢
      rw [heq]
  | @hidden _ o k ho hex _ ih =>
    obtain ⟨a, ha⟩ := hex
    obtain ⟨w', hw', heq⟩ := ih a ha hp
    refine ⟨⟨o, a⟩ :: w', .call ha hw', ?_⟩
    rw [← heq, visible, List.filter_cons_of_neg (by simp [ho]), visible]

theorem Mirrors.yields_mirrored (h : p.Mirrors A hidden q) (hq : q.Yields A w r) :
    ∃ w', p.Yields A w' r ∧ visible hidden w' = visible hidden w := by
  induction h generalizing w with
  | ret => exact ⟨w, hq, rfl⟩
  | raise => exact ⟨w, hq, rfl⟩
  | @call o _ _ _ ih =>
    cases hq with
    | @call _ _ a w _ ha hrest =>
      obtain ⟨w', hw', heq⟩ := ih a ha hrest
      refine ⟨⟨o, a⟩ :: w', .call ha hw', ?_⟩
      simp only [visible, List.filter_cons] at heq ⊢
      rw [heq]
  | hidden ho _ _ ih =>
    cases hq with
    | @call _ _ a w _ ha hrest =>
      obtain ⟨w', hw', heq⟩ := ih a ha hrest
      refine ⟨w', hw', ?_⟩
      rw [heq, visible, visible, List.filter_cons_of_neg (by simp [ho])]

theorem Mirrors.agree (h : p.Mirrors A hidden q) : p.Agree A hidden q := by
  intro v r
  constructor
  · rintro ⟨w, hw, rfl⟩
    exact h.yields hw
  · rintro ⟨w, hw, rfl⟩
    exact h.yields_mirrored hw

theorem Agree.symm (h : p.Agree A hidden q) : q.Agree A hidden p := fun v r => (h v r).symm

theorem Yields.of_call {o : I.Op} {k : I.Ans o → Prog I ε α} (h : (Prog.call o k).Yields A w r) :
    ∃ a w', w = ⟨o, a⟩ :: w' ∧ A o a ∧ (k a).Yields A w' r := by
  cases h with
  | call ha hrest => exact ⟨_, _, rfl, ha, hrest⟩

theorem visible_cons {o : I.Op} (ho : hidden o = false) (a : I.Ans o) :
    visible hidden (⟨o, a⟩ :: w) = ⟨o, a⟩ :: visible hidden w :=
  List.filter_cons_of_pos (by simp [ho])

theorem Agree.of_call {o : I.Op} {k k' : I.Ans o → Prog I ε α}
    (h : (Prog.call o k).Agree A hidden (.call o k')) (ho : hidden o = false) {a : I.Ans o}
    (ha : A o a) : (k a).Agree A hidden (k' a) := by
  have hhalf {k k' : I.Ans o → Prog I ε α} (h : (Prog.call o k).Agree A hidden (.call o k'))
      (v : Transcript I) (r : Except ε α) (hw : ∃ w, (k a).Yields A w r ∧ visible hidden w = v) :
      ∃ w, (k' a).Yields A w r ∧ visible hidden w = v := by
    obtain ⟨w, hw, rfl⟩ := hw
    obtain ⟨w', hw', hvisible⟩ := (h _ r).mp ⟨_, .call ha hw, rfl⟩
    obtain ⟨a', w', rfl, -, hrest⟩ := hw'.of_call
    rw [visible_cons ho, visible_cons ho, List.cons.injEq] at hvisible
    obtain ⟨⟨⟩, hvisible⟩ := hvisible
    exact ⟨w', hrest, hvisible⟩
  exact fun v r => ⟨hhalf h v r, hhalf h.symm v r⟩

theorem not_agree_raise {e : ε} {o : I.Op} {k : I.Ans o → Prog I ε α} (ho : hidden o = false) :
    ¬(Prog.raise e : Prog I ε α).Agree A hidden (.call o k) := by
  intro h
  obtain ⟨w, hw, hvisible⟩ := (h [] (.error e)).mp ⟨[], .raise, rfl⟩
  obtain ⟨a, w', rfl, -, -⟩ := hw.of_call
  rw [visible_cons ho] at hvisible
  cases hvisible

theorem Agree.head_eq {o o' : I.Op} {k : I.Ans o → Prog I ε α} {k' : I.Ans o' → Prog I ε α}
    (h : (Prog.call o k).Agree A hidden (.call o' k')) (ho : hidden o = false)
    (ho' : hidden o' = false) (hends : ∃ w r, (Prog.call o k).Yields A w r) : o = o' := by
  obtain ⟨w, r, hw⟩ := hends
  obtain ⟨w', hw', hvisible⟩ := (h _ r).mp ⟨w, hw, rfl⟩
  obtain ⟨a, w, rfl, -, -⟩ := hw.of_call
  obtain ⟨a', w', rfl, -, -⟩ := hw'.of_call
  rw [visible_cons ho, visible_cons ho', List.cons.injEq] at hvisible
  exact (congrArg Sigma.fst hvisible.1).symm

theorem Agree.ret_eq {a b : α} (h : (Prog.ret a : Prog I ε α).Agree A hidden (.ret b)) : a = b := by
  obtain ⟨w, hw, -⟩ := (h [] (.ok a)).mp ⟨[], .ret, rfl⟩
  cases hw
  rfl

theorem Agree.raise_eq {e e' : ε} (h : (Prog.raise e : Prog I ε α).Agree A hidden (.raise e')) :
    e = e' := by
  obtain ⟨w, hw, -⟩ := (h [] (.error e)).mp ⟨[], .raise, rfl⟩
  cases hw
  rfl

theorem attempt_bind_ofExcept (p : Prog I ε α) : p.attempt.bind ofExcept = p := by
  induction p with
  | ret a => rfl
  | raise e => rfl
  | call o k ih => simp only [Prog.attempt, Prog.bind, ih]

theorem andFinally_ret (p : Prog I ε α) : p.andFinally (.ret ()) = p := attempt_bind_ofExcept p

theorem map_andFinally (x : α → β) (p : Prog I ε α) (cleanup : Prog I ε Unit) :
    (p.bind fun a => .ret (x a)).andFinally cleanup = (p.andFinally cleanup).bind fun a => .ret (x a) := by
  induction p with
  | ret a =>
    change (cleanup.bind fun _ => .ret (x a)) = (cleanup.bind fun _ => .ret a).bind _
    rw [bind_bind]
    rfl
  | raise e =>
    change (cleanup.bind fun _ => .raise e) = (cleanup.bind fun _ => .raise e).bind _
    rw [bind_bind]
    rfl
  | call o k ih =>
    change Prog.call o _ = Prog.call o _
    exact congrArg _ (funext ih)

end LangGraphFunctions.Lib.Prog

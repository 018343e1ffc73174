import LangGraphFunctions.Lib.Exec

/-! Programs that leave their surroundings as they are, and what they make of them; runs with the
marks that their operations leave. -/

namespace LangGraphFunctions.Lib

variable {I : Interface} {ε α β σ μ : Type}

namespace Prog

def eval (f : (o : I.Op) → I.Ans o) : Prog I ε α → Except ε α
  | .ret a => .ok a
  | .raise e => .error e
  | .call o k => (k (f o)).eval f

variable {f g : (o : I.Op) → I.Ans o}

@[simp] theorem eval_ret (a : α) : (Prog.ret a : Prog I ε α).eval f = .ok a := rfl

@[simp] theorem eval_raise (e : ε) : (Prog.raise e : Prog I ε α).eval f = .error e := rfl

@[simp] theorem eval_call (o : I.Op) (k : I.Ans o → Prog I ε α) :
    (Prog.call o k).eval f = (k (f o)).eval f := rfl

@[simp] theorem eval_perform (o : I.Op) : (perform o : Prog I ε _).eval f = .ok (f o) := rfl

@[simp] theorem eval_bind (p : Prog I ε α) (q : α → Prog I ε β) :
    (p >>= q).eval f = p.eval f >>= fun a => (q a).eval f := by
  induction p with
  | ret a => rfl
  | raise e => rfl
  | call o k ih => exact ih (f o)

@[simp] theorem eval_map (p : Prog I ε α) (q : α → β) : (q <$> p).eval f = q <$> p.eval f := by
  rw [map_eq_pure_bind, eval_bind, map_eq_pure_bind]
  rfl

@[simp] theorem eval_ofExcept (r : Except ε α) : (ofExcept r : Prog I ε α).eval f = r := by
  cases r <;> rfl

theorem eval_foldlM (body : β → α → Prog I ε β) (xs : List α) (b : β) :
    (xs.foldlM body b).eval f = xs.foldlM (fun b a => (body b a).eval f) b := by
  induction xs generalizing b with
  | nil => rfl
  | cons x xs ih =>
    rw [List.foldlM_cons, List.foldlM_cons, eval_bind]
    exact bind_congr fun b => ih b

def Uses (A : (o : I.Op) → I.Ans o → Prop) (P : I.Op → Prop) : Prog I ε α → Prop
  | .ret _ => True
  | .raise _ => True
  | .call o k => P o ∧ ∀ a, A o a → (k a).Uses A P

variable {A : (o : I.Op) → I.Ans o → Prop} {P : I.Op → Prop}

theorem uses_ret (a : α) : (Prog.ret a : Prog I ε α).Uses A P := trivial

theorem uses_raise (e : ε) : (Prog.raise e : Prog I ε α).Uses A P := trivial

theorem uses_call {o : I.Op} {k : I.Ans o → Prog I ε α} :
    (Prog.call o k).Uses A P ↔ P o ∧ ∀ a, A o a → (k a).Uses A P := Iff.rfl

theorem uses_bind {p : Prog I ε α} {q : α → Prog I ε β} (hp : p.Uses A P)
    (hq : ∀ a, (q a).Uses A P) : (p >>= q).Uses A P := by
  induction p with
  | ret a => exact hq a
  | raise e => trivial
  | call o k ih => exact ⟨hp.1, fun a ha => ih a (hp.2 a ha)⟩

theorem uses_ofExcept (r : Except ε α) : (ofExcept r : Prog I ε α).Uses A P := by
  cases r <;> trivial

theorem uses_foldlM {body : β → α → Prog I ε β} {xs : List α} (b : β)
    (h : ∀ b, ∀ x ∈ xs, (body b x).Uses A P) : (xs.foldlM body b).Uses A P := by
  induction xs generalizing b with
  | nil => trivial
  | cons x xs ih =>
    rw [List.foldlM_cons]
    obtain ⟨hx, hxs⟩ : (∀ b, (body b x).Uses A P) ∧ ∀ b, ∀ y ∈ xs, (body b y).Uses A P :=
      ⟨fun b => h b x List.mem_cons_self, fun b y hy => h b y (List.mem_cons_of_mem x hy)⟩
    exact uses_bind (hx b) fun b => ih b hxs

theorem uses_forM {body : α → Prog I ε PUnit} {xs : List α}
    (h : ∀ x ∈ xs, (body x).Uses A P) : (xs.forM body).Uses A P := by
  induction xs with
  | nil => exact uses_ret _
  | cons x xs ih =>
    exact uses_bind (h x List.mem_cons_self) fun _ => ih fun y hy => h y (List.mem_cons_of_mem x hy)

theorem uses_ofExcept_bind {r : Except ε α} {q : α → Prog I ε β}
    (h : ∀ a, r = .ok a → (q a).Uses A P) : (ofExcept r >>= q).Uses A P := by
  cases r with
  | ok a => exact h a rfl
  | error e => exact uses_raise e

theorem uses_ite {c : Prop} [Decidable c] {p q : Prog I ε α} (hp : p.Uses A P)
    (hq : q.Uses A P) : (if c then p else q).Uses A P := by
  split
  · exact hp
  · exact hq

theorem Uses.mono {A' : (o : I.Op) → I.Ans o → Prop} {P' : I.Op → Prop} {p : Prog I ε α}
    (h : p.Uses A P) (hP : ∀ o, P o → P' o) (hA : ∀ o a, A' o a → A o a) : p.Uses A' P' := by
  induction p with
  | ret a => trivial
  | raise e => trivial
  | call o k ih => exact ⟨hP o h.1, fun a ha => ih a (h.2 a (hA o a ha))⟩

theorem eval_congr {p : Prog I ε α} (h : p.Uses A P) (hA : ∀ o, P o → A o (f o))
    (hfg : ∀ o, P o → f o = g o) : p.eval f = p.eval g := by
  induction p with
  | ret a => rfl
  | raise e => rfl
  | call o k ih =>
    rw [eval_call, eval_call, ← hfg o h.1]
    exact ih _ (h.2 _ (hA o h.1))

def Still (S : Service I σ) (P : I.Op → Prop) (f : σ → (o : I.Op) → I.Ans o) : Prop :=
  ∀ o s a s', P o → S.step o s a s' → a = f s o ∧ s' = s

variable {S : Service I σ} {F : σ → (o : I.Op) → I.Ans o}

theorem safe_still {G : (o : I.Op) → σ → I.Ans o → σ → Prop} {Q : Except ε α → σ → Prop}
    {p : Prog I ε α} {s : σ} (hS : Still S P F) (hp : p.Uses A P) (hA : ∀ o, P o → A o (F s o))
    (hG : ∀ o a, P o → G o s a s) (hQ : Q (p.eval (F s)) s) : p.Safe S Eq G Q s := by
  induction p with
  | ret a => exact hQ
  | raise e => exact hQ
  | call o k ih =>
    rintro _ rfl a s' hstep
    obtain ⟨rfl, rfl⟩ := hS o s a s' hp.1 hstep
    exact ⟨hG o _ hp.1, ih _ (hp.2 _ (hA o hp.1)) hQ⟩

theorem safe_still_bind {G : (o : I.Op) → σ → I.Ans o → σ → Prop} {Q : Except ε β → σ → Prop}
    {p : Prog I ε α} {q : α → Prog I ε β} {s : σ} (hS : Still S P F)
    (hp : p.Uses A P) (hA : ∀ o, P o → A o (F s o)) (hG : ∀ o a, P o → G o s a s)
    (hok : ∀ a, p.eval (F s) = .ok a → (q a).Safe S Eq G Q s)
    (herror : ∀ e, p.eval (F s) = .error e → Q (.error e) s) : (p >>= q).Safe S Eq G Q s := by
  refine safe_bind.mpr (safe_still hS hp hA hG ?_)
  cases h : p.eval (F s) with
  | ok a => exact hok a h
  | error e => exact herror e h

attribute [irreducible] Uses

end Prog

theorem Exec.reaches {S : Prog.Service I σ} {C : σ → Prop} {Q : Except ε α → σ → Prop}
    {p q : Prog I ε α} {s s' : σ} {t : List (Event I σ)} (h : Exec S Eq p s t q s')
    (hp : p.Safe S Eq (fun _ _ _ s' => C s') Q s) (hs : C s) : C s' := by
  have hevents := (h.safe (fun _ => rfl) (fun h h' => h.trans h') hp).2
  refine h.invariant (fun hR hC => hR ▸ hC) (fun e he => ?_) hs
  have hsat := hevents e he
  cases e with
  | env => trivial
  | call => exact fun _ => hsat

theorem Exec.ends {S : Prog.Service I σ} {G : (o : I.Op) → σ → I.Ans o → σ → Prop}
    {Q : Except ε α → σ → Prop} {p q : Prog I ε α} {s s' : σ} {t : List (Event I σ)}
    (h : Exec S Eq p s t q s') (hp : p.Safe S Eq G Q s) : q.Safe S Eq G Q s' :=
  (h.safe (fun _ => rfl) (fun h h' => h.trans h') hp).1

end LangGraphFunctions.Lib

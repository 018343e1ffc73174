import Mathlib.Init

namespace LangGraphFunctions.Lib

theorem bind_eq_ok {ε α β : Type} {x : Except ε α} {f : α → Except ε β} {b : β} :
    (x >>= f) = .ok b ↔ ∃ a, x = .ok a ∧ f a = .ok b := by
  cases x with
  | ok a =>
    constructor
    · exact fun h => ⟨a, rfl, h⟩
    · rintro ⟨_, ⟨⟩, h⟩
      exact h
  | error e =>
    constructor
    · exact fun h => nomatch h
    · rintro ⟨_, ⟨⟩, _⟩

/-- The operations a program may perform on its surroundings, each with the type of its answer. -/
structure Interface where
  Op : Type
  Ans : Op → Type

/-- A program over an interface: it returns, raises, or performs one operation and goes on with
the answer. -/
inductive Prog (I : Interface) (ε α : Type) : Type
  | ret : α → Prog I ε α
  | raise : ε → Prog I ε α
  | call : (o : I.Op) → (I.Ans o → Prog I ε α) → Prog I ε α

namespace Prog

variable {I : Interface} {ε α β γ σ : Type}

def bind : Prog I ε α → (α → Prog I ε β) → Prog I ε β
  | .ret a, f => f a
  | .raise e, _ => .raise e
  | .call o k, f => .call o fun x => (k x).bind f

def handle : Prog I ε α → (ε → Prog I ε α) → Prog I ε α
  | .ret a, _ => .ret a
  | .raise e, h => h e
  | .call o k, h => .call o fun x => (k x).handle h

instance : Monad (Prog I ε) where
  pure := .ret
  bind := Prog.bind

instance : MonadExceptOf ε (Prog I ε) where
  throw := .raise
  tryCatch := Prog.handle

def perform (o : I.Op) : Prog I ε (I.Ans o) := .call o .ret

/-- The outcome of a program as a value: what `try`, `except` and `finally` look at. -/
def attempt : Prog I ε α → Prog I ε (Except ε α)
  | .ret a => .ret (.ok a)
  | .raise e => .ret (.error e)
  | .call o k => .call o fun x => (k x).attempt

def ended : Prog I ε α → Bool
  | .call .. => false
  | _ => true

def ofExcept : Except ε α → Prog I ε α
  | .ok a => .ret a
  | .error e => .raise e

/-- `try: p finally: cleanup`. -/
def andFinally (p : Prog I ε α) (cleanup : Prog I ε Unit) : Prog I ε α :=
  p.attempt.bind fun r => cleanup.bind fun _ => ofExcept r

def interpret {I' : Interface} (f : (o : I.Op) → Prog I' ε (I.Ans o)) : Prog I ε α → Prog I' ε α
  | .ret a => .ret a
  | .raise e => .raise e
  | .call o k => (f o).bind fun a => (k a).interpret f

@[simp] theorem pure_eq (a : α) : (pure a : Prog I ε α) = .ret a := rfl

@[simp] theorem throw_eq (e : ε) : (throw e : Prog I ε α) = .raise e := rfl

@[simp] theorem ret_bind (a : α) (f : α → Prog I ε β) : (Prog.ret a >>= f) = f a := rfl

@[simp] theorem raise_bind (e : ε) (f : α → Prog I ε β) :
    ((Prog.raise e : Prog I ε α) >>= f) = .raise e := rfl

@[simp] theorem call_bind (o : I.Op) (k : I.Ans o → Prog I ε α) (f : α → Prog I ε β) :
    (Prog.call o k >>= f) = .call o fun x => k x >>= f := rfl

@[simp] theorem perform_bind (o : I.Op) (f : I.Ans o → Prog I ε β) :
    (perform o >>= f) = .call o f := rfl

theorem bind_ret (p : Prog I ε α) : p.bind .ret = p := by
  induction p with
  | ret a => rfl
  | raise e => rfl
  | call o k ih => simp only [bind, ih]

theorem bind_bind (p : Prog I ε α) (f : α → Prog I ε β) (g : β → Prog I ε γ) :
    (p.bind f).bind g = p.bind fun a => (f a).bind g := by
  induction p with
  | ret a => rfl
  | raise e => rfl
  | call o k ih => simp only [bind, ih]

instance : LawfulMonad (Prog I ε) :=
  LawfulMonad.mk' (Prog I ε) bind_ret (fun _ _ => rfl) bind_bind

structure Service (I : Interface) (σ : Type) where
  step : (o : I.Op) → σ → I.Ans o → σ → Prop

def Service.restrict (S : Service I σ) (A : (o : I.Op) → σ → I.Ans o → σ → Prop) :
    Service I σ where
  step o s a s' := S.step o s a s' ∧ A o s a s'

def run (f : (o : I.Op) → σ → I.Ans o × σ) : Prog I ε α → σ → Except ε α × σ
  | .ret a, s => (.ok a, s)
  | .raise e, s => (.error e, s)
  | .call o k, s => (k (f o s).1).run f (f o s).2

@[simp] theorem run_ret (f : (o : I.Op) → σ → I.Ans o × σ) (a : α) (s : σ) :
    (Prog.ret a : Prog I ε α).run f s = (.ok a, s) := rfl

@[simp] theorem run_raise (f : (o : I.Op) → σ → I.Ans o × σ) (e : ε) (s : σ) :
    (Prog.raise e : Prog I ε α).run f s = (.error e, s) := rfl

theorem run_call (f : (o : I.Op) → σ → I.Ans o × σ) (o : I.Op) (k : I.Ans o → Prog I ε α)
    (s : σ) : (Prog.call o k).run f s = (k (f o s).1).run f (f o s).2 := rfl

theorem run_bind (f : (o : I.Op) → σ → I.Ans o × σ) (p : Prog I ε α) (g : α → Prog I ε β)
    (s : σ) :
    (p >>= g).run f s = match p.run f s with
      | (.ok a, s') => (g a).run f s'
      | (.error e, s') => (.error e, s') := by
  induction p generalizing s with
  | ret a => rfl
  | raise e => rfl
  | call o k ih => rw [call_bind, run_call, ih, run_call]

end Prog

end LangGraphFunctions.Lib

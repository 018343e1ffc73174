import LangGraphFunctions.Lib.Dict
import LangGraphFunctions.Lib.Names
import LangGraphFunctions.Lib.Pool

/-! `InProcessThreadLock`: one primitive lock for each key, its owner's token, and a registry that
drops the states nothing refers to. -/

namespace LangGraphFunctions.Locks.InProcess

open Lib

abbrev Key := String × String

structure KeyState where
  locked : Bool
  token : Option String
  refs : Int

/-- The registry with the state objects it ever made, and the tokens drawn so far. -/
structure Registry where
  states : Dict Key Nat
  objects : Nat → KeyState
  allocated : Nat
  drawn : List String

namespace Registry

def empty : Registry := ⟨∅, fun _ => ⟨false, none, 0⟩, 0, []⟩

def modify (G : Registry) (state : Nat) (f : KeyState → KeyState) : Registry :=
  { G with objects := Function.update G.objects state (f (G.objects state)) }

def maybeGc (G : Registry) (key : Key) (state : Nat) : Registry :=
  if (G.objects state).refs = 0 ∧ G.states.get? key = some state then
    { G with states := G.states.erase key }
  else G

def allocate (G : Registry) (key : Key) : Registry :=
  { G with
    states := G.states.set key G.allocated
    objects := Function.update G.objects G.allocated ⟨false, none, 0⟩
    allocated := G.allocated + 1 }

def reserve (G : Registry) (key : Key) : Nat × Registry :=
  match G.states.get? key with
  | some state => (state, G.modify state fun s => { s with refs := s.refs + 1 })
  | none =>
    (G.allocated, (G.allocate key).modify G.allocated fun s => { s with refs := s.refs + 1 })

def unreserve (G : Registry) (key : Key) (state : Nat) : Registry :=
  (G.modify state fun s => { s with refs := s.refs - 1 }).maybeGc key state

def publish (G : Registry) (state : Nat) (token : String) : Registry :=
  G.modify state fun s => { s with token := some token }

def release (G : Registry) (key : Key) (token : String) : Registry :=
  match G.states.get? key with
  | none => G
  | some state =>
    if (G.objects state).token ≠ some token then G
    else (G.modify state fun s => ⟨false, none, s.refs - 1⟩).maybeGc key state

end Registry

inductive Op
  | reserve (key : Key)
  | lockAcquire (state : Nat) (blocking : Bool)
  | unreserve (key : Key) (state : Nat)
  | tokenHex
  | publish (state : Nat) (token : String)
  | release (key : Key) (token : String)

abbrev Op.Ans : Op → Type
  | .reserve _ => Nat
  | .lockAcquire .. => Bool
  | .unreserve .. => Unit
  | .tokenHex => String
  | .publish .. => Unit
  | .release .. => Unit

abbrev interface : Interface := ⟨Op, Op.Ans⟩

def step : (o : Op) → Registry → o.Ans → Registry → Prop
  | .reserve key, G, a, G' => (a, G') = G.reserve key
  | .lockAcquire state blocking, G, a, G' =>
    if a then (G.objects state).locked = false ∧ G' = G.modify state fun s => { s with locked := true }
    else (blocking ∨ (G.objects state).locked) ∧ G' = G
  | .unreserve key state, G, _, G' => G' = G.unreserve key state
  | .tokenHex, G, a, G' => a ∉ G.drawn ∧ G' = { G with drawn := a :: G.drawn }
  | .publish state token, G, _, G' => G' = G.publish state token
  | .release key token, G, _, G' => G' = G.release key token

def service : Prog.Service interface Registry := ⟨step⟩

def act : (o : Op) → Registry → o.Ans × Registry
  | .reserve key, G => G.reserve key
  | .lockAcquire state _, G =>
    if (G.objects state).locked then (false, G)
    else (true, G.modify state fun s => { s with locked := true })
  | .unreserve key state, G => ((), G.unreserve key state)
  | .tokenHex, G => (Names.fresh G.drawn, { G with drawn := Names.fresh G.drawn :: G.drawn })
  | .publish state token, G => ((), G.publish state token)
  | .release key token, G => ((), G.release key token)

theorem act_step (o : Op) (G : Registry) : step o G (act o G).1 (act o G).2 := by
  cases o with
  | lockAcquire state blocking =>
    cases h : (G.objects state).locked with
    | true => simp [step, act, h]
    | false => simp [step, act, h]
  | tokenHex => exact ⟨Names.fresh_not_mem _, rfl⟩
  | _ => rfl

inductive Timeout
  | finite (seconds : Rat)
  | inf
  | negInf
  | nan

def Timeout.positive : Timeout → Bool
  | finite seconds => seconds > 0
  | inf => true
  | negInf => false
  | nan => false

/-- `threading.TIMEOUT_MAX` does not hold it. -/
def Timeout.exceeds (timeoutMax : Rat) : Timeout → Bool
  | finite seconds => seconds > timeoutMax
  | inf => true
  | negInf => false
  | nan => false

inductive Exn
  | overflowError
deriving DecidableEq

abbrev Call := Prog interface Exn

variable (timeoutMax : Rat)

def perform (o : Op) : Call o.Ans := Prog.perform (I := interface) o

def giveBack (key : Key) (state : Nat) : Call (Option String) := do
  perform (.unreserve key state)
  return none

def handOut (state : Nat) (token : String) : Call (Option String) := do
  perform (.publish state token)
  return some token

def own (state : Nat) : Call (Option String) := do
  let token ← perform .tokenHex
  handOut state token

/-- A primitive lock does not look at itself before its timeout: one that is too large raises. -/
def lockAcquire (state : Nat) (timeout : Timeout) : Call Bool :=
  if timeout.positive then
    if timeout.exceeds timeoutMax then throw .overflowError
    else perform (.lockAcquire state true)
  else perform (.lockAcquire state false)

def attempt (key : Key) (timeout : Timeout) (state : Nat) : Call (Option String) := do
  let acquired ← lockAcquire timeoutMax state timeout
  if !acquired then giveBack key state
  else own state

def acquire (key : Key) (timeout : Timeout) : Call (Option String) := do
  let state ← perform (.reserve key)
  attempt timeoutMax key timeout state

def release (key : Key) (token : String) : Call (Option String) := do
  perform (.release key token)
  return none

inductive Request
  | acquire (key : Key) (timeout : Timeout)
  | release (key : Key) (token : String)

def Request.program : Request → Call (Option String)
  | .acquire key timeout => InProcess.acquire timeoutMax key timeout
  | .release key token => InProcess.release key token

end LangGraphFunctions.Locks.InProcess

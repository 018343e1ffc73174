import LangGraphFunctions.Lib.Dict
import LangGraphFunctions.Lib.Names
import LangGraphFunctions.Lib.Percent
import LangGraphFunctions.Lib.Pool
import Mathlib.Data.Rat.Defs

/-! `AzureBlobLeaseThreadLock`: a lease on a marker blob for each key, renewed in the background. -/

namespace LangGraphFunctions.Locks.AzureBlob

open Lib

abbrev Key := String × String

structure LeaseState where
  lease : Nat
  token : String
  deriving DecidableEq

structure Health where
  consecutiveFailures : Nat
  lost : Bool
  deriving DecidableEq

structure HttpError where
  errorCode : Option String
  statusCode : Option Nat
  deriving DecidableEq

inductive LeaseLossReason
  | released
  | superseded
  | lost
  deriving DecidableEq

inductive Exn
  | closed
  | threadLeaseLost (reason : LeaseLossReason)
  | resourceExists (e : HttpError)
  | http (e : HttpError)
  | timeout
  | other (message : String)
  deriving DecidableEq

def Exn.http? : Exn → Option HttpError
  | .resourceExists e => some e
  | .http e => some e
  | _ => none

def HttpError.isLeaseConflict (e : HttpError) : Bool :=
  e.errorCode.any (fun code => "lease".toList.isPrefixOf code.toLower.toList) ||
    e.statusCode = some 409

def definitiveLeaseLossErrorCodes : List String :=
  ["leaselost", "leaseidmismatchwithleaseoperation", "leasenotpresentwithleaseoperation",
    "leaseidmissing"]

def Exn.isDefinitiveLeaseLoss (e : Exn) : Bool :=
  e.http?.any fun e =>
    e.errorCode.any (fun code => code.toLower ∈ definitiveLeaseLossErrorCodes) ||
      e.statusCode = some 412

def maxConsecutiveRenewalFailures : Nat := 3

structure Lock where
  active : Dict Key LeaseState
  health : Nat → Health
  closed : Bool

inductive Holder
  | here (lease : Nat)
  | elsewhere
  deriving DecidableEq

/-- The leases given to the lock are numbered, and `released` holds those that it has called
`release` of. -/
structure LeaseService where
  live : String → Option Holder
  granted : Nat
  released : List Nat

structure World where
  lock : Lock
  service : LeaseService
  tokens : List String

namespace Lock

def record (L : Lock) (lease : Nat) (f : Health → Health) : Lock :=
  { L with health := Function.update L.health lease (f (L.health lease)) }

def recordRenewSuccess (L : Lock) (key : Key) (state : LeaseState) : Lock :=
  if L.active.get? key = some state then
    L.record state.lease fun h => { h with consecutiveFailures := 0 }
  else L

def handleRenewFailure (L : Lock) (key : Key) (state : LeaseState) (exc : Exn) : Lock :=
  if L.active.get? key = some state then
    L.record state.lease fun h =>
      if exc.isDefinitiveLeaseLoss then { h with lost := true }
      else
        let failures := h.consecutiveFailures + 1
        ⟨failures, h.lost || maxConsecutiveRenewalFailures ≤ failures⟩
  else L

def register (L : Lock) (key : Key) (lease : Nat) (token : String) : Lock :=
  { L with
    active := L.active.set key ⟨lease, token⟩
    health := Function.update L.health lease ⟨0, false⟩ }

def pop (L : Lock) (key : Key) (token : String) : Option LeaseState × Lock :=
  match L.active.get? key with
  | none => (none, L)
  | some state =>
    if state.token ≠ token then (none, L)
    else (some state, { L with active := L.active.erase key })

def snapshot (L : Lock) : List (Key × LeaseState) :=
  L.active.items.filter fun p => !(L.health p.2.lease).lost

end Lock

namespace LeaseService

def release (S : LeaseService) (lease : Nat) (succeeds : Bool) : LeaseService :=
  { S with
    live := if succeeds then fun blob => (S.live blob).filter (· ≠ .here lease) else S.live
    released := lease :: S.released }

def grant (S : LeaseService) (blob : String) : LeaseService :=
  { S with live := Function.update S.live blob (some (.here S.granted)), granted := S.granted + 1 }

end LeaseService

inductive Renewal
  | success
  | failure (exc : Exn)
  | cancelled
  deriving DecidableEq

inductive Op
  | enter (key : Key)
  | uploadMarker (blob : String)
  | monotonic
  | pollClosed
  | acquireLease (blob : String)
  | sleep (seconds : Rat)
  | register (key : Key) (lease : Nat)
  | pop (key : Key) (token : String)
  | lost (lease : Nat)
  | releaseLease (lease : Nat)
  | snapshot
  | renew (lease : Nat)
  | waitRenewals (snapshot : List (Key × LeaseState))
  | recordRenewSuccess (key : Key) (state : LeaseState)
  | handleRenewFailure (key : Key) (state : LeaseState) (exc : Exn)
  | closed
  | setClosed
  | takeAll
  | entry (key : Key)
  | guardToken (token : String)
  | lapse (blob : String)
  | seize (blob : String)
  | stuck

abbrev Op.Ans : Op → Type
  | .enter _ => Except Exn Bool
  | .uploadMarker _ => Except Exn Unit
  | .monotonic => Rat
  | .pollClosed => Bool
  | .acquireLease _ => Except Exn Nat
  | .sleep _ => Unit
  | .register .. => Except Exn (Option String)
  | .pop .. => Option LeaseState
  | .lost _ => Bool
  | .releaseLease _ => Except Exn Unit
  | .snapshot => List (Key × LeaseState)
  | .renew _ => Except Exn Unit
  | .waitRenewals _ => Except Exn (List (Key × LeaseState × Renewal))
  | .recordRenewSuccess .. => Unit
  | .handleRenewFailure .. => Unit
  | .closed => Bool
  | .setClosed => Unit
  | .takeAll => List (Key × LeaseState)
  | .entry _ => Option LeaseState
  | .guardToken _ => Unit
  | .lapse _ => Unit
  | .seize _ => Unit
  | .stuck => Empty

abbrev interface : Interface := ⟨Op, Op.Ans⟩

def registerStep (key : Key) (lease : Nat) (W : World) (a : Except Exn (Option String)) (W' : World) :
    Prop :=
  if (W.lock.active.get? key).isSome then
    a = .ok none ∧ ∃ succeeds, W' = { W with service := W.service.release lease succeeds }
  else if W.lock.closed then
    a = .error .closed ∧ ∃ succeeds, W' = { W with service := W.service.release lease succeeds }
  else ∃ token, a = .ok (some token) ∧ token ∉ W.tokens ∧
    W' = { W with lock := W.lock.register key lease token, tokens := token :: W.tokens }

/-- A lease may run out or be broken whenever it likes (`lapse`), and another host may take a free
blob (`seize`); a token is drawn that occurs nowhere yet. -/
def step : (o : Op) → World → o.Ans → World → Prop
  | .enter key, W, a, W' => W' = W ∧
    a = if W.lock.closed then .error .closed else .ok (W.lock.active.get? key).isSome
  | .uploadMarker _, W, _, W' => W' = W
  | .monotonic, W, _, W' => W' = W
  | .pollClosed, W, a, W' => W' = W ∧ a = W.lock.closed
  | .acquireLease blob, W, .ok lease, W' => W.service.live blob = none ∧
    lease = W.service.granted ∧ W' = { W with service := W.service.grant blob }
  | .acquireLease _, W, .error _, W' => W' = W
  | .sleep _, W, _, W' => W' = W
  | .register key lease, W, a, W' => registerStep key lease W a W'
  | .pop key token, W, a, W' =>
    a = (W.lock.pop key token).1 ∧ W' = { W with lock := (W.lock.pop key token).2 }
  | .lost lease, W, a, W' => W' = W ∧ a = (W.lock.health lease).lost
  | .releaseLease lease, W, .ok _, W' => W' = { W with service := W.service.release lease true }
  | .releaseLease lease, W, .error _, W' => ∃ succeeds,
    W' = { W with service := W.service.release lease succeeds }
  | .snapshot, W, a, W' => W' = W ∧ a = W.lock.snapshot
  | .renew _, W, _, W' => W' = W
  | .waitRenewals snapshot, W, a, W' => W' = W ∧ match a with
    | .ok outcomes => (outcomes.map fun x => (x.1, x.2.1)).Perm snapshot
    | .error _ => True
  | .recordRenewSuccess key state, W, _, W' =>
    W' = { W with lock := W.lock.recordRenewSuccess key state }
  | .handleRenewFailure key state exc, W, _, W' =>
    W' = { W with lock := W.lock.handleRenewFailure key state exc }
  | .closed, W, a, W' => W' = W ∧ a = W.lock.closed
  | .setClosed, W, _, W' => W' = { W with lock := { W.lock with closed := true } }
  | .takeAll, W, a, W' => a = W.lock.active.items ∧
    W' = { W with lock := { W.lock with active := ∅ } }
  | .entry key, W, a, W' => W' = W ∧ a = W.lock.active.get? key
  | .guardToken token, W, _, W' => W' = { W with tokens := token :: W.tokens }
  | .lapse blob, W, _, W' =>
    W' = { W with service := { W.service with live := Function.update W.service.live blob none } }
  | .seize blob, W, _, W' => W.service.live blob = none ∧ W' = { W with service :=
    { W.service with live := Function.update W.service.live blob (some .elsewhere) } }
  | .stuck, _, a, _ => a.elim

def service : Prog.Service interface World := ⟨step⟩

def Op.locking : Op → Bool
  | .register .. => true
  | .pop .. => true
  | .recordRenewSuccess .. => true
  | .handleRenewFailure .. => true
  | .setClosed => true
  | .takeAll => true
  | _ => false

theorem lock_of_step {o : Op} {W W' : World} {a : o.Ans} (h : service.step o W a W')
    (ho : o.locking = false) : W'.lock = W.lock := by
  cases o with
  | acquireLease blob =>
    cases a with
    | ok lease => rw [h.2.2]
    | error e => rw [show W' = W from h]
  | releaseLease lease =>
    cases a with
    | ok _ => rw [show W' = _ from h]
    | error e =>
      obtain ⟨succeeds, rfl⟩ := h
      rfl
  | seize blob => rw [h.2]
  | lapse blob => rw [show W' = _ from h]
  | guardToken token => rw [show W' = _ from h]
  | uploadMarker blob => rw [show W' = W from h]
  | monotonic => rw [show W' = W from h]
  | sleep seconds => rw [show W' = W from h]
  | renew lease => rw [show W' = W from h]
  | stuck => exact a.elim
  | enter key => rw [h.1]
  | pollClosed => rw [h.1]
  | lost lease => rw [h.1]
  | snapshot => rw [h.1]
  | waitRenewals snapshot => rw [h.1]
  | closed => rw [h.1]
  | entry key => rw [h.1]
  | _ => exact nomatch ho

abbrev Call := Prog interface Exn

def perform (o : Op) : Call o.Ans := Prog.perform (I := interface) o

def blobName (blobPrefix : String) (key : Key) : String :=
  blobPrefix ++ Percent.quote key.1 ++ "/" ++ Percent.quote key.2

def ensureMarker (blob : String) : Call Unit := do
  match ← perform (.uploadMarker blob) with
  | .ok () => return
  | .error (.resourceExists _) => return
  | .error (.http e) => if e.isLeaseConflict then return else .raise (.http e)
  | .error e => .raise e

def deadlineOf (timeout : Rat) : Call Rat :=
  if 0 < timeout then (· + timeout) <$> perform .monotonic else return 0

def poll (blob : String) (timeout deadline : Rat) : Nat → Call (Option Nat)
  | 0 => do
    let never ← perform .stuck
    nomatch never
  | rounds + 1 => do
    if ← perform .pollClosed then .raise .closed
    else
      match ← perform (.acquireLease blob) with
      | .ok lease => return some lease
      | .error e =>
        if !(e.http?.any HttpError.isLeaseConflict) then .raise e
        else if timeout ≤ 0 then return none
        else if deadline ≤ (← perform .monotonic) then return none
        else
          let now ← perform .monotonic
          perform (.sleep (min (1 / 2) (max (1 / 20) ((deadline - now) / 2))))
          poll blob timeout deadline rounds

def acquire (blobPrefix : String) (key : Key) (timeout : Rat) (rounds : Nat) :
    Call (Option String) := do
  if ← (perform (.enter key)).bind .ofExcept then return none
  else
    ensureMarker (blobName blobPrefix key)
    let deadline ← deadlineOf timeout
    match ← poll (blobName blobPrefix key) timeout deadline rounds with
    | none => return none
    | some lease => (perform (.register key lease)).bind .ofExcept

/-- What release and close do with an entry that they have taken out: `lease.release()` unless the
lease is lost, and an exception is logged. -/
def giveUp (state : LeaseState) : Call Unit := do
  if ← perform (.lost state.lease) then return
  else
    let _ ← perform (.releaseLease state.lease)
    return

def release (key : Key) (token : String) : Call Unit := do
  match ← perform (.pop key token) with
  | none => return
  | some state => giveUp state

def recordRenewal (key : Key) (state : LeaseState) : Renewal → Call Unit
  | .success => perform (.recordRenewSuccess key state)
  | .failure exc => perform (.handleRenewFailure key state exc)
  | .cancelled => .raise (.other "CancelledError")

/-- `_renew_all_once`; there is a pool of renewal workers where `autoRenew` holds. -/
def renewAllOnce (autoRenew : Bool) : Call Unit := do
  let snapshot ← perform .snapshot
  if autoRenew && !snapshot.isEmpty then
    let outcomes ← (perform (.waitRenewals snapshot)).bind .ofExcept
    outcomes.forM fun x => recordRenewal x.1 x.2.1 x.2.2
  else
    snapshot.forM fun x => do
      match ← perform (.renew x.2.lease) with
      | .ok () => recordRenewal x.1 x.2 .success
      | .error exc => recordRenewal x.1 x.2 (.failure exc)

def close : Call Unit := do
  if ← perform .closed then return
  else
    perform .setClosed
    let remaining ← perform .takeAll
    remaining.forM fun x => giveUp x.2

/-- `_ownership_problem`, which takes no mutex. -/
def ownershipProblem (key : Key) (token : String) : Call (Option LeaseLossReason) := do
  if ← perform .closed then return some .released
  else
    match ← perform (.entry key) with
    | none => return some .released
    | some state =>
      if state.token ≠ token then return some .superseded
      else if ← perform (.lost state.lease) then return some .lost
      else return none

def check (key : Key) (token : String) : Call Unit := do
  match ← ownershipProblem key token with
  | none => return
  | some reason => .raise (.threadLeaseLost reason)

inductive Request
  | acquire (key : Key) (timeout : Rat) (rounds : Nat)
  | release (key : Key) (token : String)
  | renewAllOnce (autoRenew : Bool)
  | close
  | ownershipGuard (key : Key) (token : String)
  | check (key : Key) (token : String)
  | lapse (blob : String)
  | seize (blob : String)
  deriving DecidableEq

def Request.program (blobPrefix : String) : Request → Call (Option String)
  | .acquire key timeout rounds => AzureBlob.acquire blobPrefix key timeout rounds
  | .release key token => (fun _ => none) <$> AzureBlob.release key token
  | .renewAllOnce autoRenew => (fun _ => none) <$> AzureBlob.renewAllOnce autoRenew
  | .close => (fun _ => none) <$> AzureBlob.close
  | .ownershipGuard _ token => (fun _ => none) <$> perform (.guardToken token)
  | .check key token => (fun _ => none) <$> AzureBlob.check key token
  | .lapse blob => (fun _ => none) <$> perform (.lapse blob)
  | .seize blob => (fun _ => none) <$> perform (.seize blob)

end LangGraphFunctions.Locks.AzureBlob

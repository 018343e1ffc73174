import LangGraphFunctions.Lib.Tasks
import LangGraphFunctions.Lib.Transcript
import LangGraphFunctions.Platform.Config

/-! What the handlers of runs ask of their surroundings: the graph, the thread lock and the
observer. -/

namespace LangGraphFunctions

open Lib

inductive Endpoint
  | invoke
  | stream
  deriving DecidableEq

structure RunContext where
  graphName : String
  endpoint : Endpoint
  runId : String
  threadId : Json.Value
  assistantId : Json.Value
  invocationId : Option String
  streamMode : Option String
  hasCheckpointer : Bool
  lockBackend : String
  triggerType : Option String

inductive RunRejectedReason
  | invalidRequest
  | invalidConfig
  | unsupportedVersion
  | streamingUnsupported
  | lockContention
  | authorizationDenied
  deriving DecidableEq

inductive RunEvent
  | started (ctx : RunContext)
  | completed (ctx : RunContext)
  | failed (ctx : RunContext) (exc : Raised Exn)
  | rejected (ctx : RunContext) (reason : RunRejectedReason)

/-- An object a graph returns: what the encoder makes of it, and which ways of dumping it has. -/
structure GraphOutput where
  value : Json.Value
  hasModelDump : Bool
  isDataclass : Bool

variable {γ : Type}

structure GraphCall (γ : Type) where
  graphName : String
  input : Json.Value
  config : Option (Platform.RunConfig γ)
  streamMode : Option String
  version : Option String

inductive Awaited
  | unauthenticated
  | returned (truth : Except (Raised Exn) Bool)
  | raised (exc : Raised Exn)

/-- What an authorizer returns. What comes of an awaitable may depend on the event loop: `alone` in
one that runs nothing else, `within` in the handler's. -/
inductive Permission
  | bool (allowed : Bool)
  | object (truth : Except (Raised Exn) Bool)
  | awaitable (alone within : Awaited)

inductive Verdict
  | returned (permission : Permission)
  | unauthenticated

namespace Host

abbrev Result (α : Type) := Except (Raised Exn) α

inductive Op (γ : Type)
  | uuid4
  | observe (event : RunEvent)
  | authorize (graphName : String) (threadId : Option String)
  | acquire (graphName : String) (threadId : Json.Value) (timeout : Rat)
  | release (graphName : String) (threadId : Json.Value) (token : String)
  | ownershipGuard (graphName : String) (threadId : Json.Value) (token : String)
  | check (guard : γ)
  | invoke (call : GraphCall γ)
  | stream (call : GraphCall γ)
  | next
  | close
  | dumps (value : Json.Value)
  | modelDump (result : GraphOutput)
  | asdict (result : GraphOutput)
  | str (result : GraphOutput)
  | inputMapper
  | threadIdFactory
  | resultHandler (result : GraphOutput)
  | stuck

abbrev Op.Ans : Op γ → Type
  | .uuid4 => String
  | .observe _ => Unit
  | .authorize .. => Result Verdict
  | .acquire .. => Result (Option String)
  | .release .. => Result Unit
  | .ownershipGuard .. => Result (Option γ)
  | .check _ => Result Unit
  | .invoke _ => Result GraphOutput
  | .stream _ => Result Unit
  | .next => Result (Option Json.Value)
  | .close => Result Unit
  | .dumps _ => Result String
  | .modelDump _ => Result Json.Value
  | .asdict _ => Result Json.Value
  | .str _ => Result String
  | .inputMapper => Result Json.Value
  | .threadIdFactory => Result (Option String)
  | .resultHandler _ => Result Unit
  | .stuck => Empty

abbrev interface (γ : Type) : Interface := ⟨Op γ, Op.Ans⟩

def Answers : (o : Op γ) → o.Ans → Prop
  | .dumps value, .ok text => LangGraphFunctions.dumps value false = .ok text
  | _, _ => True

end Host

abbrev Host (γ : Type) := Prog (Host.interface γ) (Raised Exn)

namespace Host

variable {α β : Type}

def perform (o : Op γ) : Host γ o.Ans := Prog.perform (I := interface γ) o

def observe (event : RunEvent) : Host γ Unit := perform (.observe event)

def acquire (graphName : String) (threadId : Json.Value) (timeout : Rat) :
    Host γ (Option String) :=
  (perform (.acquire graphName threadId timeout)).bind .ofExcept

def release (graphName : String) (threadId : Json.Value) (token : String) : Host γ Unit :=
  (perform (.release graphName threadId token)).bind .ofExcept

def invoke (call : GraphCall γ) : Host γ GraphOutput := (perform (.invoke call)).bind .ofExcept

def dumps (value : Json.Value) : Host γ String := (perform (.dumps value)).bind .ofExcept

/-- `try: p except Exception as exc: h(exc)`. -/
def exceptException (p : Host γ α) (h : Exn → Host γ α) : Host γ α :=
  p.handle fun e => match e with
    | .exception exc => h exc
    | e => .raise e

def newRunContext (ctx : RunContext) : Host γ RunContext :=
  if ctx.runId = "" then do
    let runId ← perform .uuid4
    return { ctx with runId := runId }
  else return ctx

def ownershipGuardFor (graphName : String) (threadId : Option Json.Value) (token : Option String) :
    Host γ (Option γ) :=
  match threadId, token with
  | some threadId, some token =>
    if token = "" then return none
    else (perform (.ownershipGuard graphName threadId token)).bind .ofExcept
  | _, _ => return none

def configWithOwnershipGuard (config : Option (Platform.RunConfig γ)) (guard : Option γ) :
    Option (Platform.RunConfig γ) :=
  match config with
  | some config => some (Platform.configWithOwnershipGuard config guard)
  | none => guard.map fun guard => Platform.configWithOwnershipGuard ∅ (some guard)

def guardRunConfig (graphName : String) (threadId : Option Json.Value) (token : Option String)
    (config : Option (Platform.RunConfig γ)) :
    Host γ (Option (Platform.RunConfig γ) × Option γ) := do
  let guard ← ownershipGuardFor graphName threadId token
  return (configWithOwnershipGuard config guard, guard)

def checkOwnershipGuard : Option γ → Host γ Unit
  | none => return
  | some guard => (perform (.check guard)).bind .ofExcept

/-- `async with async_thread_lock(...) as token: body`. -/
def asyncThreadLock (graphName : String) (threadId : Option Json.Value) (timeout : Rat)
    (body : Option String → Host γ α) : Host γ α :=
  match threadId with
  | none => body none
  | some threadId => do
    let token ← acquire graphName threadId timeout
    (body token).andFinally (match token with
      | some token => release graphName threadId token
      | none => return)

end Host

end LangGraphFunctions

import LangGraphFunctions.Host
import LangGraphFunctions.Validation

/-! Requests to the native endpoints, the checks made on them, and the responses. -/

namespace LangGraphFunctions.Native

open Lib Platform Validation

variable {γ : Type}

/-- What the handlers read of a request; `json` is missing where `get_json` raises. -/
structure HttpRequest where
  requestIdHeader : Option String
  bodySize : Nat
  json : Option Json.Value

structure HttpResponse where
  statusCode : Nat
  mimetype : String
  headers : List (String × String)
  body : String

structure RunRequest where
  input : JsonObject
  config : Option JsonObject
  version : Option String
  streamMode : String

abbrev Model := Json.Value → Except Json.Value RunRequest

structure Limits where
  maxRequestBodyBytes : Nat
  maxInputDepth : Nat
  maxInputNodes : Nat
  maxStreamResponseBytes : Nat

inductive Method
  | invoke
  | ainvoke
  | stream
  | astream
  deriving DecidableEq

structure Registration where
  name : String
  hasCheckpointer : Bool
  isCheckpointSaver : Bool
  streamEnabled : Bool
  isStreamable : Bool
  isAsyncStreamable : Bool
  allowedConfigurableKeys : List String
  acceptsVersion : Method → Bool

def jsonText (style : Json.Style) (value : Json.Value) : String :=
  match Json.dumps style true value with
  | .ok text => text
  | .error _ => ""

structure ErrorResponse where
  statusCode : Nat
  detail : Json.Value
  requestId : Option String

namespace ErrorResponse

def toValue (response : ErrorResponse) : Json.Value :=
  .dict [(.str "error", .str "error"), (.str "detail", response.detail),
    (.str "request_id", match response.requestId with
      | some requestId => .str requestId
      | none => .null)]

def headers (response : ErrorResponse) : List (String × String) :=
  match response.requestId with
  | some requestId => [("X-Request-ID", requestId)]
  | none => []

end ErrorResponse

def errorResponse (response : ErrorResponse) : HttpResponse :=
  ⟨response.statusCode, "application/json", response.headers, jsonText .compact response.toValue⟩

def reject (ctx : RunContext) (reason : RunRejectedReason) (response : ErrorResponse) :
    Host γ HttpResponse := do
  Host.observe (.rejected ctx reason)
  let response := { response with requestId := some ctx.runId }
  return ⟨response.statusCode, "application/json", response.headers, jsonText .spaced response.toValue⟩

def isRequestIdChar (c : Char) : Bool := isAsciiLetter c || c.isDigit || c == '.' || c == '_' || c == '-'

def isRequestId (s : String) : Bool :=
  0 < s.length && s.length ≤ 64 && s.toList.all isRequestIdChar

def requestIdFromHeaders (req : HttpRequest) : Host γ String :=
  match req.requestIdHeader with
  | some candidate => if isRequestId candidate then return candidate else Host.perform .uuid4
  | none => Host.perform .uuid4

def message (statusCode : Nat) (detail : String) : ErrorResponse := ⟨statusCode, .str detail, none⟩

def checkStructure (limits : Limits) (data : JsonObject) : Except ErrorResponse Unit :=
  match validateInputStructure data.toValue limits.maxInputDepth limits.maxInputNodes with
  | some err => .error (message 400 err)
  | none => .ok ()

def parseNativeRequest (model : Model) (limits : Limits) (allowedConfigurableKeys : List String)
    (req : HttpRequest) : Except ErrorResponse RunRequest :=
  match validateBodySize req.bodySize limits.maxRequestBodyBytes with
  | some err => .error (message 413 err)
  | none =>
    match req.json with
    | none => .error (message 400 "Invalid JSON body")
    | some body =>
      match model body with
      | .error details => .error ⟨422, details, none⟩
      | .ok request => do
        checkStructure limits request.input
        match request.config with
        | none => return request
        | some config =>
          if config.items.isEmpty then return request
          else
            checkStructure limits config
            match validateNativeConfig config allowedConfigurableKeys with
            | some err => .error (message 400 err)
            | none => return request

def extractThreadId (config : JsonObject) : Except String (Option String) :=
  match config.get? configurableKey with
  | none => .ok none
  | some .null => .ok none
  | some (.dict items) =>
    match (Dict.ofList items).get? threadIdKey with
    | none => .ok none
    | some .null => .ok none
    | some (.str threadId) =>
      match validateThreadId threadId with
      | some err => .error err
      | none => .ok (some threadId)
    | some _ => .error "config.configurable.thread_id must be a string"
  | some _ => .error "config.configurable must be an object"

def validatedRunThread (reg : Registration) (config : JsonObject) :
    Except String (Option String) := do
  let threadId ← extractThreadId config
  if reg.isCheckpointSaver && threadId.isNone then
    .error "config.configurable.thread_id is required for checkpointed graphs"
  else return threadId

/-- `None if allowed else 403`. -/
def allowedStatus (truth : Host.Result Bool) : Host.Result (Option Nat) :=
  truth.map fun allowed => if allowed then none else some 403

def awaitedStatus : Awaited → Host.Result (Option Nat)
  | .unauthenticated => .ok (some 401)
  | .returned truth => allowedStatus truth
  | .raised exc => .error exc

def notAwaitable : Raised Exn := .exception (.typeError "object can't be used in 'await' expression")

/-- Whatever is not a `bool` is awaited in an event loop of its own. -/
def authorizationStatus : Host.Result Verdict → Host.Result (Option Nat)
  | .ok (.returned (.bool allowed)) => allowedStatus (.ok allowed)
  | .ok (.returned (.object _)) => .error notAwaitable
  | .ok (.returned (.awaitable alone _)) => awaitedStatus alone
  | .ok .unauthenticated => .ok (some 401)
  | .error exc => .error exc

def authorizationStatusAsync : Host.Result Verdict → Host.Result (Option Nat)
  | .ok (.returned (.bool allowed)) => allowedStatus (.ok allowed)
  | .ok (.returned (.object truth)) => allowedStatus truth
  | .ok (.returned (.awaitable _ within)) => awaitedStatus within
  | .ok .unauthenticated => .ok (some 401)
  | .error exc => .error exc

/-- `except Exception: return 500`. -/
def failClosed : Host.Result (Option Nat) → Host.Result (Option Nat)
  | .error (.exception _) => .ok (some 500)
  | status => status

def askAuthorizer (status : Host.Result Verdict → Host.Result (Option Nat)) (authorize : Bool)
    (reg : Registration) (threadId : Option String) : Host γ (Option Nat) :=
  if authorize then do
    let answer ← Host.perform (.authorize reg.name threadId)
    .ofExcept (failClosed (status answer))
  else return none

def nativeAuthorizationStatus (authorize : Bool) (reg : Registration) (threadId : Option String) :
    Host γ (Option Nat) :=
  askAuthorizer authorizationStatus authorize reg threadId

def nativeAuthorizationStatusAsync (authorize : Bool) (reg : Registration)
    (threadId : Option String) : Host γ (Option Nat) :=
  askAuthorizer authorizationStatusAsync authorize reg threadId

def Method.authorizationStatus : Method → Bool → Registration → Option String → Host γ (Option Nat)
  | .invoke => nativeAuthorizationStatus
  | .stream => nativeAuthorizationStatus
  | .ainvoke => nativeAuthorizationStatusAsync
  | .astream => nativeAuthorizationStatusAsync

def resolveVersionKwarg (reg : Registration) (method : Method) (version : Option String) :
    Except ErrorResponse (Option String) :=
  match version with
  | none => .ok none
  | some version =>
    if reg.acceptsVersion method then .ok (some version)
    else .error (message 422
      s!"Graph {reprStr reg.name} does not accept a 'version' argument (requires langgraph>=1.1)")

def lockContention (threadId : Option String) : ErrorResponse :=
  message 409 s!"Thread {reprOptional threadId} is currently in use by another request"

def newContext (reg : Registration) (endpoint : Endpoint) (lockBackend runId : String) :
    RunContext where
  graphName := reg.name
  endpoint := endpoint
  runId := runId
  threadId := .null
  assistantId := .null
  invocationId := none
  streamMode := none
  hasCheckpointer := reg.hasCheckpointer
  lockBackend := lockBackend
  triggerType := none

def idValue : Option String → Json.Value
  | some threadId => .str threadId
  | none => .null

end LangGraphFunctions.Native

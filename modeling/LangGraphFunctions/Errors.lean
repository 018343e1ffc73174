import LangGraphFunctions.Lib.EtagTable
import LangGraphFunctions.Lib.Json

namespace LangGraphFunctions

open Lib

def apostrophe : Char := Char.ofNat 39

/-- The controls, formats, separators and private characters; a code point without a character
counts as printable. -/
def unprintable : List (Nat × Nat) :=
  [(0x0, 0x1f), (0x7f, 0xa0), (0xad, 0xad), (0x600, 0x605), (0x61c, 0x61c), (0x6dd, 0x6dd),
    (0x70f, 0x70f), (0x890, 0x891), (0x8e2, 0x8e2), (0x1680, 0x1680), (0x180e, 0x180e),
    (0x2000, 0x200f), (0x2028, 0x202f), (0x205f, 0x2064), (0x2066, 0x206f), (0x3000, 0x3000),
    (0xe000, 0xf8ff), (0xfeff, 0xfeff), (0xfff9, 0xfffb), (0x110bd, 0x110bd), (0x110cd, 0x110cd),
    (0x13430, 0x13438), (0x1bca0, 0x1bca3), (0x1d173, 0x1d17a), (0xe0001, 0xe0001),
    (0xe0020, 0xe007f), (0xf0000, 0xffffd), (0x100000, 0x10fffd)]

def isPrintable (c : Char) : Bool :=
  !unprintable.any fun range => range.1 ≤ c.toNat && c.toNat ≤ range.2

def hexDigits : Nat → Nat → List Char
  | 0, _ => []
  | width + 1, n => hexDigits width (n / 16) ++ [Nat.digitChar (n % 16)]

def reprChar (quote c : Char) : String :=
  if c = quote || c = '\\' then String.ofList ['\\', c]
  else if c = '\n' then "\\n"
  else if c = '\r' then "\\r"
  else if c = '\t' then "\\t"
  else if isPrintable c then String.ofList [c]
  else if c.toNat < 0x100 then "\\x" ++ String.ofList (hexDigits 2 c.toNat)
  else if c.toNat < 0x10000 then "\\u" ++ String.ofList (hexDigits 4 c.toNat)
  else "\\U" ++ String.ofList (hexDigits 8 c.toNat)

def reprStr (s : String) : String :=
  let quote := if s.toList.contains apostrophe && !s.toList.contains '"' then '"' else apostrophe
  let body := String.join (s.toList.map (reprChar quote))
  String.ofList [quote] ++ body ++ String.ofList [quote]

def reprOptional : Option String → String
  | none => "None"
  | some s => reprStr s

inductive Exn
  | valueError (message : String)
  | tableStorageLimitError (dimension : String) (size limit : Nat)
  | typeError (message : String)
  | keyError (key : String)
  | attributeError (name : String)
  | runLockReleaseError (threadId : String)
  | runLockRenewalError
  | runLockRenewalStopTimeoutError
  | threadLeaseLostError (reason : String)
  | notFoundError
  | modifiedError
  | existsError
  | other (message : String)
  | runtimeError (message : String)
  | threadContentionError (message : String)
  | outputSerializationError
  | user (typeName : String) (text : Option String)
  deriving DecidableEq

/-- `TableStorageLimitError` and `_OutputSerializationError` are declared as `ValueError`s. -/
def Exn.isValueError : Exn → Bool
  | .valueError _ => true
  | .tableStorageLimitError .. => true
  | .outputSerializationError => true
  | _ => false

def Exn.isKeyError : Exn → Bool
  | .keyError _ => true
  | _ => false

def Exn.typeName : Exn → String
  | .valueError _ => "ValueError"
  | .tableStorageLimitError .. => "TableStorageLimitError"
  | .typeError _ => "TypeError"
  | .keyError _ => "KeyError"
  | .attributeError _ => "AttributeError"
  | .runLockReleaseError _ => "RunLockReleaseError"
  | .runLockRenewalError => "RunLockRenewalError"
  | .runLockRenewalStopTimeoutError => "RunLockRenewalStopTimeoutError"
  | .threadLeaseLostError _ => "ThreadLeaseLostError"
  | .notFoundError => "ResourceNotFoundError"
  | .modifiedError => "ResourceModifiedError"
  | .existsError => "ResourceExistsError"
  | .other _ => "Exception"
  | .runtimeError _ => "RuntimeError"
  | .threadContentionError _ => "ThreadContentionError"
  | .outputSerializationError => "_OutputSerializationError"
  | .user typeName _ => typeName

def locallyDetected : String :=
  "This reports a locally detected condition: it is not proof that a stale write " ++
    "occurred, and it does not mean that earlier checkpoint writes were rolled back."

def leaseLossMessage (reason : String) : String :=
  if reason = "lost" then s!"Thread lock ownership was detected as lost. {locallyDetected}"
  else if reason = "released" then
    s!"Thread lock ownership was already released, or the lock was closed. {locallyDetected}"
  else if reason = "superseded" then
    s!"Thread lock ownership now belongs to a newer execution. {locallyDetected}"
  else "The checkpoint saver requires a thread lock ownership guard but this write " ++
    "carried none, so it was rejected."

def Exn.str : Exn → Except Exn String
  | .valueError message => .ok message
  | .tableStorageLimitError dimension size limit =>
    .ok s!"Azure Table {dimension} size {size} exceeds limit {limit}; reduce thread data or use a custom ThreadStore backed by Blob storage."
  | .typeError message => .ok message
  | .keyError key => .ok (reprStr key)
  | .attributeError name => .ok name
  | .runLockReleaseError threadId =>
    .ok s!"Run-lock release exhausted CAS attempts for thread {threadId}"
  | .runLockRenewalError => .ok ""
  | .runLockRenewalStopTimeoutError => .ok ""
  | .threadLeaseLostError reason => .ok (leaseLossMessage reason)
  | .notFoundError => .ok ""
  | .modifiedError => .ok ""
  | .existsError => .ok ""
  | .other message => .ok message
  | .runtimeError message => .ok message
  | .threadContentionError message => .ok message
  | .outputSerializationError => .ok "Graph output could not be serialized as JSON"
  | .user _ (some text) => .ok text
  | .user typeName none => .error (.user typeName none)

def Exn.ofFailure : EtagTable.Failure → Exn
  | .notFound => .notFoundError
  | .modified => .modifiedError
  | .exists => .existsError
  | .other message => .other message

def Exn.ofJson : Json.Error → Exn
  | .value message => .valueError message
  | .type message => .typeError message
  | .hook message => .other message

/-- `json.dumps(value, default=_default, allow_nan=allow_nan)`. -/
def dumps (value : Json.Value) (allowNan : Bool) : Except Exn String :=
  (Json.dumps .spaced allowNan value).mapError Exn.ofJson

/-- `json.loads`; a `JSONDecodeError` is a `ValueError`. -/
def loads (text : String) : Except Exn Json.Value :=
  match Json.loads text with
  | some v => .ok v
  | none => .error (.valueError "JSONDecodeError")

end LangGraphFunctions

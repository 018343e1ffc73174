import LangGraphFunctions.Platform.Contracts

/-! Input validation: each check returns an error message, or none. -/

namespace LangGraphFunctions.Validation

open Lib Platform

def isAsciiLetter (c : Char) : Bool := ('a' ≤ c && c ≤ 'z') || ('A' ≤ c && c ≤ 'Z')

def isNameChar (c : Char) : Bool := isAsciiLetter c || c.isDigit || c == '_' || c == '-'

/-- Where `$` matches: at the end, and before a line break that ends the text. -/
def matchEnds (cs : List Char) : List (List Char) :=
  if cs.getLast? = some '\n' then [cs, cs.dropLast] else [cs]

/-- `^[a-zA-Z][a-zA-Z0-9_-]{0,63}$`. -/
def matchesGraphName (cs : List Char) : Bool :=
  (matchEnds cs).any fun cs =>
    match cs with
    | [] => false
    | c :: rest => isAsciiLetter c && rest.all isNameChar && rest.length ≤ 63

def validateGraphName (name : String) : Option String :=
  if name = "" then some "Graph name must not be empty"
  else if matchesGraphName name.toList then none
  else some s!"Invalid graph name {reprStr name}. Must start with a letter, contain only letters, digits, underscores or hyphens, and be 1–64 characters."

def maxThreadIdLength : Nat := 256

def isPrintable (c : Char) : Bool := 0x20 ≤ c.toNat && c.toNat ≤ 0x7e

/-- `^[\x20-\x7e]+$`. -/
def matchesPrintable (cs : List Char) : Bool :=
  (matchEnds cs).any fun cs => !cs.isEmpty && cs.all isPrintable

def validateThreadId (threadId : String) : Option String :=
  if threadId = "" then some "Thread ID must not be empty"
  else if maxThreadIdLength < threadId.length then
    some s!"Thread ID exceeds maximum length of {maxThreadIdLength} characters"
  else if matchesPrintable threadId.toList then none
  else some "Thread ID must contain only printable ASCII characters"

def validateBodySize (size maxBytes : Nat) : Option String :=
  if maxBytes < size then some s!"Request body too large: {size} bytes (max {maxBytes} bytes)"
  else none

def tooDeep (maxDepth : Nat) : String := s!"Input exceeds maximum nesting depth of {maxDepth}"
def tooMany (maxNodes : Nat) : String := s!"Input exceeds maximum node count of {maxNodes}"

mutual

def countDepthAndNodes (maxDepth maxNodes : Nat) : Json.Value → Nat → Nat → Nat × Option String
  | data, depth, count =>
    if maxDepth < depth then (count, some (tooDeep maxDepth))
    else if maxNodes < count then (count, some (tooMany maxNodes))
    else
      match data with
      | .dict items => countMembers maxDepth maxNodes items depth count
      | .list xs => countElems maxDepth maxNodes xs depth count
      | _ => (count, none)

def countElems (maxDepth maxNodes : Nat) : List Json.Value → Nat → Nat → Nat × Option String
  | [], _, count => (count, none)
  | v :: vs, depth, count =>
    if maxNodes < count + 1 then (count + 1, some (tooMany maxNodes))
    else
      match countDepthAndNodes maxDepth maxNodes v (depth + 1) (count + 1) with
      | (count, some err) => (count, some err)
      | (count, none) => countElems maxDepth maxNodes vs depth count

def countMembers (maxDepth maxNodes : Nat) :
    List (Json.Key × Json.Value) → Nat → Nat → Nat × Option String
  | [], _, count => (count, none)
  | (_, v) :: items, depth, count =>
    if maxNodes < count + 1 then (count + 1, some (tooMany maxNodes))
    else
      match countDepthAndNodes maxDepth maxNodes v (depth + 1) (count + 1) with
      | (count, some err) => (count, some err)
      | (count, none) => countMembers maxDepth maxNodes items depth count

end

def validateInputStructure (data : Json.Value) (maxDepth maxNodes : Nat) : Option String :=
  match data with
  | .dict _ => (countDepthAndNodes maxDepth maxNodes data 1 0).2
  | .list _ => (countDepthAndNodes maxDepth maxNodes data 1 0).2
  | _ => none

def startsWithDunder : Json.Key → Bool
  | .str s => "__".toList.isPrefixOf s.toList
  | _ => false

def validateNativeConfig (config : JsonObject) (allowedConfigurableKeys : List String) :
    Option String :=
  if config.keys.any fun key => key != .str "configurable" then
    some "Only config.configurable is client configurable"
  else
    match config.get? (.str "configurable") with
    | some (.dict items) =>
      if items.any fun p => startsWithDunder p.1 then
        some "Internal configurable keys are not permitted"
      else if items.any fun p =>
          p.1 != .str "thread_id" && !(allowedConfigurableKeys.any fun key => p.1 == .str key) then
        some "Unapproved config.configurable field"
      else none
    | _ => none

end LangGraphFunctions.Validation

import LangGraphFunctions.Errors
import LangGraphFunctions.Lib.Names

/-! JSON kept in table properties, and the capacity check made before a write. -/

namespace LangGraphFunctions.Stores

open Lib

instance (priority := 1100) decEqByteArray : DecidableEq ByteArray := ByteArray.instDecidableEq

inductive Property
  | str (s : String)
  | int (n : Int)
  | bool (b : Bool)
  | float (x : Json.Float)
  | datetime (t : Int)
  | bytes (b : ByteArray)
  | none
  | other (typeName : String)
  deriving DecidableEq

abbrev Entity := EtagTable.Entity Property

def propertyBytes : Nat := 64 * 1024
def entityBytes : Nat := 1024 * 1024
def chunkCharacters : Nat := propertyBytes / 2

/-- `len(s.encode("utf-16-le"))`. -/
def utf16Size (s : String) : Nat :=
  (s.toList.map fun c => if c.toNat < 0x10000 then 2 else 4).sum

def partKey (field part : String) : String := field ++ ("_" ++ part)

/-- The keys `write_json` clears before it writes `field`. -/
def ownsKey (field key : String) : Bool := key == field || Names.startswith key (field ++ "_")

def chunks (n : Nat) (cs : List Char) : List String :=
  (List.range ((cs.length + n - 1) / n)).map fun i => String.ofList ((cs.drop (i * n)).take n)

def jsonProperties (field encoded : String) : List (String × Property) :=
  if utf16Size encoded ≤ propertyBytes then [(field, .str encoded)]
  else
    let parts := chunks chunkCharacters encoded.toList
    (partKey field "format", .str "utf16-v1") :: (partKey field "count", .int parts.length) ::
      parts.mapIdx fun i part => (partKey field (toString i), .str part)

def writeText (entity : Entity) (field encoded : String) : Entity :=
  (jsonProperties field encoded).foldl (fun e p => e.set p.1 p.2)
    (entity.filterKeys fun key => !ownsKey field key)

def writeJson (entity : Entity) (field : String) (value : Json.Value) : Except Exn Entity := do
  let encoded ← dumps value false
  return writeText entity field encoded

/-- `if value is not None: write_json(entity, field, value)`. -/
def writeOptionalJson (entity : Entity) (field : String) :
    Option Json.Value → Except Exn Entity
  | none => .ok entity
  | some value => writeJson entity field value

def joinChunks (entity : Entity) (field : String) (count : Nat) : Except Exn String := do
  let items ← (List.range count).mapM fun i =>
    match entity.get? (partKey field (toString i)) with
    | some item => .ok item
    | none => .error (.keyError (partKey field (toString i)))
  let parts ← items.mapM fun item =>
    match item with
    | .str part => .ok part
    | _ => .error (.typeError "sequence item: expected str instance")
  return String.join parts

def chunkCount (entity : Entity) (field : String) : Except Exn Nat :=
  match entity.get? (partKey field "count") with
  | none => .error (.keyError (partKey field "count"))
  | some (.int n) =>
    if 1 ≤ n ∧ n ≤ 252 then .ok n.toNat
    else .error (.valueError s!"Invalid Azure Table JSON chunk count for {field}")
  | some (.bool true) => .ok 1
  | some _ => .error (.valueError s!"Invalid Azure Table JSON chunk count for {field}")

def byteOrderMark : List UInt8 := [0xef, 0xbb, 0xbf]

/-- The text that `json.loads` finds in bytes: UTF-8, with a byte order mark or without. -/
def decodeBytes (b : ByteArray) : Except Exn String :=
  let body := if byteOrderMark.isPrefixOf b.toList then b.extract 3 b.size else b
  match String.fromUTF8? body with
  | some s => .ok s
  | none => .error (.valueError "invalid utf-8")

def readText (entity : Entity) (field : String) : Except Exn (Option String) :=
  match entity.get? (partKey field "format") with
  | some format =>
    if format = .str "utf16-v1" then do
      let count ← chunkCount entity field
      return some (← joinChunks entity field count)
    else .error (.valueError s!"Unsupported Azure Table JSON format for {field}")
  | none =>
    match entity.get? field with
    | none => .ok none
    | some .none => .ok none
    | some (.str legacy) => .ok (some legacy)
    | some (.bytes legacy) => (decodeBytes legacy).map some
    | some _ => .error (.typeError "the JSON object must be str, bytes or bytearray")

def readJson (entity : Entity) (field : String) (default : Json.Value) :
    Except Exn Json.Value := do
  match ← readText entity field with
  | none => return default
  | some text => loads text

def valueSize : Property → Except Exn Nat
  | .str s =>
    if utf16Size s > propertyBytes then
      .error (.tableStorageLimitError "string property" (utf16Size s) propertyBytes)
    else .ok (utf16Size s)
  | .bytes b =>
    if b.size > propertyBytes then
      .error (.tableStorageLimitError "binary property" b.size propertyBytes)
    else .ok b.size
  | .bool _ => .ok 16
  | .int _ => .ok 16
  | .float _ => .ok 16
  | .datetime _ => .ok 16
  | .none => .ok 0
  | .other typeName => .error (.typeError s!"Unsupported Azure Table property type: {typeName}")

def isCounted (p : String × Property) : Bool :=
  !(p.1 == "etag" || p.1 == "Timestamp" || p.2 == .none)

def measure (acc : Nat × Nat) (p : String × Property) : Except Exn (Nat × Nat) := do
  if isCounted p then
    let valueSize ← valueSize p.2
    return (acc.1 + utf16Size p.1 + 32 + valueSize, acc.2 + 1)
  else return acc

def validateEntity (entity : Entity) : Except Exn Unit := do
  -- room is kept for the timestamp, the service's own overhead and the run-lock properties
  let (size, properties) ← entity.items.foldlM measure (4096, 1)
  if properties > 255 then throw (.tableStorageLimitError "property count" properties 255)
  if size > entityBytes then throw (.tableStorageLimitError "entity" size entityBytes)

end LangGraphFunctions.Stores

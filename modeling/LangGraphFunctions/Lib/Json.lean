import LangGraphFunctions.Lib.Dict
import LangGraphFunctions.Lib.Doubles

/-! JSON text: the encoder over the values of a dynamic language, and the decoder. -/

namespace LangGraphFunctions.Lib.Json

/-- A double: a finite one is the shortest text that reads back as it. -/
inductive Float
  | finite (repr : String)
  | nan
  | inf
  | negInf
  deriving DecidableEq, Repr

inductive Key
  | str (s : String)
  | int (n : Int)
  | float (x : Float)
  | bool (b : Bool)
  | null
  | other
  deriving DecidableEq, Repr

/-- `object v` is handed to the encoder's hook, which makes `v` of it; for `failing` the hook
raises. -/
inductive Value
  | null
  | bool (b : Bool)
  | int (n : Int)
  | float (x : Float)
  | str (s : String)
  | list (xs : List Value)
  | dict (items : List (Key × Value))
  | object (rendered : Value)
  | failing (message : String)
  deriving Inhabited

inductive Error
  | value (message : String)
  | type (message : String)
  | hook (message : String)
  deriving DecidableEq, Repr

inductive Style
  | spaced
  | compact

def Style.pad : Style → List Char
  | .spaced => [' ']
  | .compact => []

def hex4 (n : Nat) : List Char :=
  [(n / 4096 % 16).digitChar, (n / 256 % 16).digitChar, (n / 16 % 16).digitChar,
    (n % 16).digitChar]

def unicodeEscape (n : Nat) : List Char := '\\' :: 'u' :: hex4 n

def escapeChar (c : Char) : List Char :=
  if c = '"' then ['\\', '"']
  else if c = '\\' then ['\\', '\\']
  else if c = '\n' then ['\\', 'n']
  else if c = '\r' then ['\\', 'r']
  else if c = '\t' then ['\\', 't']
  else if c = '\x08' then ['\\', 'b']
  else if c = '\x0c' then ['\\', 'f']
  else if 0x20 ≤ c.toNat ∧ c.toNat ≤ 0x7e then [c]
  else if c.toNat < 0x10000 then unicodeEscape c.toNat
  else unicodeEscape (0xd800 + (c.toNat - 0x10000) / 0x400) ++
    unicodeEscape (0xdc00 + (c.toNat - 0x10000) % 0x400)

def quoted (s : String) : List Char := '"' :: (s.toList.flatMap escapeChar ++ ['"'])

def Float.emit (allowNan : Bool) : Float → Except Error (List Char)
  | .finite r => .ok r.toList
  | x =>
    if allowNan then
      .ok (match x with
        | .negInf => "-Infinity".toList
        | .inf => "Infinity".toList
        | _ => "NaN".toList)
    else .error (.value "Out of range float values are not JSON compliant")

def Key.emit (allowNan : Bool) : Key → Except Error (List Char)
  | .str s => .ok (quoted s)
  | .int n => .ok (quoted (toString n))
  | .float x => (x.emit allowNan).map fun cs => quoted (String.ofList cs)
  | .bool b => .ok (quoted (if b then "true" else "false"))
  | .null => .ok (quoted "null")
  | .other => .error (.type "keys must be str, int, float, bool or None")

mutual

def emit (style : Style) (allowNan : Bool) : Value → Except Error (List Char)
  | .null => .ok "null".toList
  | .bool b => .ok (if b then "true".toList else "false".toList)
  | .int n => .ok (toString n).toList
  | .float x => x.emit allowNan
  | .str s => .ok (quoted s)
  | .list xs => do
    let parts ← emitElems style allowNan xs
    return '[' :: ((',' :: style.pad).intercalate parts ++ [']'])
  | .dict items => do
    let parts ← emitMembers style allowNan items
    return '\x7b' :: ((',' :: style.pad).intercalate parts ++ ['\x7d'])
  | .object v => emit style allowNan v
  | .failing message => .error (.hook message)

def emitElems (style : Style) (allowNan : Bool) : List Value → Except Error (List (List Char))
  | [] => .ok []
  | v :: vs => do
    let part ← emit style allowNan v
    let parts ← emitElems style allowNan vs
    return part :: parts

def emitMembers (style : Style) (allowNan : Bool) :
    List (Key × Value) → Except Error (List (List Char))
  | [] => .ok []
  | (k, v) :: items => do
    let key ← k.emit allowNan
    let part ← emit style allowNan v
    let parts ← emitMembers style allowNan items
    return (key ++ ':' :: style.pad ++ part) :: parts

end

def dumps (style : Style) (allowNan : Bool) (v : Value) : Except Error String :=
  (emit style allowNan v).map String.ofList

def isSpace (c : Char) : Bool := c == ' ' || c == '\t' || c == '\n' || c == '\r'

def skipSpace (cs : List Char) : List Char := cs.dropWhile isSpace

def hexValue (c : Char) : Option Nat :=
  if '0' ≤ c ∧ c ≤ '9' then some (c.toNat - 48)
  else if 'a' ≤ c ∧ c ≤ 'f' then some (c.toNat - 87)
  else if 'A' ≤ c ∧ c ≤ 'F' then some (c.toNat - 55)
  else none

def scanHex4 : List Char → Option (Nat × List Char)
  | a :: b :: c :: d :: cs => do
    let a ← hexValue a
    let b ← hexValue b
    let c ← hexValue c
    let d ← hexValue d
    return (a * 4096 + b * 256 + c * 16 + d, cs)
  | _ => none

/-- After a backslash and `u`; a high surrogate takes its low partner along, and a lone surrogate
is no character. -/
def scanUnicode (cs : List Char) : Option (Char × List Char) := do
  let (n, cs) ← scanHex4 cs
  if 0xd800 ≤ n ∧ n < 0xdc00 then
    match cs with
    | '\\' :: 'u' :: cs =>
      let (m, cs) ← scanHex4 cs
      if 0xdc00 ≤ m ∧ m < 0xe000 then
        return (Char.ofNat (0x10000 + (n - 0xd800) * 0x400 + (m - 0xdc00)), cs)
      else none
    | _ => none
  else if 0xdc00 ≤ n ∧ n < 0xe000 then none
  else return (Char.ofNat n, cs)

def simpleEscape : Char → Option Char
  | '"' => some '"'
  | '\\' => some '\\'
  | '/' => some '/'
  | 'n' => some '\n'
  | 'r' => some '\r'
  | 't' => some '\t'
  | 'b' => some '\x08'
  | 'f' => some '\x0c'
  | _ => none

def scanChar : List Char → Option (Char × List Char)
  | [] => none
  | c :: cs =>
    if c = '\\' then
      match cs with
      | [] => none
      | e :: cs => if e = 'u' then scanUnicode cs else (simpleEscape e).map (·, cs)
    else if c.toNat < 0x20 then none
    else some (c, cs)

def scanString : Nat → List Char → Option (List Char × List Char)
  | 0, _ => none
  | n + 1, cs =>
    if cs.head? = some '"' then some ([], cs.tail)
    else do
      let (c, cs) ← scanChar cs
      let (out, cs) ← scanString n cs
      return (c :: out, cs)

def isNumberChar (c : Char) : Bool :=
  c.isDigit || c == '-' || c == '+' || c == '.' || c == 'e' || c == 'E'

def readNat (ds : List Char) : Option Nat :=
  if ds ≠ [] ∧ ds.all Char.isDigit ∧ (ds.head? = some '0' → ds.length = 1) then
    some (Nat.ofDigitChars 10 ds 0)
  else none

def readInt : List Char → Option Int
  | '-' :: ds => (readNat ds).map fun n => -(n : Int)
  | ds => (readNat ds).map Int.ofNat

def isExponent (cs : List Char) : Bool :=
  let ds := if cs.head? = some '+' ∨ cs.head? = some '-' then cs.tail else cs
  ds ≠ [] && ds.all Char.isDigit

def isExponentPart : List Char → Bool
  | [] => true
  | c :: cs => (c == 'e' || c == 'E') && isExponent cs

def isFloatText (cs : List Char) : Bool :=
  let cs := if cs.head? = some '-' then cs.tail else cs
  let (whole, cs) := cs.span Char.isDigit
  (readNat whole).isSome &&
    match cs with
    | '.' :: cs =>
      let (frac, cs) := cs.span Char.isDigit
      frac ≠ [] && isExponentPart cs
    | [] => false
    | cs => isExponentPart cs

def readExponent : List Char → Int
  | '-' :: ds => -(Nat.ofDigitChars 10 ds 0 : Int)
  | '+' :: ds => Nat.ofDigitChars 10 ds 0
  | ds => Nat.ofDigitChars 10 ds 0

def Float.negate : Float → Float
  | .finite r => .finite ("-" ++ r)
  | .inf => .negInf
  | .negInf => .inf
  | .nan => .nan

def readFloat (num : List Char) : Float :=
  let negative := num.head? = some '-'
  let (whole, cs) := (if negative then num.tail else num).span Char.isDigit
  let (frac, cs) := match cs with
    | '.' :: cs => cs.span Char.isDigit
    | cs => ([], cs)
  let e := readExponent cs.tail - frac.length
  let x := (Doubles.reprDecimal (Nat.ofDigitChars 10 (whole ++ frac) 0) e).elim .inf .finite
  if negative then x.negate else x

def readNumber (num : List Char) : Option Value :=
  match readInt num with
  | some n => some (.int n)
  | none => if isFloatText num then some (.float (readFloat num)) else none

example : ["1e2", "-0.00", "1e999", "1.50", "-0", "1E+2", "-2.5e-7", "01.5"].map
    (fun s => readNumber s.toList) =
    [some (.float (.finite "100.0")), some (.float (.finite "-0.0")), some (.float .inf),
      some (.float (.finite "1.5")), some (.int 0), some (.float (.finite "100.0")),
      some (.float (.finite "-2.5e-07")), none] := by rfl

def scanNumber (cs : List Char) : Option (Value × List Char) :=
  (readNumber (cs.takeWhile isNumberChar)).map (·, cs.dropWhile isNumberChar)

def literals : List (List Char × Value) :=
  [("null".toList, .null), ("true".toList, .bool true), ("false".toList, .bool false),
    ("NaN".toList, .float .nan), ("Infinity".toList, .float .inf),
    ("-Infinity".toList, .float .negInf)]

def scanLiteral (cs : List Char) : Option (Value × List Char) :=
  literals.findSome? fun p => if p.1.isPrefixOf cs then some (p.2, cs.drop p.1.length) else none

def scanItems {α : Type} (item : List Char → Option (α × List Char)) (close : Char) :
    Nat → List Char → Option (List α × List Char)
  | 0, _ => none
  | n + 1, cs => do
    let (x, cs) ← item cs
    match skipSpace cs with
    | [] => none
    | c :: cs =>
      if c = ',' then (scanItems item close n cs).map fun r => (x :: r.1, r.2)
      else if c = close then some ([x], cs)
      else none

def scanMember (value : List Char → Option (Value × List Char)) (n : Nat) (cs : List Char) :
    Option ((Key × Value) × List Char) :=
  match skipSpace cs with
  | '"' :: cs => do
    let (k, cs) ← scanString n cs
    match skipSpace cs with
    | ':' :: cs => (value cs).map fun r => ((.str (String.ofList k), r.1), r.2)
    | _ => none
  | _ => none

def scanValue : Nat → List Char → Option (Value × List Char)
  | 0, _ => none
  | n + 1, cs =>
    match skipSpace cs with
    | '"' :: cs => (scanString n cs).map fun r => (.str (String.ofList r.1), r.2)
    | '[' :: cs =>
      if (skipSpace cs).head? = some ']' then some (.list [], (skipSpace cs).tail)
      else (scanItems (scanValue n) ']' n cs).map fun r => (.list r.1, r.2)
    | '\x7b' :: cs =>
      if (skipSpace cs).head? = some '\x7d' then some (.dict [], (skipSpace cs).tail)
      else (scanItems (scanMember (scanValue n) n) '\x7d' n cs).map fun r =>
        (.dict (Dict.ofList r.1).items, r.2)
    | cs => (scanLiteral cs).or (scanNumber cs)

def loadsChars (cs : List Char) : Option Value :=
  match scanValue (cs.length + 1) cs with
  | some (v, rest) => if skipSpace rest = [] then some v else none
  | none => none

def loads (s : String) : Option Value := loadsChars s.toList

end LangGraphFunctions.Lib.Json

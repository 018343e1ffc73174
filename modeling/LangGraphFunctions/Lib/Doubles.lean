import Mathlib.Algebra.GroupWithZero.Nat
import Mathlib.Data.Int.Init

/-! Finite binary64 numbers: the one nearest to a decimal, and the shortest decimal that is nearest
to one. -/

namespace LangGraphFunctions.Lib.Doubles

structure Double where
  mantissa : Nat
  exponent : Int
  deriving DecidableEq

def roundDiv (num den : Nat) : Nat :=
  let q := num / den
  let twice := 2 * (num % den)
  if twice < den ∨ twice = den ∧ q % 2 = 0 then q else q + 1

def scale (base : Nat) (e : Int) (num den : Nat) : Nat × Nat :=
  if 0 ≤ e then (num * base ^ e.toNat, den) else (num, den * base ^ (-e).toNat)

/-- The largest `e` with `base ^ e ≤ num / den`, given by the lengths of both up to one. -/
def floorLog (base : Nat) (guess : Int) (num den : Nat) : Int :=
  let (n, d) := scale base (-guess) num den
  if d ≤ n then guess else guess - 1

/-- The double nearest to a positive `num / den`; too large a number has none. -/
def nearest (num den : Nat) : Option Double :=
  let e := max (floorLog 2 (num.log2 - den.log2) num den - 52) (-1074)
  let (n, d) := scale 2 (-e) num den
  let m := roundDiv n d
  -- rounding up may carry into a further bit
  let x : Double := if m = 2 ^ 53 then ⟨2 ^ 52, e + 1⟩ else ⟨m, e⟩
  if 971 < x.exponent then none else some x

def digitCount (n : Nat) : Nat := (Nat.toDigits 10 n).length

/-- The double nearest to `c * 10 ^ e`. The bounds only spare the powers of hopeless exponents. -/
def ofDecimal (c : Nat) (e : Int) : Option Double :=
  if c = 0 ∨ e + digitCount c < -400 then some ⟨0, -1074⟩
  else if 400 < e + digitCount c then none
  else
    let (num, den) := scale 10 e c 1
    nearest num den

namespace Double

def fraction (x : Double) : Nat × Nat := scale 2 x.exponent x.mantissa 1

def point (x : Double) : Int :=
  let (num, den) := x.fraction
  floorLog 10 (digitCount num - digitCount den) num den + 1

/-- The decimal of `k` digits that is nearest to `x` among those that read as `x`. -/
def digits? (x : Double) (k : Nat) : Option (Nat × Int) :=
  let e := x.point - k
  let (num, den) := x.fraction
  let (n, d) := scale 10 (-e) num den
  let q := n / d
  if ofDecimal q e = some x then
    if ofDecimal (q + 1) e = some x then some (roundDiv n d, e) else some (q, e)
  else if ofDecimal (q + 1) e = some x then some (q + 1, e)
  else none

def shortest (x : Double) : Option (Nat × Int) :=
  (List.range 17).findSome? fun k => x.digits? (k + 1)

def zeros (n : Int) : List Char := List.replicate n.toNat '0'

def fixed (ds : List Char) (p : Int) : List Char :=
  if p ≤ 0 then '0' :: '.' :: (zeros (-p) ++ ds)
  else if ds.length ≤ p then ds ++ zeros (p - ds.length) ++ ['.', '0']
  else ds.take p.toNat ++ '.' :: ds.drop p.toNat

def exponential (ds : List Char) (e : Int) : List Char :=
  let n := (toString e.natAbs).toList
  ds.take 1 ++ (if ds.length = 1 then [] else '.' :: ds.drop 1) ++
    'e' :: (if e < 0 then '-' else '+') :: (if n.length = 1 then '0' :: n else n)

def repr (x : Double) : List Char :=
  if x.mantissa = 0 then "0.0".toList
  else
    let (c, e) := x.shortest.getD (0, 0)
    let all := Nat.toDigits 10 c
    let p := e + all.length
    let ds := (all.reverse.dropWhile (· == '0')).reverse
    if -4 < p ∧ p ≤ 16 then fixed ds p else exponential ds (p - 1)

end Double

def reprDecimal (c : Nat) (e : Int) : Option String :=
  (ofDecimal c e).map fun x => String.ofList x.repr

example : [(1, 2), (150, -2), (0, 5), (5, -324), (1, 16), (123456789012345678, 0), (1, -4), (1, -5),
    (5684341886080801486968994140625, -44), (1, 999), (17976931348623158, 292), (1, 309),
    (2, -324), (1, 23), (9007199254740993, 0)].map (fun p => reprDecimal p.1 p.2) =
    [some "100.0", some "1.5", some "0.0", some "5e-324", some "1e+16",
      some "1.2345678901234568e+17", some "0.0001", some "1e-05", some "5.684341886080802e-14",
      none, some "1.7976931348623157e+308", none, some "0.0", some "1e+23",
      some "9007199254740992.0"] := by decide +kernel

end LangGraphFunctions.Lib.Doubles

/-!
Binary floating point numbers with 53 bits of precision, held exactly: a finite one is a sign and
`mantissa * 2 ^ exponent`. Every operation rounds its exact result to the nearest number, a tie to
the even mantissa.
-/

set_option autoImplicit false

namespace Tabletop

inductive Double where
  | nan
  | infinite (negative : Bool)
  | finite (negative : Bool) (mantissa : Nat) (exponent : Int)
deriving DecidableEq, Repr, Inhabited

-- a quotient of integers, the denominator at least one
structure Ratio where
  num : Int
  den : Nat
deriving DecidableEq, Repr

namespace Ratio

def ofInt (n : Int) : Ratio :=
  ⟨n, 1⟩

def add (a b : Ratio) : Ratio :=
  ⟨a.num * b.den + b.num * a.den, a.den * b.den⟩

def mul (a b : Ratio) : Ratio :=
  ⟨a.num * b.num, a.den * b.den⟩

def lt (a b : Ratio) : Bool :=
  a.num * b.den < b.num * a.den

def same (a b : Ratio) : Bool :=
  a.num * b.den == b.num * a.den

def scale10 (n : Int) (exponent : Int) : Ratio :=
  let scale := Nat.pow 10 exponent.natAbs
  if exponent < 0 then ⟨n, scale⟩ else ⟨n * scale, 1⟩

end Ratio

namespace Double

def minExponent : Int := -1074
def maxExponent : Int := 971

def zero (negative : Bool) : Double :=
  .finite negative 0 minExponent

def pow2 (num den : Nat) (e : Int) : Nat × Nat :=
  let scale := Nat.pow 2 e.natAbs
  if e < 0 then (num * scale, den) else (num, den * scale)

-- the exponent of the highest power of two not above `num / den`
def floorLog2 (num den : Nat) : Int :=
  let k : Int := (Nat.log2 num : Int) - Nat.log2 den
  let (n, d) := pow2 num den k
  if n < d then k - 1 else k

def roundHalfEven (num den : Nat) : Nat :=
  let q := num / den
  let twice := 2 * (num % den)
  if twice < den then q
  else if den < twice then q + 1
  else if q % 2 = 0 then q else q + 1

def ofQuotient (negative : Bool) (num den : Nat) : Double :=
  if num = 0 then zero negative
  else
    let e := max (floorLog2 num den - 52) minExponent
    let (n, d) := pow2 num den e
    let m := roundHalfEven n d
    let (m, e) := if m = Nat.pow 2 53 then (Nat.pow 2 52, e + 1) else (m, e)
    if maxExponent < e then .infinite negative else .finite negative m e

def ofRatio (r : Ratio) : Double :=
  ofQuotient (r.num < 0) r.num.natAbs r.den

def ofInt (n : Int) : Double :=
  ofRatio (.ofInt n)

def toRatio? : Double → Option Ratio
  | .finite negative m e =>
    let n : Int := if negative then -m else m
    let scale := Nat.pow 2 e.natAbs
    some (if e < 0 then ⟨n, scale⟩ else ⟨n * scale, 1⟩)
  | _ => none

def isFinite : Double → Bool
  | .finite .. => true
  | _ => false

def isZero : Double → Bool
  | .finite _ m _ => m == 0
  | _ => false

def negate : Double → Double
  | .nan => .nan
  | .infinite s => .infinite !s
  | .finite s m e => .finite (!s) m e

-- the whole part, toward zero
def truncate? (d : Double) : Option Int :=
  d.toRatio?.map fun r => r.num.tdiv r.den

def isWhole (d : Double) : Bool :=
  match d.toRatio? with
  | some r => r.num % r.den == 0
  | none => false

def add (a b : Double) : Double :=
  match a.toRatio?, b.toRatio? with
  | some r, some s => ofRatio (r.add s)
  | some _, none => b
  | none, some _ => a
  | none, none => if a = b then a else .nan

def mul (a b : Double) : Double :=
  match a.toRatio?, b.toRatio? with
  | some r, some s => ofRatio (r.mul s)
  | _, _ => .nan

end Double

end Tabletop

import Tabletop.Number.Double
import Tabletop.Text.Digit

set_option autoImplicit false

namespace Tabletop

structure Decimal where
  negative : Bool
  digits : Nat
  exponent : Int
deriving DecidableEq, Repr

namespace Decimal

-- beyond these bounds every number is infinite or zero, so no large power is taken
def toDouble (d : Decimal) : Double :=
  let size : Int := (Nat.log2 d.digits : Int) / 3 + 1
  if d.digits = 0 then .zero d.negative
  else if 400 < d.exponent + size / 2 then .infinite d.negative
  else if d.exponent + size + 1 < -400 then .zero d.negative
  else
    let r := Ratio.scale10 d.digits d.exponent
    .ofQuotient d.negative r.num.natAbs r.den

def isAsciiDigit (c : Char) : Bool :=
  '0' ≤ c && c ≤ '9'

def digitOf (c : Char) : Nat :=
  c.toNat - 48

def readNat (cs : List Char) : Nat :=
  Text.digitsValue 10 (cs.map digitOf)

def splitSign : List Char → Bool × List Char
  | '-' :: r => (true, r)
  | '+' :: r => (false, r)
  | r => (false, r)

-- digits, an optional point with digits, an optional exponent; at least one digit before the exponent
def parse? (cs : List Char) : Option Decimal :=
  let (negative, r) := splitSign cs
  let whole := r.takeWhile isAsciiDigit
  let r := r.dropWhile isAsciiDigit
  let (fraction, r) :=
    match r with
    | '.' :: r' => (r'.takeWhile isAsciiDigit, r'.dropWhile isAsciiDigit)
    | _ => ([], r)
  if whole.isEmpty && fraction.isEmpty then none
  else
    let digits := readNat (whole ++ fraction)
    let shift : Int := -fraction.length
    match r with
    | [] => some ⟨negative, digits, shift⟩
    | c :: r =>
      if c = 'e' || c = 'E' then
        let (down, r) := splitSign r
        if !r.isEmpty && r.all isAsciiDigit then
          let e : Int := readNat r
          some ⟨negative, digits, shift + (if down then -e else e)⟩
        else none
      else none

end Decimal

namespace Double

-- `(num, den)` of the middle and of the two ends of the interval that rounds to `m * 2 ^ e`
structure Interval where
  low : Nat
  mid : Nat
  high : Nat
  den : Nat
  closed : Bool

def interval (m : Nat) (e : Int) : Interval :=
  let below := if m = Nat.pow 2 52 && minExponent < e then 1 else 2
  let f := if e < 0 then 1 else Nat.pow 2 e.natAbs
  let den := 4 * (if e < 0 then Nat.pow 2 e.natAbs else 1)
  ⟨(4 * m - below) * f, 4 * m * f, (4 * m + 2) * f, den, m % 2 = 0⟩

def Interval.holds (i : Interval) (num den : Nat) : Bool :=
  let x := num * i.den
  if i.closed then i.low * den ≤ x && x ≤ i.high * den
  else i.low * den < x && x < i.high * den

def digitCount (n : Nat) : Nat :=
  (Nat.toDigits 10 n).length

-- the place of the first digit: `mid / den` lies in `[10 ^ (k - 1), 10 ^ k)`
def decimalPlace (num den : Nat) : Int :=
  let guess : Int := (digitCount num : Int) - digitCount den
  let scale := Nat.pow 10 guess.natAbs
  let r := if guess < 0 then (num * scale, den) else (num, den * scale)
  if r.1 < r.2 then guess else guess + 1

-- the neighbours of the value on the grid of `count` digits, the nearer one that reads back
def onGrid (i : Interval) (place : Int) (count : Nat) : Option (Nat × Int) :=
  let unit := place - count
  let scale := Nat.pow 10 unit.natAbs
  let (num, den) := if unit < 0 then (i.mid * scale, i.den) else (i.mid, i.den * scale)
  let low := num / den
  let holds (n : Nat) : Bool :=
    if unit < 0 then i.holds n scale else i.holds (n * scale) 1
  let twice := 2 * (num % den)
  let upFirst := den < twice || (twice = den && low % 2 = 1)
  let (first, second) := if upFirst then (low + 1, low) else (low, low + 1)
  if holds first then some (first, unit)
  else if holds second then some (second, unit)
  else none

def shortestFrom (i : Interval) (place : Int) : Nat → Nat → Nat × Int
  | 0, count => (onGrid i place count).getD (0, 0)
  | k + 1, count =>
    match onGrid i place count with
    | some r => r
    | none => shortestFrom i place k (count + 1)

def shortest (m : Nat) (e : Int) : List Char × Int :=
  let i := interval m e
  let (n, unit) := shortestFrom i (decimalPlace i.mid i.den) 17 1
  let ds := Nat.toDigits 10 n
  let kept := (ds.reverse.dropWhile (· == '0')).reverse
  (kept, unit + ds.length)

-- positional from 0.0001 up to sixteen whole digits, else one digit before the point and an exponent
def layout (digits : List Char) (place : Int) : List Char :=
  if -4 < place && place ≤ 0 then
    '0' :: '.' :: List.replicate place.natAbs '0' ++ digits
  else if 0 < place && place ≤ 16 then
    let k := place.natAbs
    let fraction := digits.drop k
    digits.take k ++ List.replicate (k - digits.length) '0' ++
      '.' :: (if fraction.isEmpty then ['0'] else fraction)
  else
    let e := place - 1
    let ds := Nat.toDigits 10 e.natAbs
    let ds := if ds.length < 2 then '0' :: ds else ds
    let fraction := digits.drop 1
    digits.take 1 ++ (if fraction.isEmpty then [] else '.' :: fraction) ++
      'e' :: (if e < 0 then '-' else '+') :: ds

def text : Double → String
  | .nan => "nan"
  | .infinite negative => if negative then "-inf" else "inf"
  | .finite negative m e =>
    let body :=
      if m = 0 then ['0', '.', '0']
      else
        let (digits, place) := shortest m e
        layout digits place
    String.ofList (if negative then '-' :: body else body)

end Double

end Tabletop

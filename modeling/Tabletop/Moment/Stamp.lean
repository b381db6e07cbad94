import Tabletop.Moment
import Tabletop.Number.Decimal

set_option autoImplicit false

namespace Tabletop.Moment.Stamp

def twoDigits? : List Char → Option (Nat × List Char)
  | a :: b :: rest =>
    if Decimal.isAsciiDigit a && Decimal.isAsciiDigit b then some (Decimal.readNat [a, b], rest)
    else none
  | _ => none

def expect (c : Char) : List Char → Option (List Char)
  | d :: rest => if c = d then some rest else none
  | [] => none

def date? (cs : List Char) : Option (Date × List Char) := do
  let (y1, r) ← twoDigits? cs
  let (y2, r) ← twoDigits? r
  let (month, r) ← twoDigits? (← expect '-' r)
  let (day, r) ← twoDigits? (← expect '-' r)
  match Date.check ⟨100 * y1 + y2, month, day⟩ with
  | .ok d => some (d, r)
  | .error _ => none

-- digits past the sixth are dropped
def fraction? (cs : List Char) : Option (Nat × List Char) :=
  let ds := cs.takeWhile Decimal.isAsciiDigit
  if ds.isEmpty then none
  else
    let kept := ds.take 6
    some (Decimal.readNat kept * Nat.pow 10 (6 - kept.length), cs.drop ds.length)

def clock? (cs : List Char) : Option (Time × List Char) := do
  let (hour, r) ← twoDigits? cs
  let (minute, r) ← twoDigits? (← expect ':' r)
  let (second, micro, r) ← match r with
    | ':' :: r => do
      let (second, r) ← twoDigits? r
      match r with
      | '.' :: r => do
        let (micro, r) ← fraction? r
        some (second, micro, r)
      | ',' :: r => do
        let (micro, r) ← fraction? r
        some (second, micro, r)
      | r => some (second, 0, r)
    | r => some (0, 0, r)
  match Time.check ⟨hour, minute, second, micro⟩ with
  | .ok t => some (t, r)
  | .error _ => none

def signedOffset? (sign : Int) (cs : List Char) : Option (Option Int) := do
  let (hours, r) ← twoDigits? cs
  let (minutes, r) ← twoDigits? (match r with
    | ':' :: r => r
    | r => r)
  if r.isEmpty && minutes < 60 && hours < 24 then
    let o : Int := (hours * 60 + minutes) * 60000000
    some (some (sign * o))
  else none

def offset? : List Char → Option (Option Int)
  | [] => some none
  | ['Z'] => some (some 0)
  | ['z'] => some (some 0)
  | '+' :: r => signedOffset? 1 r
  | '-' :: r => signedOffset? (-1) r
  | '−' :: r => signedOffset? (-1) r
  | _ => none

def isSeparator (c : Char) : Bool :=
  c = 'T' || c = 't' || c = ' ' || c = '_'

def calendar? (cs : List Char) : Option Moment := do
  let (d, r) ← date? cs
  match r with
  | [] => some ⟨d, ⟨0, 0, 0, 0⟩, none⟩
  | c :: r =>
    if isSeparator c then
      let (t, r) ← clock? r
      let o ← offset? r
      some ⟨d, t, o⟩
    else none

def epochDays : Int := 719162

def firstSecond : Int := -11676096000
def lastSecond : Int := 253402300799

-- numbers beyond this bound count milliseconds
def millisecondBound : Int := 20000000000

def ofUnix (number : Int) (micro : Int) : Option Moment :=
  let (seconds, micro) :=
    if millisecondBound < number.natAbs then
      (number.fdiv 1000, micro + number.fmod 1000 * 1000)
    else (number, micro)
  let micros := seconds * 1000000 + micro
  let second := micros.fdiv 1000000
  if firstSecond ≤ second && second ≤ lastSecond then
    some (.ofMicros (micros + epochDays * dayMicros).toNat (some 0))
  else none

-- to the nearest microsecond
def microsOf (num : Nat) (den : Nat) : Int :=
  ((2 * num * 1000000 + den) / (2 * den) : Nat)

-- the fraction of a number counts from the whole number below it, also of a negative one
def ofUnixRatio (r : Ratio) : Option Moment :=
  ofUnix (r.num.fdiv r.den) (microsOf (r.num.natAbs % r.den) r.den)

-- of a text, milliseconds have fractions of their own
def ofUnixText (num : Int) (den : Nat) : Option Moment :=
  let den := if millisecondBound * den < num.natAbs then 1000 * den else den
  ofUnix (num.fdiv den) (microsOf (num.fmod den).natAbs den)

def maxUnix : Int := 9223372036854775808

def number? (cs : List Char) : Option Moment :=
  let (negative, r) := Decimal.splitSign cs
  let whole := r.takeWhile Decimal.isAsciiDigit
  if whole.isEmpty then none
  else
    let sign : Int := if negative then -1 else 1
    match r.drop whole.length with
    | [] =>
      let n : Int := Decimal.readNat whole
      if n < maxUnix then ofUnix (sign * n) 0 else none
    | '.' :: fraction =>
      if !fraction.isEmpty && fraction.all Decimal.isAsciiDigit then
        let n : Int := Decimal.readNat (whole ++ fraction)
        if fraction.length ≤ 400 && whole.length ≤ 400 then
          ofUnixText (sign * n) (Nat.pow 10 fraction.length)
        else none
      else none
    | _ => none

def ofText (s : String) : Option Moment :=
  (calendar? s.toList).orElse fun _ => number? s.toList

end Tabletop.Moment.Stamp

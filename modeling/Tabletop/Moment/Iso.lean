import Tabletop.Moment

/-!
Reading moments from ISO 8601 texts: calendar dates, week dates, clock times with or without
separators, fractions and offsets. Any one character may stand between the date and the time. Lengths
are counted in bytes, so the text is read as its bytes, each as a character.
-/

set_option autoImplicit false

namespace Tabletop.Moment.Iso

inductive ReadFault where
  | malformed
  | calendar (fault : CalendarFault)
  | offset (micros : Int)
deriving DecidableEq, Repr

def endMark : Char := Char.ofNat 0

def peek (cs : List Char) : Char :=
  cs.headD endMark

def digits? : Nat → List Char → Option (Nat × List Char)
  | 0, cs => some (0, cs)
  | n + 1, cs =>
    let taken := cs.take (n + 1)
    if taken.length = n + 1 && taken.all Decimal.isAsciiDigit then
      some (Decimal.readNat taken, cs.drop (n + 1))
    else none

-- with the weekday counted from Monday as zero
def weekday (d : Date) : Nat :=
  (d.ordinal + 6) % 7

def firstMonday (year : Nat) : Nat :=
  let first : Date := ⟨year, 1, 1⟩
  let day := weekday first
  let monday := first.ordinal - day
  if 3 < day then monday + 7 else monday

def hasLongYear (year : Nat) : Bool :=
  let day := weekday ⟨year, 1, 1⟩
  day = 3 || (day = 2 && Date.isLeap year)

def ofWeek? (year week day : Nat) : Option Date :=
  if year < 1 || 9999 < year then none
  else if week < 1 || 53 < week || (week = 53 && !hasLongYear year) then none
  else if day < 1 || 7 < day then none
  -- the first Monday of year 1 is its first day, so no date lies before the calendar
  else some (.ofDays (firstMonday year + (week - 1) * 7 + day - 1 - 1))

def dropDash (wanted : Bool) (cs : List Char) : Option (List Char) :=
  if !wanted then some cs
  else if peek cs = '-' then some (cs.drop 1) else none

-- `length` characters belong to the date
def date? (length : Nat) (cs : List Char) : Option Date := do
  let (year, r) ← digits? 4 cs
  let dashed := peek r = '-'
  let r := if dashed then r.drop 1 else r
  if peek r = 'W' then
    let (week, r) ← digits? 2 (r.drop 1)
    if cs.length - r.length < length then
      let r ← dropDash dashed r
      let (day, _) ← digits? 1 r
      ofWeek? year week day
    else ofWeek? year week 1
  else
    let (month, r) ← digits? 2 r
    let r ← dropDash dashed r
    let (day, _) ← digits? 2 r
    return ⟨year, month, day⟩

def separatorAt? (cs : List Char) : Option Nat :=
  let charAt (i : Nat) := (cs.drop i).headD endMark
  let n := cs.length
  if n = 7 then some 7
  else if charAt 4 = '-' then
    if charAt 5 = 'W' then
      if n < 8 then none
      else if 8 < n && charAt 8 = '-' then
        if n = 9 then none
        else if 10 < n && Decimal.isAsciiDigit (charAt 10) then some 8
        else some 10
      else some 8
    else some 10
  else if charAt 4 = 'W' then
    let stop := 7 + ((cs.drop 7).takeWhile Decimal.isAsciiDigit).length
    if stop < 9 then some stop
    else if stop % 2 = 0 then some 7 else some 8
  else some 8

structure Clock where
  values : List Nat
  micro : Nat
  atEnd : Bool

def fraction? (values : List Nat) (available : Nat) (cs : List Char) : Option Clock := do
  let count := min available 6
  let (n, r) ← digits? count cs
  let r := r.dropWhile Decimal.isAsciiDigit
  return ⟨values, n * Nat.pow 10 (6 - count), r.isEmpty⟩

-- `size` characters of `cs` belong to the clock, more may follow
def clockFrom? (colons : Bool) (values : List Nat) : Nat → Nat → List Char → Option Clock
  | 0, size, cs => fraction? values size cs
  | k + 1, size, cs => do
    let (n, r) ← digits? 2 cs
    let values := values ++ [n]
    let colons := if k = 2 then peek r = ':' else colons
    let c := peek r
    if size ≤ 3 then return ⟨values, 0, r.isEmpty⟩
    else if colons && c = ':' then clockFrom? colons values k (size - 3) (r.drop 1)
    else if c = '.' || c = ',' then fraction? values (size - 3) (r.drop 1)
    else if !colons then clockFrom? colons values k (size - 2) r
    else none

def clock? (size : Nat) (cs : List Char) : Option Clock :=
  clockFrom? false [] 3 size cs

def Clock.time (c : Clock) : Time :=
  ⟨c.values.getD 0 0, c.values.getD 1 0, c.values.getD 2 0, c.micro⟩

def isZoneMark (c : Char) : Bool :=
  c = '+' || c = '-' || c = 'Z'

-- a mark in the first place counts, and the scan goes at least one character far
def zoneAt (cs : List Char) : Nat :=
  if isZoneMark (peek cs) then 0
  else 1 + ((cs.drop 1).takeWhile fun c => !isZoneMark c).length

-- less than a second is no offset
def offsetOf (t : Time) : Int :=
  if t.micros < 1000000 then 0 else t.micros

def timeAndOffset? (cs : List Char) : Option (Time × Option Int) := do
  let size := zoneAt cs
  let c ← clock? size cs
  let zone := cs.drop size
  if zone.isEmpty then
    if c.atEnd then return (c.time, none) else none
  else if peek zone = 'Z' then
    if zone.length = 1 then return (c.time, some 0) else none
  else
    let z ← clock? (zone.length - 1) (zone.drop 1)
    if z.atEnd then
      let o := offsetOf z.time
      return (c.time, some (if peek zone = '-' then -o else o))
    else none

def build (d : Date) (t : Time) (offset : Option Int) : Except ReadFault Moment := do
  match offset with
  | some o => if Moment.dayMicros ≤ o.natAbs then throw (.offset o)
  | none => pure ()
  match d.check, t.check with
  | .ok d, .ok t => return ⟨d, t, offset⟩
  | .error f, _ => throw (.calendar f)
  | _, .error f => throw (.calendar f)

def bytesOf (text : String) : List Char :=
  text.toUTF8.toList.map fun b => Char.ofNat b.toNat

-- the bytes of the character that begins with this one
def width (lead : Char) : Nat :=
  if lead.toNat < 0x80 then 1
  else if lead.toNat < 0xE0 then 2
  else if lead.toNat < 0xF0 then 3
  else 4

def parse (text : String) : Except ReadFault Moment :=
  let cs := bytesOf text
  let read : Option (Date × Time × Option Int) := do
    if cs.length < 7 then none
    else
      let cut ← separatorAt? cs
      let d ← date? cut cs
      if cs.length ≤ cut then return (d, ⟨0, 0, 0, 0⟩, none)
      else
        let (t, o) ← timeAndOffset? (cs.drop (cut + width (peek (cs.drop cut))))
        return (d, t, o)
  match read with
  | some (d, t, o) => build d t o
  | none => .error .malformed

end Tabletop.Moment.Iso

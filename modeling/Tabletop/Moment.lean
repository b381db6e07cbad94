import Tabletop.Number.Decimal

set_option autoImplicit false

namespace Tabletop

inductive CalendarFault where
  | year (given : Nat)
  | month
  | day
  | hour
  | minute
  | second
deriving DecidableEq, Repr

def CalendarFault.message : CalendarFault → String
  | .year y => "year " ++ toString y ++ " is out of range"
  | .month => "month must be in 1..12"
  | .day => "day is out of range for month"
  | .hour => "hour must be in 0..23"
  | .minute => "minute must be in 0..59"
  | .second => "second must be in 0..59"

structure Date where
  year : Nat
  month : Nat
  day : Nat
deriving DecidableEq, Repr, Inhabited

namespace Date

def isLeap (year : Nat) : Bool :=
  year % 4 == 0 && (year % 100 != 0 || year % 400 == 0)

def daysInMonth (year month : Nat) : Nat :=
  if month = 2 then (if isLeap year then 29 else 28)
  else if month = 4 || month = 6 || month = 9 || month = 11 then 30
  else 31

def check (d : Date) : Except CalendarFault Date :=
  if d.year < 1 || 9999 < d.year then .error (.year d.year)
  else if d.month < 1 || 12 < d.month then .error .month
  else if d.day < 1 || daysInMonth d.year d.month < d.day then .error .day
  else .ok d

def daysBeforeYear (year : Nat) : Nat :=
  let y := year - 1
  y * 365 + y / 4 - y / 100 + y / 400

def daysBeforeMonth (year month : Nat) : Nat :=
  (List.range (month - 1)).foldl (fun days m => days + daysInMonth year (m + 1)) 0

-- day 1 is the first of January of year 1
def ordinal (d : Date) : Nat :=
  daysBeforeYear d.year + daysBeforeMonth d.year d.month + d.day

def monthOf (year : Nat) : Nat → Nat → Nat → Nat × Nat
  | 0, month, day => (month, day)
  | k + 1, month, day =>
    if day < daysInMonth year month then (month, day)
    else monthOf year k (month + 1) (day - daysInMonth year month)

-- `days` counts from zero at the first day of year 1
def ofDays (days : Nat) : Date :=
  let guess := days / 366 + 1
  let year :=
    ((List.range 40).map (guess + ·)).foldl (fun y c => if daysBeforeYear c ≤ days then c else y) guess
  let (month, day) := monthOf year 11 1 (days - daysBeforeYear year)
  ⟨year, month, day + 1⟩

def next (d : Date) : Date :=
  if d.day < daysInMonth d.year d.month then { d with day := d.day + 1 }
  else if d.month < 12 then ⟨d.year, d.month + 1, 1⟩
  else ⟨d.year + 1, 1, 1⟩

end Date

def padded (width n : Nat) : String :=
  let ds := Nat.toDigits 10 n
  String.ofList (List.replicate (width - ds.length) '0' ++ ds)

def Date.text (d : Date) : String :=
  padded 4 d.year ++ "-" ++ padded 2 d.month ++ "-" ++ padded 2 d.day

structure Time where
  hour : Nat
  minute : Nat
  second : Nat
  micro : Nat
deriving DecidableEq, Repr, Inhabited

def Time.check (t : Time) : Except CalendarFault Time :=
  if 23 < t.hour then .error .hour
  else if 59 < t.minute then .error .minute
  else if 59 < t.second then .error .second
  else .ok t

def Time.micros (t : Time) : Nat :=
  ((t.hour * 60 + t.minute) * 60 + t.second) * 1000000 + t.micro

def Time.ofMicros (n : Nat) : Time :=
  let s := n / 1000000
  ⟨s / 3600 % 24, s / 60 % 60, s % 60, n % 1000000⟩

def Time.text (t : Time) : String :=
  padded 2 t.hour ++ ":" ++ padded 2 t.minute ++ ":" ++ padded 2 t.second ++
    (if t.micro = 0 then "" else "." ++ padded 6 t.micro)

/-- A point in time; `offset` is the distance of its local clock from universal time, in
microseconds. -/
structure Moment where
  date : Date
  time : Time
  offset : Option Int
deriving DecidableEq, Repr, Inhabited

namespace Moment

def dayMicros : Nat := 86400000000

def localMicros (m : Moment) : Int :=
  (m.date.ordinal * dayMicros + m.time.micros : Nat)

def fieldsLess (a b : Moment) : Bool :=
  let key (m : Moment) := [m.date.year, m.date.month, m.date.day, m.time.hour, m.time.minute,
    m.time.second, m.time.micro]
  decide (key a < key b)

-- local clocks without an offset compare as they read
def less (a b : Moment) : Bool :=
  match a.offset, b.offset with
  | some x, some y => a.localMicros - x < b.localMicros - y
  | _, _ => fieldsLess a b

def comparable (a b : Moment) : Bool :=
  a.offset.isSome == b.offset.isSome

def next (m : Moment) : Moment :=
  let n := m.time.micros + 1
  if n < dayMicros then { m with time := .ofMicros n }
  else { m with date := m.date.next, time := ⟨0, 0, 0, 0⟩ }

-- microseconds since the first moment of year 1
def ofMicros (n : Nat) (offset : Option Int) : Moment :=
  ⟨.ofDays (n / dayMicros), .ofMicros (n % dayMicros), offset⟩

def clockText (micros : Nat) : String :=
  let t := Time.ofMicros micros
  padded 2 (micros / 3600000000) ++ ":" ++ padded 2 t.minute ++
    (if t.second = 0 && t.micro = 0 then ""
     else ":" ++ padded 2 t.second ++ (if t.micro = 0 then "" else "." ++ padded 6 t.micro))

def offsetText : Option Int → String
  | none => ""
  | some o => (if o < 0 then "-" else "+") ++ clockText o.natAbs

def textWith (separator : String) (m : Moment) : String :=
  m.date.text ++ separator ++ m.time.text ++ offsetText m.offset

def isoText (m : Moment) : String :=
  m.textWith "T"

-- the form in records: universal time is marked by a letter
def recordText (m : Moment) : String :=
  if m.offset = some 0 then { m with offset := none }.isoText ++ "Z" else m.isoText

end Moment

end Tabletop

import Tabletop.Moment.Iso
import Tabletop.Value

set_option autoImplicit false

namespace Tabletop.Value

def quoteByte (quote : Char) (b : UInt8) : List Char :=
  let c := Char.ofNat b.toNat
  if c = quote || c = '\\' then ['\\', c]
  else if c = '\t' then ['\\', 't']
  else if c = '\n' then ['\\', 'n']
  else if c = '\r' then ['\\', 'r']
  else if 32 ≤ b.toNat && b.toNat < 127 then [c]
  else '\\' :: 'x' :: Text.hexDigits 2 b.toNat

def quotedBytes (bs : List UInt8) : String :=
  let mark := Text.quoteMark (bs.map fun b => Char.ofNat b.toNat)
  String.ofList ('b' :: mark :: bs.flatMap (quoteByte mark) ++ [mark])

def quotedDate (d : Date) : String :=
  "datetime.date(" ++ ", ".intercalate [toString d.year, toString d.month, toString d.day] ++ ")"

-- whole days, then the seconds and microseconds of the day that are not zero
def quotedSpan (micros : Int) : String :=
  let days := micros.fdiv Moment.dayMicros
  let rest := (micros.fmod Moment.dayMicros).natAbs
  let parts :=
    (if days = 0 then [] else ["days=" ++ toString days]) ++
    (if rest / 1000000 = 0 then [] else ["seconds=" ++ toString (rest / 1000000)]) ++
    (if rest % 1000000 = 0 then [] else ["microseconds=" ++ toString (rest % 1000000)])
  "datetime.timedelta(" ++ (if parts.isEmpty then "0" else ", ".intercalate parts) ++ ")"

def quotedOffset (o : Int) : String :=
  if o = 0 then "datetime.timezone.utc" else "datetime.timezone(" ++ quotedSpan o ++ ")"

def quotedMoment (m : Moment) : String :=
  let seconds := if m.time.micro ≠ 0 then [m.time.second, m.time.micro]
    else if m.time.second ≠ 0 then [m.time.second] else []
  let fields := [m.date.year, m.date.month, m.date.day, m.time.hour, m.time.minute] ++ seconds
  let zone := match m.offset with
    | some o => [("tzinfo=" : String) ++ quotedOffset o]
    | none => []
  "datetime.datetime(" ++ ", ".intercalate (fields.map toString ++ zone) ++ ")"

mutual
def quoted : Value → String
  | .null => "None"
  | .bool b => if b then "True" else "False"
  | .int i => toString i
  | .float d => d.text
  | .str s => Text.quoted s
  | .bytes bs => quotedBytes bs
  | .date d => quotedDate d
  | .moment m => quotedMoment m
  | .list xs => "[" ++ ", ".intercalate (quotedAll xs) ++ "]"
  | .tuple xs =>
    match quotedAll xs with
    | [x] => "(" ++ x ++ ",)"
    | texts => "(" ++ ", ".intercalate texts ++ ")"
  | .set xs =>
    match quotedAll xs with
    | [] => "set()"
    | texts => "\x7b" ++ ", ".intercalate texts ++ "\x7d"
  | .map es => "\x7b" ++ ", ".intercalate (quotedEntries es) ++ "\x7d"

def quotedAll : List Value → List String
  | [] => []
  | x :: xs => quoted x :: quotedAll xs

def quotedEntries : List (Value × Value) → List String
  | [] => []
  | (k, v) :: es => (quoted k ++ ": " ++ quoted v) :: quotedEntries es
end

def text : Value → String
  | .str s => s
  | .date d => d.text
  | .moment m => m.textWith " "
  | v => v.quoted

end Tabletop.Value

namespace Tabletop

def Moment.Iso.ReadFault.message (text : String) : Moment.Iso.ReadFault → String
  | .malformed => "Invalid isoformat string: " ++ Text.quoted text
  | .calendar f => f.message
  | .offset o =>
    "offset must be a timedelta strictly between -timedelta(hours=24) and timedelta(hours=24), not " ++
      Value.quotedSpan o ++ "."

end Tabletop

import Tabletop.Number.Decimal
import Tabletop.Yaml.Cursor

set_option autoImplicit false

namespace Tabletop.Yaml

inductive Tag where
  | null
  | bool
  | int
  | float
  | binary
  | timestamp
  | omap
  | pairs
  | set
  | str
  | seq
  | map
  | merge
  | value
  | other
deriving DecidableEq, Repr

def standardLead : String := "tag:yaml.org,2002:"

namespace Tag

def standard : List (String × Tag) :=
  [("null", null), ("bool", bool), ("int", int), ("float", float), ("binary", binary),
    ("timestamp", timestamp), ("omap", omap), ("pairs", pairs), ("set", set), ("str", str),
    ("seq", seq), ("map", map), ("merge", merge), ("value", value)]

def ofName (name : String) : Tag :=
  ((standard.map fun t => (standardLead ++ t.1, t.2)).lookup name).getD other

end Tag

namespace Plain

abbrev isDigit := Decimal.isAsciiDigit

def boolWords : List (String × Bool) :=
  [("yes", true), ("no", false), ("true", true), ("false", false), ("on", true), ("off", false)]

-- a word in small letters, in capitals, or with one capital in front
def casings (word : String) : List String :=
  [word, String.ofList (word.toList.map Char.toUpper),
    match word.toList with
    | c :: cs => String.ofList (c.toUpper :: cs)
    | [] => ""]

def isBool (s : String) : Bool :=
  (boolWords.flatMap fun w => casings w.1).contains s

def isNull (s : String) : Bool :=
  s = "" || s = "~" || (casings "null").contains s

def isDigitOrMark (c : Char) : Bool :=
  isDigit c || c = '_'

def isOctal (c : Char) : Bool :=
  ('0' ≤ c && c ≤ '7') || c = '_'

def isBinary (c : Char) : Bool :=
  c = '0' || c = '1' || c = '_'

def isHex (c : Char) : Bool :=
  isDigit c || ('a' ≤ c && c ≤ 'f') || ('A' ≤ c && c ≤ 'F') || c = '_'

-- one or two digits of a number below sixty, after each colon
def sixties : List Char → Option (List Char)
  | ':' :: a :: b :: rest =>
    if !isDigit a then none
    else if isDigit b then
      if '6' ≤ a then none
      else
        match rest with
        | ':' :: _ => sixties rest
        | _ => some rest
    else if b = ':' then sixties (b :: rest)
    else some (b :: rest)
  | [':', a] => if isDigit a then some [] else none
  | _ => none

def isUnsignedInt : List Char → Bool
  | ['0'] => true
  | '0' :: 'b' :: c :: cs => (c :: cs).all isBinary
  | '0' :: 'x' :: c :: cs => (c :: cs).all isHex
  | '0' :: c :: cs => (c :: cs).all isOctal
  | c :: cs =>
    let rest := cs.dropWhile isDigitOrMark
    isDigit c && (rest.isEmpty || sixties rest = some [])
  | [] => false

def isInt (cs : List Char) : Bool :=
  isUnsignedInt (Decimal.splitSign cs).2

def isExponent : List Char → Bool
  | [] => true
  | e :: sign :: d :: ds =>
    (e = 'e' || e = 'E') && (sign = '+' || sign = '-') && (d :: ds).all isDigit
  | _ => false

def isInfinity (cs : List Char) : Bool :=
  (casings "inf").contains (String.ofList cs)

def isNan (cs : List Char) : Bool :=
  (["nan", "NaN", "NAN"] : List String).contains (String.ofList cs)

def isPointed (cs : List Char) : Bool :=
  isExponent (cs.dropWhile isDigitOrMark)

def isUnsignedFloat (signed : Bool) : List Char → Bool
  | '.' :: cs =>
    isInfinity cs || (!signed && (isNan cs || isDigit (cs.headD endMark) && isPointed cs))
  | c :: cs =>
    isDigit c &&
      match cs.dropWhile isDigitOrMark with
      | '.' :: rest => isPointed rest
      | rest =>
        match sixties rest with
        | some ('.' :: rest) => rest.all isDigitOrMark
        | _ => false
  | [] => false

def isFloat (cs : List Char) : Bool :=
  let unsigned := (Decimal.splitSign cs).2
  isUnsignedFloat (unsigned.length < cs.length) unsigned

end Plain

structure Stamp where
  date : Date
  time : Option (Time × Option Int)
  -- month and day are written with two digits each
  full : Bool

namespace Stamp

def exactly? : Nat → List Char → Option (Nat × List Char)
  | 0, cs => some (0, cs)
  | n + 1, cs =>
    let taken := cs.take (n + 1)
    if taken.length = n + 1 && taken.all Decimal.isAsciiDigit then
      some (Decimal.readNat taken, cs.drop (n + 1))
    else none

def oneOrTwo? (cs : List Char) : Option (Nat × List Char) :=
  (exactly? 2 cs).orElse fun _ => exactly? 1 cs

def expect? (c : Char) : List Char → Option (List Char)
  | d :: cs => if c = d then some cs else none
  | [] => none

def isBlank (c : Char) : Bool :=
  c = ' ' || c = '\t'

-- a letter, or blanks
def afterDate? : List Char → Option (List Char)
  | 'T' :: cs => some cs
  | 't' :: cs => some cs
  | c :: cs => if isBlank c then some (cs.dropWhile isBlank) else none
  | [] => none

def fraction : List Char → Nat × List Char
  | '.' :: cs =>
    let ds := cs.takeWhile Decimal.isAsciiDigit
    let kept := ds.take 6
    (Decimal.readNat kept * Nat.pow 10 (6 - kept.length), cs.drop ds.length)
  | cs => (0, cs)

def signed? (negative : Bool) (cs : List Char) : Option (Option Int) := do
  let (hours, cs) ← oneOrTwo? cs
  let (minutes, cs) ← match cs with
    | ':' :: cs => exactly? 2 cs
    | cs => some (0, cs)
  let micros : Int := (hours * 60 + minutes) * 60000000
  if cs.isEmpty then some (some (if negative then -micros else micros)) else none

def offset? : List Char → Option (Option Int)
  | [] => some none
  | cs =>
    match cs.dropWhile isBlank with
    | ['Z'] => some (some 0)
    | '+' :: cs => signed? false cs
    | '-' :: cs => signed? true cs
    | _ => none

def time? (cs : List Char) : Option (Time × Option Int) := do
  let (hour, cs) ← oneOrTwo? cs
  let (minute, cs) ← exactly? 2 (← expect? ':' cs)
  let (second, cs) ← exactly? 2 (← expect? ':' cs)
  let (micro, cs) := fraction cs
  return (⟨hour, minute, second, micro⟩, ← offset? cs)

def read? (cs : List Char) : Option Stamp := do
  let (year, rest) ← exactly? 4 cs
  let (month, rest) ← oneOrTwo? (← expect? '-' rest)
  let (day, rest) ← oneOrTwo? (← expect? '-' rest)
  if rest.isEmpty then return ⟨⟨year, month, day⟩, none, cs.length = 10⟩
  else
    let time ← time? (← afterDate? rest)
    return ⟨⟨year, month, day⟩, some time, true⟩

end Stamp

namespace Plain

-- a date alone is one only in full
def isTimestamp (cs : List Char) : Bool :=
  match Stamp.read? cs with
  | some s => s.full
  | none => false

end Plain

def Tag.ofPlain (s : String) : Tag :=
  let cs := s.toList
  if Plain.isBool s then .bool
  else if Plain.isFloat cs then .float
  else if Plain.isInt cs then .int
  else if s = "<<" then .merge
  else if Plain.isNull s then .null
  else if Plain.isTimestamp cs then .timestamp
  else if s = "=" then .value
  else .str

end Tabletop.Yaml

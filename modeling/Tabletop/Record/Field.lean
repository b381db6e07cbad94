import Tabletop.Text.Integer
import Tabletop.Record.Fault
import Tabletop.Value.Text
import Tabletop.Moment.Stamp

set_option autoImplicit false

namespace Tabletop.Field

abbrev Reader (α : Type) := Value → Checked α

variable {α : Type}

def string : Reader String
  | .str s => .ok s
  | .bytes bs => .ofOption .stringUnicode (Text.ofUtf8? bs)
  | _ => .fault .stringType

-- leading zeros go, the last one stays; nothing but digits, marks and a point may follow them
def dropZeros : List Char → Option (List Char)
  | '0' :: rest =>
    let tail := rest.dropWhile fun c => c = '0' || c = '_'
    match tail with
    | [] => some (('0' :: rest).drop rest.length)
    | '.' :: _ => some (('0' :: rest).drop (rest.length - tail.length))
    | c :: _ => if '1' ≤ c && c ≤ '9' then some tail else none
  | c :: rest => if c = '-' || ('1' ≤ c && c ≤ '9') then some (c :: rest) else none
  | [] => none

def dropZeroFraction (cs : List Char) : List Char :=
  match cs.dropWhile (· != '.') with
  | '.' :: fraction => if fraction.all (· == '0') then cs.takeWhile (· != '.') else cs
  | _ => cs

def hasDoubleMark : List Char → Bool
  | '_' :: '_' :: _ => true
  | _ :: rest => hasDoubleMark rest
  | [] => false

-- single underscores between the digits
def dropMarks (cs : List Char) : List Char :=
  if cs.head? = some '_' || cs.getLast? = some '_' || hasDoubleMark cs then cs
  else cs.filter (· != '_')

def plainInteger? (cs : List Char) : Option Int :=
  let (negative, ds) := match cs with
    | '-' :: r => (true, r)
    | r => (false, r)
  if ds.isEmpty || !ds.all Decimal.isAsciiDigit || (1 < ds.length && ds.head? = some '0') then none
  else
    let n : Int := Decimal.readNat ds
    some (if negative then -n else n)

def integerText (s : String) : Checked Int :=
  let cs := Text.trimBy Text.isWhite s.toList
  let unsigned := match cs with
    | '+' :: '-' :: _ => []
    | '+' :: r => r
    | r => r
  match dropZeros unsigned with
  | none => .fault .intParsing
  | some cs =>
    let cs := dropMarks (dropZeroFraction cs)
    if Text.maxDigits < cs.length then .fault .intParsingSize
    else .ofOption .intParsing (plainInteger? cs)

def integer : Reader Int
  | .int i => .ok i
  | .bool b => .ok (if b then 1 else 0)
  | .float d =>
    if !d.isFinite then .fault .finiteNumber
    else if d.isWhole then .ofOption .intFromFloat d.truncate?
    else .fault .intFromFloat
  | .str s => integerText s
  | .bytes bs =>
    match Text.ofUtf8? bs with
    | some s => integerText s
    | none => .fault .intParsing
  | _ => .fault .intType

def integerFrom (least : Int) (v : Value) : Checked Int :=
  (integer v).andThen fun i => if i < least then .fault .greaterThanEqual else .ok i

def asciiLower (s : List Char) : List Char :=
  s.map Char.toLower

def floatWord? (cs : List Char) : Option Double :=
  let (negative, r) := Decimal.splitSign cs
  let word := String.ofList (asciiLower r)
  if word = "inf" || word = "infinity" then some (.infinite negative)
  else if word = "nan" then some .nan
  else none

def plainFloat? (cs : List Char) : Option Double :=
  ((Decimal.parse? cs).map Decimal.toDouble).orElse fun _ => floatWord? cs

def floatText (s : String) : Checked Double :=
  let cs := Text.trimBy Text.isWhite s.toList
  .ofOption .floatParsing ((plainFloat? cs).orElse fun _ => plainFloat? (dropMarks cs))

def float : Reader Double
  | .float d => .ok d
  | .int i =>
    let d := Double.ofInt i
    if d.isFinite then .ok d else .fault .floatType
  | .bool b => .ok (.ofInt (if b then 1 else 0))
  | .str s => floatText s
  | .bytes bs =>
    match Text.ofUtf8? bs with
    | some s => floatText s
    | none => .fault .floatParsing
  | _ => .fault .floatType

def moment : Reader Moment
  | .str s => .ofOption .moment (Moment.Stamp.ofText s)
  | .int i =>
    .ofOption .moment
      (if i.natAbs < Moment.Stamp.maxUnix then Moment.Stamp.ofUnix i 0 else none)
  | .float d => .ofOption .moment (d.toRatio?.bind Moment.Stamp.ofUnixRatio)
  | .date d => .ok ⟨d, ⟨0, 0, 0, 0⟩, none⟩
  | .moment m => .ok m
  | _ => .fault .moment

def optional (read : Reader α) : Reader (Option α)
  | .null => .ok none
  | v => (read v).map some

def elements? : Value → Option (List Value)
  | .list xs => some xs
  | .tuple xs => some xs
  | .set xs => some xs
  | _ => none

def listOf (kind : FaultKind) (read : Reader α) (v : Value) : Checked (List α) :=
  match elements? v with
  | some xs => .all read 0 xs
  | none => .fault kind

-- the text form of a map's key in a path
def keyStep : Value → Step
  | .str s => .name s
  | .bool b => .index (if b then 1 else 0)
  | .int i =>
    if -9223372036854775808 ≤ i && i < 9223372036854775808 then .index i else .name (toString i)
  | v => .name v.quoted

def entriesOf (read : Reader α) : List (Value × Value) → Checked (List (String × α))
  | [] => .ok []
  | (k, v) :: es =>
    let key := ((string k).within (.name "[key]")).within (keyStep k)
    let value := (read v).within (keyStep k)
    (List.cons <$> (Prod.mk <$> key <*> value)) <*> entriesOf read es

def mapOf (read : Reader α) : Reader (List (String × α))
  | .map es => entriesOf read es
  | _ => .fault .dictType

abbrev Entries := List (Value × Value)

def required (name : String) (read : Reader α) (es : Entries) : Checked α :=
  match Value.field? name es with
  | some v => (read v).within (.name name)
  | none => (Checked.fault .missing).within (.name name)

def withDefault (name : String) (default : α) (read : Reader α) (es : Entries) : Checked α :=
  match Value.field? name es with
  | some v => (read v).within (.name name)
  | none => .ok default

-- a field with two names: the first one given wins
def requiredAs (first second : String) (read : Reader α) (es : Entries) : Checked α :=
  if Value.hasField first es || !Value.hasField second es then required first read es
  else required second read es

def aliased (first second : String) (default : α) (read : Reader α) (es : Entries) : Checked α :=
  if Value.hasField first es then withDefault first default read es
  else withDefault second default read es

def record (read : Entries → Checked α) : Reader α
  | .map es => read es
  | _ => .fault .modelType

end Tabletop.Field

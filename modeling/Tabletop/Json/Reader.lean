import Tabletop.Text.Integer
import Tabletop.Value

set_option autoImplicit false

namespace Tabletop.Json

inductive Problem where
  | expectingValue
  | expectingName
  | expectingColon
  | expectingComma
  | extraData
  | unterminatedText
  | controlCharacter
  | badEscape
  | badUnicodeEscape
  | byteOrderMark
deriving DecidableEq, Repr

def Problem.message : Problem → String
  | .expectingValue => "Expecting value"
  | .expectingName => "Expecting property name enclosed in double quotes"
  | .expectingColon => "Expecting ':' delimiter"
  | .expectingComma => "Expecting ',' delimiter"
  | .extraData => "Extra data"
  | .unterminatedText => "Unterminated string starting at"
  | .controlCharacter => "Invalid control character at"
  | .badEscape => "Invalid \\escape"
  | .badUnicodeEscape => "Invalid \\uXXXX escape"
  | .byteOrderMark => "Unexpected UTF-8 BOM (decode using utf-8-sig)"

inductive ReadFault where
  | problem (kind : Problem) (position : Nat)
  | longNumber (digits : Nat)
deriving DecidableEq, Repr

-- the line and column of a position, both from one
def lineAndColumn (text : List Char) (position : Nat) : Nat × Nat :=
  let before := text.take position
  (before.count '\n' + 1, (before.reverse.takeWhile (· != '\n')).length + 1)

def located (kind : Problem) (text : String) (position : Nat) : String :=
  let (line, column) := lineAndColumn text.toList position
  kind.message ++ ": line " ++ toString line ++ " column " ++ toString column ++
    " (char " ++ toString position ++ ")"

def isSpace (c : Char) : Bool :=
  c = ' ' || c = '\t' || c = '\n' || c = '\r'

def skipSpace (position : Nat) : List Char → Nat × List Char
  | [] => (position, [])
  | c :: rest => if isSpace c then skipSpace (position + 1) rest else (position, c :: rest)

def isHighSurrogate (n : Nat) : Bool :=
  0xD800 ≤ n && n ≤ 0xDBFF

def isLowSurrogate (n : Nat) : Bool :=
  0xDC00 ≤ n && n ≤ 0xDFFF

def joinSurrogates (high low : Nat) : Char :=
  Char.ofNat (0x10000 + (high - 0xD800) * 0x400 + (low - 0xDC00))

-- Half of a surrogate pair alone is kept by a reader whose texts may hold it. A text here is of characters
-- and cannot, so records with such an escape are outside of this model; a stand-in marks the place.
def unitChar (n : Nat) : Char :=
  if isHighSurrogate n || isLowSurrogate n then Char.ofNat 0xFFFD else Char.ofNat n

def simpleEscape? : Char → Option Char
  | '"' => some '"'
  | '\\' => some '\\'
  | '/' => some '/'
  | 'b' => some (Char.ofNat 8)
  | 'f' => some (Char.ofNat 12)
  | 'n' => some '\n'
  | 'r' => some '\r'
  | 't' => some '\t'
  | _ => none

def secondUnit : List Char → Option (Option Nat × List Char)
  | '\\' :: 'u' :: e :: f :: g :: h :: rest =>
    if rest.isEmpty then none else some (Text.hexNumber? [e, f, g, h], rest)
  | _ => none

-- after the opening quote at `start`; `fuel` bounds the characters read
def readText (start : Nat) : Nat → Nat → List Char → List Char →
    Except ReadFault (String × Nat × List Char)
  | 0, _, _, _ => .error (.problem .unterminatedText start)
  | _ + 1, _, _, [] => .error (.problem .unterminatedText start)
  | _ + 1, position, acc, '"' :: rest => .ok (String.ofList acc.reverse, position + 1, rest)
  | _ + 1, _, _, ['\\'] => .error (.problem .unterminatedText start)
  | fuel + 1, position, acc, '\\' :: 'u' :: rest =>
    match Text.hexNumber? (rest.take 4), rest.drop 4 with
    | _, [] => .error (.problem .badUnicodeEscape (position + 1))
    | none, _ => .error (.problem .badUnicodeEscape (position + 1))
    | some n, rest =>
      match if isHighSurrogate n then secondUnit rest else none with
      | some (none, _) => .error (.problem .badUnicodeEscape (position + 7))
      | some (some m, rest') =>
        if isLowSurrogate m then
          readText start fuel (position + 12) (joinSurrogates n m :: acc) rest'
        else readText start fuel (position + 6) (unitChar n :: acc) rest
      | none => readText start fuel (position + 6) (unitChar n :: acc) rest
  | fuel + 1, position, acc, '\\' :: c :: rest =>
    match simpleEscape? c with
    | some e => readText start fuel (position + 2) (e :: acc) rest
    | none => .error (.problem .badEscape position)
  | fuel + 1, position, acc, c :: rest =>
    if c.toNat < 32 then .error (.problem .controlCharacter position)
    else readText start fuel (position + 1) (c :: acc) rest

def dropSign (cs : List Char) : List Char :=
  match cs with
  | '-' :: r => r
  | '+' :: r => r
  | r => r

-- the length of the exponent part, zero if there is none
def exponentLength : List Char → Nat
  | c :: r =>
    if c = 'e' || c = 'E' then
      let signed := dropSign r
      let ds := signed.takeWhile Decimal.isAsciiDigit
      if ds.isEmpty then 0 else 1 + (r.length - signed.length) + ds.length
    else 0
  | [] => 0

def fractionLength : List Char → Nat
  | '.' :: r =>
    let ds := r.takeWhile Decimal.isAsciiDigit
    if ds.isEmpty then 0 else 1 + ds.length
  | _ => 0

def wholeLength : List Char → Nat
  | '0' :: _ => 1
  | r => (r.takeWhile Decimal.isAsciiDigit).length

def readNumber (position : Nat) (cs : List Char) : Except ReadFault (Value × Nat × List Char) :=
  let sign := match cs with
    | '-' :: _ => 1
    | _ => 0
  let whole := wholeLength (cs.drop sign)
  if whole = 0 then .error (.problem .expectingValue position)
  else
    let fraction := fractionLength (cs.drop (sign + whole))
    let exponent := exponentLength (cs.drop (sign + whole + fraction))
    let length := sign + whole + fraction + exponent
    let text := cs.take length
    let rest := cs.drop length
    if fraction + exponent = 0 then
      if Text.maxDigits < whole then .error (.longNumber whole)
      else
        let n : Int := Decimal.readNat (text.drop sign)
        .ok (.int (if sign = 1 then -n else n), position + length, rest)
    else
      match Decimal.parse? text with
      | some d => .ok (.float d.toDouble, position + length, rest)
      | none => .error (.problem .expectingValue position)

def words : List (List Char × Value) :=
  [("null".toList, .null), ("true".toList, .bool true), ("false".toList, .bool false),
    ("NaN".toList, .float .nan), ("Infinity".toList, .float (.infinite false)),
    ("-Infinity".toList, .float (.infinite true))]

def readWord? (cs : List Char) : Option (Value × Nat × List Char) :=
  (words.find? fun w => w.1.isPrefixOf cs).map fun w => (w.2, w.1.length, cs.drop w.1.length)

mutual
def readValue : Nat → Nat → List Char → Except ReadFault (Value × Nat × List Char)
  | 0, position, _ => .error (.problem .expectingValue position)
  | fuel + 1, position, cs =>
    match cs with
    | [] => .error (.problem .expectingValue position)
    | '"' :: rest => do
      let (s, position, rest) ← readText position (rest.length + 1) (position + 1) [] rest
      return (.str s, position, rest)
    | '{' :: rest =>
      match skipSpace (position + 1) rest with
      | (position, '}' :: rest) => .ok (.map [], position + 1, rest)
      | (position, rest) => readMembers fuel position [] rest
    | '[' :: rest =>
      match skipSpace (position + 1) rest with
      | (position, ']' :: rest) => .ok (.list [], position + 1, rest)
      | (position, rest) => readItems fuel position [] rest
    | _ =>
      match readWord? cs with
      | some (v, length, rest) => .ok (v, position + length, rest)
      | none => readNumber position cs

def readMembers : Nat → Nat → List (Value × Value) → List Char →
    Except ReadFault (Value × Nat × List Char)
  | 0, position, _, _ => .error (.problem .expectingName position)
  | fuel + 1, position, acc, cs =>
    match cs with
    | '"' :: rest => do
      let (name, position, rest) ← readText position (rest.length + 1) (position + 1) [] rest
      match skipSpace position rest with
      | (position, ':' :: rest) =>
        let (position, rest) := skipSpace (position + 1) rest
        let (v, position, rest) ← readValue fuel position rest
        let acc := (.str name, v) :: acc
        match skipSpace position rest with
        | (position, '}' :: rest) => return (.mapOf acc.reverse, position + 1, rest)
        | (position, ',' :: rest) =>
          let (position, rest) := skipSpace (position + 1) rest
          readMembers fuel position acc rest
        | (position, _) => .error (.problem .expectingComma position)
      | (position, _) => .error (.problem .expectingColon position)
    | _ => .error (.problem .expectingName position)

def readItems : Nat → Nat → List Value → List Char → Except ReadFault (Value × Nat × List Char)
  | 0, position, _, _ => .error (.problem .expectingValue position)
  | fuel + 1, position, acc, cs => do
    let (v, position, rest) ← readValue fuel position cs
    let acc := v :: acc
    match skipSpace position rest with
    | (position, ']' :: rest) => return (.list acc.reverse, position + 1, rest)
    | (position, ',' :: rest) =>
      let (position, rest) := skipSpace (position + 1) rest
      readItems fuel position acc rest
    | (position, _) => .error (.problem .expectingComma position)
end

def parse (text : String) : Except ReadFault Value :=
  let cs := text.toList
  if cs.head? = some (Char.ofNat 0xFEFF) then .error (.problem .byteOrderMark 0)
  else do
    let (position, rest) := skipSpace 0 cs
    let (v, position, rest) ← readValue (2 * cs.length + 2) position rest
    match skipSpace position rest with
    | (_, []) => return v
    | (position, _) => .error (.problem .extraData position)

end Tabletop.Json

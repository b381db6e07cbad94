import Tabletop.Json.Reader
import Tabletop.Yaml.Cursor

set_option autoImplicit false

namespace Tabletop.Yaml

open Cursor

-- the first break of several lines, folded
def foldBreak (first : Char) (more : List Char) : List Char :=
  if first ≠ '\n' then first :: more else if more.isEmpty then [' '] else more

namespace Plain

def isFlowMark (c : Char) : Bool :=
  c = ',' || c = '[' || c = ']' || c = '{' || c = '}'

-- the part of a plain scalar up to the next gap
def word (flow : Bool) : List Char → List Char
  | [] => []
  | c :: rest =>
    let next := rest.headD endMark
    if isGap c then []
    else if c = ':' && (isGap next || (flow && isFlowMark next)) then []
    else if flow && (isFlowMark c || c = '?') then []
    else c :: word flow rest

-- blank lines and indentation, up to a separator of documents
def breaks : Nat → List Char → Cursor → Option (List Char) × Cursor
  | 0, acc, c => (some acc.reverse, c)
  | fuel + 1, acc, c =>
    if c.peek = ' ' then breaks fuel acc c.step
    else
      match c.lineBreak? with
      | none => (some acc.reverse, c)
      | some (b, c) => if c.atSeparator then (none, c) else breaks fuel (b :: acc) c

/-- What stands between two words of a scalar, and whether it breaks the line. -/
structure Gap where
  text : List Char
  broken : Bool
  cursor : Cursor

def gap (c : Cursor) : Gap :=
  let (blanks, c) := c.takeWhile (· = ' ')
  match c.lineBreak? with
  | none => ⟨blanks, false, c⟩
  | some (b, c) =>
    if c.atSeparator then ⟨[], true, c⟩
    else
      match breaks (c.rest.length + 1) [] c with
      | (none, c) => ⟨[], true, c⟩
      | (some more, c) => ⟨foldBreak b more, true, c⟩

structure Scanned where
  text : String
  broken : Bool
  cursor : Cursor

def Scanned.of (acc : List Char) (broken : Bool) (c : Cursor) : Scanned :=
  ⟨String.ofList acc.reverse, broken, c⟩

def words (flow : Bool) (indent : Int) : Nat → List Char → Gap → Scanned
  | 0, acc, g => .of acc g.broken g.cursor
  | fuel + 1, acc, g =>
    if g.cursor.peek = '#' then .of acc g.broken g.cursor
    else
      let run := word flow g.cursor.rest
      if run.isEmpty then .of acc g.broken g.cursor
      else
        let acc := run.reverse ++ g.text.reverse ++ acc
        let next := gap (g.cursor.skip run.length)
        if next.text.isEmpty || (!flow && next.cursor.column < indent) then
          .of acc next.broken next.cursor
        else words flow indent fuel acc next

/-- A plain scalar, in a flow collection or in lines indented by at least `indent`. -/
def scan (flow : Bool) (indent : Int) (c : Cursor) : Scanned :=
  words flow indent (c.rest.length + 1) [] ⟨[], false, c⟩

end Plain

namespace Quoted

def simpleEscape? : Char → Option Char
  | '0' => some endMark
  | 'a' => some (Char.ofNat 7)
  | 'b' => some (Char.ofNat 8)
  | 't' => some '\t'
  | '\t' => some '\t'
  | 'n' => some '\n'
  | 'v' => some (Char.ofNat 11)
  | 'f' => some (Char.ofNat 12)
  | 'r' => some '\r'
  | 'e' => some (Char.ofNat 27)
  | ' ' => some ' '
  | '"' => some '"'
  | '\\' => some '\\'
  | '/' => some '/'
  | 'N' => some nextLine
  | '_' => some (Char.ofNat 0xA0)
  | 'L' => some lineSeparator
  | 'P' => some paragraphSeparator
  | _ => none

def codeLength? : Char → Option Nat
  | 'x' => some 2
  | 'u' => some 4
  | 'U' => some 8
  | _ => none

-- the character of a number, if there is one
def charOf (n : Nat) : Except Fault Char :=
  if n < 0x110000 then .ok (Json.unitChar n)
  else if n < Nat.pow 2 31 then .error (.broken (.badValue "chr() arg not in range(0x110000)"))
  else .error (.broken .infiniteNumber)

def code (length : Nat) (c : Cursor) : Except Fault (Char × Cursor) :=
  let digits := c.rest.take length
  match Text.hexNumber? digits with
  | some n =>
    if digits.length = length then (charOf n).map (·, c.skip length) else .error .malformed
  | none => .error .malformed

-- the breaks of the lines that follow a line break, without their indentation
def breaks : Nat → List Char → Cursor → Except Fault (List Char × Cursor)
  | 0, _, _ => .error .malformed
  | fuel + 1, acc, c =>
    if c.atSeparator then .error .malformed
    else
      let c := c.skipWhile fun ch => ch = ' ' || ch = '\t'
      match c.lineBreak? with
      | some (b, c) => breaks fuel (b :: acc) c
      | none => .ok (acc.reverse, c)

def breaksOf (c : Cursor) : Except Fault (List Char × Cursor) :=
  breaks (c.rest.length + 1) [] c

def isOrdinary (c : Char) : Bool :=
  !(isGap c || c = '\'' || c = '"' || c = '\\')

-- after a backslash
def escape (c : Cursor) : Except Fault (List Char × Cursor) :=
  match simpleEscape? c.peek, codeLength? c.peek with
  | some e, _ => .ok ([e], c.step)
  | none, some length => (code length c.step).map fun r => ([r.1], r.2)
  | none, none =>
    match c.lineBreak? with
    | some (_, c) => breaksOf c
    | none => .error .malformed

-- blanks before the end of a line are dropped, others are kept
def spaces (c : Cursor) : Except Fault (List Char × Cursor) := do
  let (blanks, c) := c.takeWhile fun ch => ch = ' ' || ch = '\t'
  if c.rest.isEmpty then .error .malformed
  else
    match c.lineBreak? with
    | none => return (blanks, c)
    | some (b, c) =>
      let (more, c) ← breaksOf c
      return (foldBreak b more, c)

-- the text up to the closing quote
def body (double : Bool) : Nat → List Char → Cursor → Except Fault (List Char × Cursor)
  | 0, _, _ => .error .malformed
  | fuel + 1, acc, c =>
    let ch := c.peek
    if isOrdinary ch then
      let (run, c) := c.takeWhile isOrdinary
      body double fuel (run.reverse ++ acc) c
    else if ch = '\'' then
      if double then body double fuel ('\'' :: acc) c.step
      else if c.peekAt 1 = '\'' then body double fuel ('\'' :: acc) (c.skip 2)
      else .ok (acc.reverse, c.step)
    else if ch = '"' then
      if double then .ok (acc.reverse, c.step) else body double fuel ('"' :: acc) c.step
    else if ch = '\\' then
      if double then do
        let (cs, c) ← escape c.step
        body double fuel (cs.reverse ++ acc) c
      else body double fuel ('\\' :: acc) c.step
    else do
      let (cs, c) ← spaces c
      body double fuel (cs.reverse ++ acc) c

/-- A quoted scalar; the cursor is at its opening quote. -/
def scan (double : Bool) (c : Cursor) : Except Fault (String × Cursor) :=
  (body double (c.rest.length + 1) [] c.step).map fun r => (String.ofList r.1, r.2)

end Quoted

namespace Block

/-- What becomes of the breaks at the end of a block. -/
inductive Chomping where
  | strip
  | clip
  | keep
deriving DecidableEq

structure Header where
  chomping : Chomping
  increment : Option Nat

def chompingOf? : Char → Option Chomping
  | '+' => some .keep
  | '-' => some .strip
  | _ => none

def incrementAt (c : Cursor) : Except Fault (Option Nat × Cursor) :=
  if Decimal.isAsciiDigit c.peek then
    if c.peek = '0' then .error .malformed else .ok (some (Decimal.digitOf c.peek), c.step)
  else .ok (none, c)

def chompingAt (c : Cursor) : Option Chomping × Cursor :=
  match chompingOf? c.peek with
  | some k => (some k, c.step)
  | none => (none, c)

-- the two marks may stand in either order
def header (c : Cursor) : Except Fault (Header × Cursor) := do
  let (first, c) := chompingAt c
  let (increment, c) ← incrementAt c
  let (chomping, c) := if first.isNone && increment.isSome then chompingAt c else (first, c)
  if isSpaceOrEnd c.peek then
    return (⟨chomping.getD .clip, increment⟩, ← c.restOfLine)
  else .error .malformed

-- the blank lines in front, and the deepest column on the way to the first line with text
def leading : Nat → List Char → Nat → Cursor → List Char × Nat × Cursor
  | 0, acc, deepest, c => (acc.reverse, deepest, c)
  | fuel + 1, acc, deepest, c =>
    if c.peek = ' ' then leading fuel acc (max deepest c.step.column) c.step
    else
      match c.lineBreak? with
      | some (b, c) => leading fuel (b :: acc) deepest c
      | none => (acc.reverse, deepest, c)

def indentation (indent : Nat) (c : Cursor) : Cursor :=
  c.skip ((c.rest.take (indent - c.column)).takeWhile (· = ' ')).length

def breaks (indent : Nat) : Nat → List Char → Cursor → List Char × Cursor
  | 0, acc, c => (acc.reverse, c)
  | fuel + 1, acc, c =>
    match c.lineBreak? with
    | some (b, c) => breaks indent fuel (b :: acc) (indentation indent c)
    | none => (acc.reverse, c)

def breaksOf (indent : Nat) (c : Cursor) : List Char × Cursor :=
  breaks indent (c.rest.length + 1) [] (indentation indent c)

def isBlank (c : Char) : Bool :=
  c = ' ' || c = '\t'

-- the text so far, reversed, and the breaks that may still belong to it
structure Lines where
  acc : List Char
  lastBreak : List Char
  breaks : List Char
  cursor : Cursor

def hasLine (indent : Nat) (c : Cursor) : Bool :=
  c.column = indent && !c.rest.isEmpty

-- a break between two lines that begin with text folds into a blank
def joint (folded leadingText : Bool) (lastBreak breaks : List Char) (next : Cursor) : List Char :=
  if folded && lastBreak = ['\n'] && leadingText && !isBlank next.peek then
    if breaks.isEmpty then [' '] else []
  else lastBreak

def lines (folded : Bool) (indent : Nat) : Nat → List Char → List Char → Cursor → Lines
  | 0, acc, pending, c => ⟨acc, [], pending, c⟩
  | fuel + 1, acc, pending, c =>
    if hasLine indent c then
      let leadingText := !isBlank c.peek
      let (run, c) := c.takeWhile fun ch => !isLineEnd ch
      let acc := run.reverse ++ pending.reverse ++ acc
      let (lastBreak, c) := match c.lineBreak? with
        | some (b, c) => ([b], c)
        | none => ([], c)
      let (more, c) := breaksOf indent c
      if hasLine indent c then
        lines folded indent fuel ((joint folded leadingText lastBreak more c).reverse ++ acc) more c
      else ⟨acc, lastBreak, more, c⟩
    else ⟨acc, [], pending, c⟩

def chomp (k : Chomping) (l : Lines) : List Char :=
  l.acc.reverse ++
    match k with
    | .strip => []
    | .clip => l.lastBreak
    | .keep => l.lastBreak ++ l.breaks

/-- A block scalar inside lines indented by `parent`; the cursor is at its mark. -/
def scan (folded : Bool) (parent : Int) (c : Cursor) : Except Fault (String × Cursor) := do
  let (h, c) ← header c.step
  let least := (max (parent + 1) 1).toNat
  let (pending, indent, c) :=
    match h.increment with
    | some n =>
      let indent := least + n - 1
      let (pending, c) := breaksOf indent c
      (pending, indent, c)
    | none =>
      let (pending, deepest, c) := leading (c.rest.length + 1) [] 0 c
      (pending, max least deepest, c)
  let l := lines folded indent (c.rest.length + 1) [] pending c
  return (String.ofList (chomp h.chomping l), l.cursor)

end Block

end Tabletop.Yaml

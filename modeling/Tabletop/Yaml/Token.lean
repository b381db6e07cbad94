import Tabletop.Text.Quoted
import Tabletop.Yaml.Scalar

/-!
Tokens. Indentation gives the starts and ends of block collections. A word on one line may turn out to be
a key when a colon follows it, so the places of possible keys are kept until then.
-/

set_option autoImplicit false

namespace Tabletop.Yaml

inductive Token where
  | version (major : Nat)
  | handle (name lead : String)
  | reserved
  | documentStart
  | documentEnd
  | blockSequenceStart
  | blockMappingStart
  | blockEnd
  | flowSequenceStart
  | flowMappingStart
  | flowSequenceEnd
  | flowMappingEnd
  | blockEntry
  | flowEntry
  | key
  | value
  | alias (name : String)
  | anchor (name : String)
  | tag (handle : Option String) (suffix : String)
  | scalar (text : String) (plain : Bool)
deriving DecidableEq, Repr

def reject {α : Type} : Except Fault α :=
  .error .malformed

-- names and tags

def isUriChar (c : Char) : Bool :=
  c.isAlphanum || "-;/?:@&=+$,_.!~*'()[]%".toList.contains c

def name (c : Cursor) : Except Fault (String × Cursor) :=
  let (run, c) := c.takeWhile isNameChar
  if run.isEmpty then reject else .ok (String.ofList run, c)

def reference (c : Cursor) : Except Fault (String × Cursor) := do
  let (s, c) ← name c.step
  if isGap c.peek || "?:,]\x7d%@\x60".toList.contains c.peek then return (s, c) else reject

def escapedBytes : Nat → List UInt8 → Cursor → Except Fault (List UInt8 × Cursor)
  | 0, _, _ => reject
  | fuel + 1, acc, c =>
    if c.peek ≠ '%' then .ok (acc.reverse, c)
    else
      match Text.hexNumber? ((c.rest.drop 1).take 2), (c.rest.drop 2).isEmpty with
      | some n, false => escapedBytes fuel (n.toUInt8 :: acc) (c.skip 3)
      | _, _ => reject

def uriText : Nat → List Char → Cursor → Except Fault (List Char × Cursor)
  | 0, _, _ => reject
  | fuel + 1, acc, c =>
    if c.peek = '%' then do
      let (bytes, c) ← escapedBytes (c.rest.length + 1) [] c
      match Text.ofUtf8? bytes with
      | some s => uriText fuel (s.toList.reverse ++ acc) c
      | none => reject
    else if isUriChar c.peek then uriText fuel (c.peek :: acc) c.step
    else .ok (acc.reverse, c)

def uri (c : Cursor) : Except Fault (String × Cursor) := do
  let (cs, next) ← uriText (c.rest.length + 1) [] c
  if next.index = c.index then reject else return (String.ofList cs, next)

-- an exclamation mark, alone or around a name
def tagHandle (c : Cursor) : Except Fault (String × Cursor) :=
  if c.peek ≠ '!' then reject
  else if c.peekAt 1 = ' ' then .ok ("!", c.step)
  else
    let run := (c.rest.drop 1).takeWhile isNameChar
    if c.peekAt (run.length + 1) = '!' then
      .ok (String.ofList ('!' :: run ++ ['!']), c.skip (run.length + 2))
    else reject

def hasSecondMark (c : Cursor) : Bool :=
  ((c.rest.drop 1).takeWhile fun ch => !isSpaceOrEnd ch).contains '!'

def tagParts (c : Cursor) : Except Fault ((Option String × String) × Cursor) :=
  if c.peekAt 1 = '<' then do
    let (suffix, c) ← uri (c.skip 2)
    if c.peek = '>' then return ((none, suffix), c.step) else reject
  else if isGap (c.peekAt 1) then .ok ((none, "!"), c.step)
  else do
    let (handle, c) ← if hasSecondMark c then tagHandle c else .ok ("!", c.step)
    let (suffix, c) ← uri c
    return ((some handle, suffix), c)

def tagToken (c : Cursor) : Except Fault (Token × Cursor) := do
  let ((handle, suffix), c) ← tagParts c
  if isSpaceOrEnd c.peek then return (.tag handle suffix, c) else reject

-- directives

def digits (c : Cursor) : Except Fault (Nat × Cursor) :=
  let (run, c) := c.takeWhile Decimal.isAsciiDigit
  if run.isEmpty then reject else .ok (Decimal.readNat run, c)

def skipSpaces (c : Cursor) : Cursor :=
  c.skipWhile (· = ' ')

def versionToken (c : Cursor) : Except Fault (Token × Cursor) := do
  let (major, c) ← digits (skipSpaces c)
  if c.peek ≠ '.' then reject
  else
    let (_, c) ← digits c.step
    if isSpaceOrEnd c.peek then return (.version major, c) else reject

def handleToken (c : Cursor) : Except Fault (Token × Cursor) := do
  let (handle, c) ← tagHandle (skipSpaces c)
  if c.peek ≠ ' ' then reject
  else
    let (lead, c) ← uri (skipSpaces c)
    if isSpaceOrEnd c.peek then return (.handle handle lead, c) else reject

def directive (c : Cursor) : Except Fault (Token × Cursor) := do
  let (s, c) ← name c.step
  if !isSpaceOrEnd c.peek then reject
  else
    let (token, c) ←
      if s = "YAML" then versionToken c
      else if s = "TAG" then handleToken c
      else .ok (.reserved, c.skipWhile fun ch => !isLineEnd ch)
    return (token, ← c.restOfLine)

/-- A place where a key may have begun; `required` if the block cannot go on without one. -/
structure PossibleKey where
  token : Nat
  required : Bool
  index : Nat
  line : Nat
  column : Nat

structure Lexer where
  cursor : Cursor
  flow : Nat
  indent : Int
  outer : List Int
  allowKey : Bool
  keys : List (Nat × PossibleKey)
  count : Nat
  tokens : List Token
  inserted : List (Nat × List Token)

namespace Lexer

def start (text : String) : Lexer :=
  { cursor := .start text.toList
    flow := 0
    indent := -1
    outer := []
    allowKey := true
    keys := []
    count := 0
    tokens := []
    inserted := [] }

def emit (l : Lexer) (t : Token) : Lexer :=
  { l with tokens := t :: l.tokens, count := l.count + 1 }

-- a token in front of one that was met before
def insertAt (l : Lexer) (place : Nat) (ts : List Token) : Lexer :=
  { l with inserted := (place, ts) :: l.inserted }

def inFlow (l : Lexer) : Bool :=
  0 < l.flow

def column (l : Lexer) : Int :=
  l.cursor.column

def keyHere? (l : Lexer) : Option PossibleKey :=
  l.keys.lookup l.flow

def withoutKey (l : Lexer) : Lexer :=
  { l with keys := l.keys.filter fun k => k.1 ≠ l.flow }

-- gives up the possible key of this level
def dropKey (l : Lexer) : Except Fault Lexer :=
  match l.keyHere? with
  | some k => if k.required then reject else .ok l.withoutKey
  | none => .ok l

def saveKey (l : Lexer) : Except Fault Lexer :=
  if l.allowKey then do
    let l ← l.dropKey
    let k : PossibleKey :=
      { token := l.count
        required := !l.inFlow && l.indent = l.column
        index := l.cursor.index
        line := l.cursor.line
        column := l.cursor.column }
    return { l with keys := (l.flow, k) :: l.keys }
  else .ok l

def longestKey : Nat := 1024

def isStale (l : Lexer) (k : PossibleKey) : Bool :=
  k.line ≠ l.cursor.line || longestKey < l.cursor.index - k.index

-- a key stands on one line and is not long
def dropStale (l : Lexer) : Except Fault Lexer :=
  if l.keys.any fun k => l.isStale k.2 && k.2.required then reject
  else .ok { l with keys := l.keys.filter fun k => !l.isStale k.2 }

def unwindBy (column : Int) : List Int → Lexer → Lexer
  | [], l => l
  | i :: rest, l =>
    if column < l.indent then unwindBy column rest { l.emit .blockEnd with indent := i, outer := rest }
    else l

-- ends the blocks that are indented further
def unwind (column : Int) (l : Lexer) : Lexer :=
  if l.inFlow then l else unwindBy column l.outer l

def indentTo (column : Int) (l : Lexer) : Option Lexer :=
  if l.indent < column then some { l with outer := l.indent :: l.outer, indent := column } else none

def toNextToken : Nat → Lexer → Lexer
  | 0, l => l
  | fuel + 1, l =>
    let c := (skipSpaces l.cursor).skipComment
    match c.lineBreak? with
    | some (_, c) =>
      toNextToken fuel { l with cursor := c, allowKey := l.allowKey || !l.inFlow }
    | none => { l with cursor := c }

def skipMark (l : Lexer) : Lexer :=
  if l.cursor.index = 0 && l.cursor.peek = byteOrderMark then { l with cursor := l.cursor.step }
  else l

def advance (l : Lexer) (n : Nat) (t : Token) : Lexer :=
  { l with cursor := l.cursor.skip n }.emit t

-- a mark between documents
def boundary (n : Nat) (t : Token) (l : Lexer) : Except Fault Lexer := do
  let l ← (l.unwind (-1)).dropKey
  return { l with allowKey := false }.advance n t

def readDirective (l : Lexer) : Except Fault Lexer := do
  let l ← (l.unwind (-1)).dropKey
  let (t, c) ← directive l.cursor
  return { l with allowKey := false, cursor := c }.emit t

def openFlow (t : Token) (l : Lexer) : Except Fault Lexer := do
  let l ← l.saveKey
  return { l with flow := l.flow + 1, allowKey := true }.advance 1 t

def closeFlow (t : Token) (l : Lexer) : Except Fault Lexer := do
  let l ← l.dropKey
  return { l with flow := l.flow - 1, allowKey := false }.advance 1 t

def flowEntry (l : Lexer) : Except Fault Lexer := do
  let l ← l.dropKey
  return { l with allowKey := true }.advance 1 .flowEntry

-- a mark that may begin a block collection at its column
def beginBlock (start : Token) (l : Lexer) : Except Fault Lexer :=
  if l.inFlow then .ok l
  else if !l.allowKey then reject
  else
    match l.indentTo l.column with
    | some l => .ok (l.emit start)
    | none => .ok l

def blockEntry (l : Lexer) : Except Fault Lexer := do
  let l ← l.beginBlock .blockSequenceStart
  let l ← l.dropKey
  return { l with allowKey := true }.advance 1 .blockEntry

def explicitKey (l : Lexer) : Except Fault Lexer := do
  let l ← l.beginBlock .blockMappingStart
  let l ← l.dropKey
  return { l with allowKey := !l.inFlow }.advance 1 .key

-- what was met at the place of the possible key is a key
def confirmKey (k : PossibleKey) (l : Lexer) : Lexer :=
  let l := l.withoutKey
  let begun := if l.inFlow then none else l.indentTo k.column
  let l := match begun with
    | some l => l.insertAt k.token [.blockMappingStart, .key]
    | none => l.insertAt k.token [.key]
  { l with allowKey := false }

def readValue (l : Lexer) : Except Fault Lexer :=
  match l.keyHere? with
  | some k => .ok ((l.confirmKey k).advance 1 .value)
  | none => do
    let l ← l.beginBlock .blockMappingStart
    let l ← { l with allowKey := !l.inFlow }.dropKey
    return l.advance 1 .value

-- a token that may be a key by itself
def keyLike (scan : Cursor → Except Fault (Token × Cursor)) (l : Lexer) : Except Fault Lexer := do
  let l ← l.saveKey
  let (t, c) ← scan l.cursor
  return { l with allowKey := false, cursor := c }.emit t

def readBlock (folded : Bool) (l : Lexer) : Except Fault Lexer := do
  let l ← { l with allowKey := true }.dropKey
  let (s, c) ← Block.scan folded l.indent l.cursor
  return { l with cursor := c }.emit (.scalar s false)

def readPlain (l : Lexer) : Except Fault Lexer := do
  let l ← l.saveKey
  let s := Plain.scan l.inFlow (l.indent + 1) l.cursor
  return { l with allowKey := s.broken, cursor := s.cursor }.emit (.scalar s.text true)

def quotedToken (double : Bool) (c : Cursor) : Except Fault (Token × Cursor) :=
  (Quoted.scan double c).map fun r => (.scalar r.1 false, r.2)

def indicators : List Char :=
  "-?:,[]\x7b\x7d#&*!|>'\"%@\x60".toList

def beginsPlain (l : Lexer) : Bool :=
  let ch := l.cursor.peek
  (!isGap ch && !indicators.contains ch) ||
    (!isGap (l.cursor.peekAt 1) && (ch = '-' || (!l.inFlow && (ch = '?' || ch = ':'))))

def atDocument (l : Lexer) (mark : String) : Bool :=
  l.cursor.column = 0 && l.cursor.startsWith mark && isGap (l.cursor.peekAt 3)

-- the marks that count anywhere in a flow, and only before a gap in a block
def isMark (l : Lexer) : Bool :=
  l.inFlow || isGap (l.cursor.peekAt 1)

def readOther (l : Lexer) : Except Fault Lexer :=
  if l.beginsPlain then l.readPlain else reject

def readToken (l : Lexer) : Except Fault Lexer :=
  match l.cursor.peek with
  | '%' => if l.cursor.column = 0 then l.readDirective else l.readOther
  | '[' => l.openFlow .flowSequenceStart
  | '{' => l.openFlow .flowMappingStart
  | ']' => l.closeFlow .flowSequenceEnd
  | '}' => l.closeFlow .flowMappingEnd
  | ',' => l.flowEntry
  | '-' =>
    if l.atDocument "---" then l.boundary 3 .documentStart
    else if isGap (l.cursor.peekAt 1) then l.blockEntry
    else l.readOther
  | '.' => if l.atDocument "..." then l.boundary 3 .documentEnd else l.readOther
  | '?' => if l.isMark then l.explicitKey else l.readOther
  | ':' => if l.isMark then l.readValue else l.readOther
  | '*' => l.keyLike fun c => (reference c).map fun r => (.alias r.1, r.2)
  | '&' => l.keyLike fun c => (reference c).map fun r => (.anchor r.1, r.2)
  | '!' => l.keyLike tagToken
  | '|' => if l.inFlow then l.readOther else l.readBlock false
  | '>' => if l.inFlow then l.readOther else l.readBlock true
  | '\'' => l.keyLike (quotedToken false)
  | '"' => l.keyLike (quotedToken true)
  | _ => l.readOther

-- the tokens in order, each insertion in front of its place
def splice : Nat → List (Nat × List Token) → List Token → List Token
  | _, inserts, [] => inserts.flatMap (·.2)
  | n, [], t :: ts => t :: splice (n + 1) [] ts
  | n, (place, more) :: inserts, t :: ts =>
    if place = n then more ++ t :: splice (n + 1) inserts ts
    else t :: splice (n + 1) ((place, more) :: inserts) ts

def allTokens (l : Lexer) : List Token :=
  splice 0 (l.inserted.mergeSort fun a b => a.1 ≤ b.1) l.tokens.reverse

def finish (l : Lexer) : Except Fault (List Token) := do
  let l ← (l.unwind (-1)).dropKey
  return l.allTokens

def run : Nat → Lexer → Except Fault (List Token)
  | 0, _ => reject
  | fuel + 1, l => do
    let l ← (toNextToken (l.cursor.rest.length + 1) l.skipMark).dropStale
    let l := l.unwind l.column
    if l.cursor.rest.isEmpty then l.finish
    else run fuel (← l.readToken)

end Lexer

def tokens (text : String) : Except Fault (List Token) :=
  Lexer.run (text.length + 2) (.start text)

end Tabletop.Yaml

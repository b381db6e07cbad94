import Tabletop.Value

set_option autoImplicit false

namespace Tabletop.Yaml

/-- Why a text gives no value: it is no YAML, or a value in it cannot be made. -/
inductive Fault where
  | malformed
  | broken (cause : Breakdown)
deriving DecidableEq, Repr

def endMark : Char := Char.ofNat 0
def nextLine : Char := Char.ofNat 0x85
def lineSeparator : Char := Char.ofNat 0x2028
def paragraphSeparator : Char := Char.ofNat 0x2029
def byteOrderMark : Char := Char.ofNat 0xFEFF

def isBreak (c : Char) : Bool :=
  c = '\n' || c = '\r' || c = nextLine || c = lineSeparator || c = paragraphSeparator

def isLineEnd (c : Char) : Bool :=
  c = endMark || isBreak c

def isSpaceOrEnd (c : Char) : Bool :=
  c = ' ' || isLineEnd c

-- what sets a word apart from what follows
def isGap (c : Char) : Bool :=
  c = '\t' || isSpaceOrEnd c

def isNameChar (c : Char) : Bool :=
  c.isAlphanum || c = '-' || c = '_'

structure Cursor where
  rest : List Char
  index : Nat
  line : Nat
  column : Nat

namespace Cursor

def start (cs : List Char) : Cursor :=
  ⟨cs, 0, 0, 0⟩

def peek (c : Cursor) : Char :=
  c.rest.headD endMark

def peekAt (c : Cursor) (n : Nat) : Char :=
  (c.rest.drop n).headD endMark

-- a carriage return before a line feed does not end the line by itself
def endsLine (ch : Char) (rest : List Char) : Bool :=
  if ch = '\r' then rest.head? ≠ some '\n' else isBreak ch

def step (c : Cursor) : Cursor :=
  match c.rest with
  | [] => c
  | ch :: rest =>
    if endsLine ch rest then ⟨rest, c.index + 1, c.line + 1, 0⟩
    else ⟨rest, c.index + 1, c.line, if ch = byteOrderMark then c.column else c.column + 1⟩

def skip : Nat → Cursor → Cursor
  | 0, c => c
  | n + 1, c => skip n c.step

def takeWhile (p : Char → Bool) (c : Cursor) : List Char × Cursor :=
  let run := c.rest.takeWhile p
  (run, c.skip run.length)

def skipWhile (p : Char → Bool) (c : Cursor) : Cursor :=
  (c.takeWhile p).2

-- a line break and the character that stands for it
def lineBreak? (c : Cursor) : Option (Char × Cursor) :=
  match c.rest with
  | '\r' :: '\n' :: _ => some ('\n', c.skip 2)
  | ch :: _ =>
    if ch = lineSeparator || ch = paragraphSeparator then some (ch, c.step)
    else if isBreak ch then some ('\n', c.step)
    else none
  | [] => none

def skipComment (c : Cursor) : Cursor :=
  if c.peek = '#' then c.skipWhile fun ch => !isLineEnd ch else c

def startsWith (text : String) (c : Cursor) : Bool :=
  text.toList.isPrefixOf c.rest

-- three dashes or points that stand alone
def atSeparator (c : Cursor) : Bool :=
  (c.startsWith "---" || c.startsWith "...") && isGap (c.peekAt 3)

-- blanks and a comment up to the end of the line, and the break there
def restOfLine (c : Cursor) : Except Fault Cursor :=
  let c := (c.skipWhile (· = ' ')).skipComment
  if isLineEnd c.peek then .ok ((c.lineBreak?.map (·.2)).getD c) else .error .malformed

end Cursor

end Tabletop.Yaml

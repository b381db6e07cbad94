import Tabletop.Value.Text

set_option autoImplicit false

namespace Tabletop.Json

def hex4 (n : Nat) : List Char :=
  '\\' :: 'u' :: Text.hexDigits 4 n

def escapeChar (c : Char) : List Char :=
  if c = '"' || c = '\\' then ['\\', c]
  else if c = '\n' then ['\\', 'n']
  else if c = '\r' then ['\\', 'r']
  else if c = '\t' then ['\\', 't']
  else if c.toNat = 12 then ['\\', 'f']
  else if c.toNat = 8 then ['\\', 'b']
  else if 32 ≤ c.toNat && c.toNat < 127 then [c]
  else if c.toNat < 0x10000 then hex4 c.toNat
  else
    let n := c.toNat - 0x10000
    hex4 (0xD800 + n / 0x400) ++ hex4 (0xDC00 + n % 0x400)

def textForm (s : String) : String :=
  String.ofList ('"' :: s.toList.flatMap escapeChar ++ ['"'])

def floatForm : Double → String
  | .nan => "NaN"
  | .infinite negative => if negative then "-Infinity" else "Infinity"
  | d => d.text

def memberName? : Value → Option String
  | .str s => some s
  | .null => some "null"
  | .bool b => some (if b then "true" else "false")
  | .int i => some (toString i)
  | .float d => some (floatForm d)
  | _ => none

mutual
-- the document as JSON can hold it; names that become equal stay apart
def plain : Value → Except Breakdown Value
  | .list xs => do return .list (← plainAll xs)
  | .tuple xs => do return .list (← plainAll xs)
  | .map es => do return .map (← plainEntries es)
  | .null => .ok .null
  | .bool b => .ok (.bool b)
  | .int i => .ok (.int i)
  | .float d => .ok (.float d)
  | v => .ok (.str v.text)

def plainAll : List Value → Except Breakdown (List Value)
  | [] => .ok []
  | x :: xs => do return (← plain x) :: (← plainAll xs)

def plainEntries : List (Value × Value) → Except Breakdown (List (Value × Value))
  | [] => .ok []
  | (k, v) :: es =>
    match memberName? k with
    | none => .error .unwritableKey
    | some name => do return (.str name, ← plain v) :: (← plainEntries es)
end

mutual
-- what reading the written text gives: of members with one name the last value
def readBack : Value → Value
  | .list xs => .list (readBackAll xs)
  | .map es => .mapOf (readBackEntries es)
  | v => v

def readBackAll : List Value → List Value
  | [] => []
  | x :: xs => readBack x :: readBackAll xs

def readBackEntries : List (Value × Value) → List (Value × Value)
  | [] => []
  | (k, v) :: es => (k, readBack v) :: readBackEntries es
end

def allText : List (Value × Value) → Bool
  | [] => true
  | (.str _, _) :: es => allText es
  | _ => false

def numberLess (a b : Value) : Bool :=
  match a, b with
  | .float (.infinite s), .float (.infinite t) => s && !t
  | .float (.infinite s), _ => s
  | _, .float (.infinite t) => !t
  | _, _ =>
    match a.ratio?, b.ratio? with
    | some r, some s => r.lt s
    | _, _ => false

def textOf : Value → String
  | .str s => s
  | _ => ""

def sortMembers (es : List (Value × Value)) : Except Breakdown (List (Value × Value)) :=
  if es.length ≤ 1 then .ok es
  else if allText es then .ok (es.mergeSort fun a b => decide (textOf a.1 ≤ textOf b.1))
  else if es.all fun e => e.1.number?.isSome then
    .ok (es.mergeSort fun a b => !numberLess b.1 a.1)
  else .error .incomparable

mutual
-- the document with the members of every map sorted: equal documents have equal sorted forms
def sorted : Value → Except Breakdown Value
  | .list xs => do return .list (← sortedAll xs)
  | .tuple xs => do return .list (← sortedAll xs)
  | .map es => do
    let es ← sortMembers (← sortedEntries es)
    return .map es
  | v => .ok v

def sortedAll : List Value → Except Breakdown (List Value)
  | [] => .ok []
  | x :: xs => do return (← sorted x) :: (← sortedAll xs)

def sortedEntries : List (Value × Value) → Except Breakdown (List (Value × Value))
  | [] => .ok []
  | (k, v) :: es => do return (k, ← sorted v) :: (← sortedEntries es)
end

def newLine (depth : Nat) : String :=
  String.ofList ('\n' :: List.replicate (2 * depth) ' ')

def enclosed (opening closing : String) (depth : Nat) (parts : List String) : String :=
  if parts.isEmpty then opening ++ closing
  else
    let line := newLine (depth + 1)
    opening ++ line ++ ("," ++ line).intercalate parts ++ newLine depth ++ closing

mutual
-- two blanks of indentation for each level
def indented (depth : Nat) : Value → String
  | .null => "null"
  | .bool b => if b then "true" else "false"
  | .int i => toString i
  | .float d => floatForm d
  | .list xs => enclosed "[" "]" depth (indentedAll (depth + 1) xs)
  | .map es => enclosed "\x7b" "\x7d" depth (indentedEntries (depth + 1) es)
  | v => textForm v.text

def indentedAll (depth : Nat) : List Value → List String
  | [] => []
  | x :: xs => indented depth x :: indentedAll depth xs

def indentedEntries (depth : Nat) : List (Value × Value) → List String
  | [] => []
  | (k, v) :: es => (textForm k.text ++ ": " ++ indented depth v) :: indentedEntries depth es
end

end Tabletop.Json

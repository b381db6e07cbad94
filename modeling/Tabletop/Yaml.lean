import Tabletop.Number.Decimal
import Tabletop.Record.Field
import Tabletop.Yaml.Node

/-!
Values of YAML documents. Of keys that are equal the last value counts, at the place of the first. A map
can take over the entries of others, which its own entries override.
-/

set_option autoImplicit false

namespace Tabletop.Yaml

-- scalars

def isMark (c : Char) : Bool :=
  c = '_'

def intIn (base : Nat) (cs : List Char) : Except Fault Int :=
  let s := String.ofList cs
  match Text.readIn base s with
  | .ok n => .ok n
  | .error f => .error (.broken (.badValue (f.message base s)))

-- the parts between colons
def splitColons (cs : List Char) : List (List Char) :=
  cs.foldr
    (fun c parts =>
      match c, parts with
      | ':', _ => [] :: parts
      | _, p :: ps => (c :: p) :: ps
      | _, [] => [[c]])
    [[]]

-- each part counts sixty times the next
def sexagesimal : Int → List (List Char) → Except Fault Int
  | n, [] => .ok n
  | n, p :: ps => do sexagesimal (60 * n + (← intIn 10 p)) ps

def unsignedInt (cs : List Char) : Except Fault Int :=
  match cs with
  | '0' :: 'b' :: ds => intIn 2 ds
  | '0' :: 'x' :: ds => intIn 16 ds
  | ['0'] => .ok 0
  | '0' :: _ => intIn 8 cs
  | _ => if cs.contains ':' then sexagesimal 0 (splitColons cs) else intIn 10 cs

def withoutMarks (s : String) : Except Fault (List Char) :=
  match s.toList.filter fun c => !isMark c with
  | [] => .error (.broken .missingIndex)
  | cs => .ok cs

def intOf (s : String) : Except Fault Value := do
  let (negative, cs) := Decimal.splitSign (← withoutMarks s)
  if cs.isEmpty then .error (.broken .missingIndex)
  else
    let n ← unsignedInt cs
    return .int (if negative then -n else n)

def decimalOf (cs : List Char) : Except Fault Double :=
  match Field.plainFloat? (Text.trimBy Text.isWhite cs) with
  | some d => .ok d
  | none =>
    .error (.broken (.badValue
      ("could not convert string to float: " ++ Text.quoted (String.ofList cs))))

-- the last part counts once, each part before it sixty times the next
def sixtiesSum : Double → Int → List Double → Double
  | sum, _, [] => sum
  | sum, base, d :: ds => sixtiesSum (sum.add (d.mul (.ofInt base))) (60 * base) ds

def unsignedFloat (cs : List Char) : Except Fault Double :=
  if cs = ".inf".toList then .ok (.infinite false)
  else if cs = ".nan".toList then .ok .nan
  else if cs.contains ':' then do
    return sixtiesSum (.zero false) 1 (← (splitColons cs).mapM decimalOf).reverse
  else decimalOf cs

def floatOf (s : String) : Except Fault Value := do
  let (negative, cs) := Decimal.splitSign (← withoutMarks (Text.lower s))
  let d ← unsignedFloat cs
  return .float (if negative then d.negate else d)

def boolOf (s : String) : Except Fault Value :=
  match Plain.boolWords.lookup (Text.lower s) with
  | some b => .ok (.bool b)
  | none => .error (.broken .missingKey)

def momentOf (d : Date) (t : Time) (offset : Option Int) : Except Fault Value :=
  match Moment.Iso.build d t offset with
  | .ok m => .ok (.moment m)
  | .error f => .error (.broken (.badValue (f.message "")))

def timestampOf (s : String) : Except Fault Value :=
  match Stamp.read? s.toList with
  | none => .error (.broken .notAMap)
  | some stamp =>
    match stamp.time with
    | some (t, offset) => momentOf stamp.date t offset
    | none =>
      match stamp.date.check with
      | .ok d => .ok (.date d)
      | .error f => .error (.broken (.badValue f.message))

def sextet? (c : Char) : Option Nat :=
  if 'A' ≤ c && c ≤ 'Z' then some (c.toNat - 65)
  else if 'a' ≤ c && c ≤ 'z' then some (c.toNat - 71)
  else if '0' ≤ c && c ≤ '9' then some (c.toNat + 4)
  else if c = '+' then some 62
  else if c = '/' then some 63
  else none

-- the bits that are left of a group, how many characters it has, and the pads that follow them
structure Group where
  bits : Nat
  size : Nat
  pads : Nat

-- four characters give three bytes, and others than these are passed over
def base64 : Group → List UInt8 → List Char → Except Fault (List UInt8)
  | g, acc, [] => if g.size = 0 then .ok acc.reverse else reject
  | g, acc, c :: cs =>
    if c = '=' then
      if 2 ≤ g.size && 4 ≤ g.size + g.pads + 1 then .ok acc.reverse
      else base64 (if 2 ≤ g.size then { g with pads := g.pads + 1 } else g) acc cs
    else
      match sextet? c with
      | none => base64 g acc cs
      | some n =>
        match g.size with
        | 0 => base64 ⟨n, 1, 0⟩ acc cs
        | 1 => base64 ⟨n % 16, 2, 0⟩ ((g.bits * 4 + n / 16).toUInt8 :: acc) cs
        | 2 => base64 ⟨n % 4, 3, 0⟩ ((g.bits * 16 + n / 4).toUInt8 :: acc) cs
        | _ => base64 ⟨0, 0, 0⟩ ((g.bits * 64 + n).toUInt8 :: acc) cs

def binaryOf (s : String) : Except Fault Value :=
  if s.toList.all fun c => c.toNat < 128 then (base64 ⟨0, 0, 0⟩ [] s.toList).map .bytes else reject

def scalarOf (tag : Tag) (s : String) : Except Fault Value :=
  match tag with
  | .null => .ok .null
  | .bool => boolOf s
  | .int => intOf s
  | .float => floatOf s
  | .binary => binaryOf s
  | .timestamp => timestampOf s
  | .str => .ok (.str s)
  | _ => reject

-- collections

/-- A fault, and how far down it was met: of several faults the one nearest to the root counts. -/
structure Deep where
  depth : Nat
  fault : Fault

abbrev Built (α : Type) := Except Deep α

def both {α β γ : Type} (f : α → β → γ) : Built α → Built β → Built γ
  | .ok a, .ok b => .ok (f a b)
  | .error d, .ok _ => .error d
  | .ok _, .error e => .error e
  | .error d, .error e => .error (if e.depth < d.depth then e else d)

def atDepth {α : Type} (depth : Nat) : Except Fault α → Built α
  | .ok a => .ok a
  | .error f => .error ⟨depth, f⟩

/-- The entries of a map: those taken over, and its own. Only maps can be taken over. -/
structure Entries where
  canTake : Bool
  merged : Built (List (Value × Value))
  own : Built (List (Value × Value))

def Entries.all (depth : Nat) (e : Entries) : Built (List (Value × Value)) :=
  if e.canTake then both (· ++ ·) e.merged e.own else .error ⟨depth, .malformed⟩

def Entries.none : Entries :=
  ⟨true, .ok [], .ok []⟩

structure Taken where
  canTake : Bool
  entries : Built (List (Value × Value))

def Taken.of (e : Entries) : Taken :=
  ⟨e.canTake, both (· ++ ·) e.merged e.own⟩

def Taken.none (canTake : Bool) : Taken :=
  ⟨canTake, .ok []⟩

-- what comes later is overridden
def Taken.before (t later : Taken) : Taken :=
  ⟨t.canTake && later.canTake, both (· ++ ·) later.entries t.entries⟩

def Entries.take (t : Taken) (e : Entries) : Entries :=
  { e with canTake := t.canTake && e.canTake, merged := both (· ++ ·) t.entries e.merged }

def Entries.add (entry : Built (Value × Value)) (e : Entries) : Entries :=
  { e with own := both List.cons entry e.own }

-- the text of a scalar; a map stands for its default value
def textOf? : Node → Option String
  | .scalar _ s => some s
  | .mapping _ es => defaultOf? es
  | .sequence _ _ => none
where
  defaultOf? : List (Node × Node) → Option String
    | [] => none
    | (.scalar .value _, v) :: _ => textOf? v
    | _ :: es => defaultOf? es

def isScalarTag : Tag → Bool
  | .null => true
  | .bool => true
  | .int => true
  | .float => true
  | .binary => true
  | .timestamp => true
  | .str => true
  | _ => false

-- a collection under the tag of a scalar
def scalarNode (depth : Nat) (tag : Tag) (n : Node) : Built Value :=
  match textOf? n with
  | some s => atDepth depth (scalarOf tag s)
  | none => .error ⟨depth, .malformed⟩

def keyOf (depth : Nat) : Node → Built Value
  | .scalar .value s => .ok (.str s)
  | .scalar tag s => atDepth depth (scalarOf tag s)
  | n =>
    match n with
    | .mapping tag _ =>
      if isScalarTag tag then scalarNode depth tag n else .error ⟨depth, .malformed⟩
    | _ => .error ⟨depth, .malformed⟩

mutual
def build (depth : Nat) : Node → Built Value
  | .scalar tag s => atDepth depth (scalarOf tag s)
  | .sequence tag items =>
    match tag with
    | .seq => (buildAll (depth + 1) items).map .list
    | .omap => (buildPairs (depth + 1) items).map .list
    | .pairs => (buildPairs (depth + 1) items).map .list
    | .map => .error ⟨depth + 1, .malformed⟩
    | .set => .error ⟨depth + 1, .malformed⟩
    | _ => .error ⟨depth, .malformed⟩
  | .mapping tag es =>
    match tag with
    | .map => ((buildEntries (depth + 1) es).all (depth + 1)).map .mapOf
    | .set =>
      ((buildEntries (depth + 1) es).all (depth + 1)).map fun entries =>
        .set (Value.distinctKeys (entries.map (·.1)))
    | .seq => .error ⟨depth + 1, .malformed⟩
    | .omap => .error ⟨depth + 1, .malformed⟩
    | .pairs => .error ⟨depth + 1, .malformed⟩
    | t => if isScalarTag t then scalarNode depth t (.mapping tag es) else .error ⟨depth, .malformed⟩

def buildAll (depth : Nat) : List Node → Built (List Value)
  | [] => .ok []
  | n :: ns => both List.cons (build depth n) (buildAll depth ns)

-- each item is a map of one entry
def buildPairs (depth : Nat) : List Node → Built (List Value)
  | [] => .ok []
  | .mapping _ [(k, v)] :: ns =>
    both List.cons
      (both (fun k v => .tuple [k, v]) (build depth k) (build depth v)) (buildPairs depth ns)
  | _ => .error ⟨depth, .malformed⟩

def buildEntries (depth : Nat) : List (Node × Node) → Entries
  | [] => .none
  | (k, v) :: es =>
    match k with
    | .scalar .merge _ => (buildEntries depth es).take (takeOver depth v)
    | k => (buildEntries depth es).add (both Prod.mk (keyOf depth k) (build depth v))

-- the entries of a map, or of several, the first of which win
def takeOver (depth : Nat) : Node → Taken
  | .mapping _ es => .of (buildEntries depth es)
  | .sequence _ items => takeOverAll depth items
  | .scalar _ _ => .none false

def takeOverAll (depth : Nat) : List Node → Taken
  | [] => .none true
  | .mapping _ es :: ns => (Taken.of (buildEntries depth es)).before (takeOverAll depth ns)
  | _ => .none false
end

-- texts

def isReadable (c : Char) : Bool :=
  let n := c.toNat
  c = '\t' || c = '\n' || c = '\r' || (0x20 ≤ n && n ≤ 0x7E) || n = 0x85 ||
    (0xA0 ≤ n && n ≤ 0xD7FF) || (0xE000 ≤ n && n ≤ 0xFFFD) || 0x10000 ≤ n

def load (text : String) : Except Fault Value :=
  if text.toList.all isReadable then do
    match ← Node.ofTokens? (← tokens text) with
    | none => return .null
    | some n => (build 0 n).mapError Deep.fault
  else reject

end Tabletop.Yaml

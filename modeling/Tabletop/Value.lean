import Tabletop.Moment
import Tabletop.Text.Quoted

set_option autoImplicit false

namespace Tabletop

inductive Value where
  | null
  | bool (b : Bool)
  | int (i : Int)
  | float (d : Double)
  | str (s : String)
  | bytes (bs : List UInt8)
  | date (d : Date)
  | moment (m : Moment)
  | list (xs : List Value)
  | tuple (xs : List Value)
  | set (xs : List Value)
  | map (entries : List (Value × Value))
deriving Repr, Inhabited

/-- What a part of a document cannot be used for. -/
inductive Breakdown where
  | notIterable
  | notAMap
  | infiniteNumber
  | incomparable
  | unhashable
  | notText
  | unwritableKey
  | undecodable
  | nameTooLong
  | isDirectory
  | missingFile
  | missingKey
  | missingIndex
  | badValue (message : String)
deriving DecidableEq, Repr

namespace Value

mutual
def same : Value → Value → Bool
  | .null, .null => true
  | .bool a, .bool b => a == b
  | .int a, .int b => a == b
  | .float a, .float b => a == b
  | .str a, .str b => a == b
  | .bytes a, .bytes b => a == b
  | .date a, .date b => a == b
  | .moment a, .moment b => a == b
  | .list a, .list b => sameAll a b
  | .tuple a, .tuple b => sameAll a b
  | .set a, .set b => sameAll a b
  | .map a, .map b => sameEntries a b
  | _, _ => false

def sameAll : List Value → List Value → Bool
  | [], [] => true
  | a :: as, b :: bs => same a b && sameAll as bs
  | _, _ => false

def sameEntries : List (Value × Value) → List (Value × Value) → Bool
  | [], [] => true
  | (k, v) :: as, (l, w) :: bs => same k l && same v w && sameEntries as bs
  | _, _ => false
end

mutual
theorem same_iff : (a b : Value) → (same a b = true ↔ a = b)
  | .null, b => by cases b <;> simp [same]
  | .bool _, b => by cases b <;> simp [same]
  | .int _, b => by cases b <;> simp [same]
  | .float _, b => by cases b <;> simp [same]
  | .str _, b => by cases b <;> simp [same]
  | .bytes _, b => by cases b <;> simp [same]
  | .date _, b => by cases b <;> simp [same]
  | .moment _, b => by cases b <;> simp [same]
  | .list as, b => by cases b <;> simp [same, sameAll_iff as]
  | .tuple as, b => by cases b <;> simp [same, sameAll_iff as]
  | .set as, b => by cases b <;> simp [same, sameAll_iff as]
  | .map as, b => by cases b <;> simp [same, sameEntries_iff as]

theorem sameAll_iff : (as bs : List Value) → (sameAll as bs = true ↔ as = bs)
  | [], bs => by cases bs <;> simp [sameAll]
  | a :: as, [] => by simp [sameAll]
  | a :: as, b :: bs => by simp [sameAll, same_iff a b, sameAll_iff as bs]

theorem sameEntries_iff :
    (as bs : List (Value × Value)) → (sameEntries as bs = true ↔ as = bs)
  | [], bs => by cases bs <;> simp [sameEntries]
  | (k, v) :: as, [] => by simp [sameEntries]
  | (k, v) :: as, (l, w) :: bs => by
    simp [sameEntries, same_iff k l, same_iff v w, sameEntries_iff as bs]
end

instance : DecidableEq Value := fun a b => decidable_of_iff _ (same_iff a b)

def isMap : Value → Bool
  | .map _ => true
  | _ => false

def isNull : Value → Bool
  | .null => true
  | _ => false

-- empty, zero and absent values are false
def isTruthy : Value → Bool
  | .null => false
  | .bool b => b
  | .int i => i != 0
  | .float d => !d.isZero
  | .str s => !s.isEmpty
  | .bytes bs => !bs.isEmpty
  | .date _ => true
  | .moment _ => true
  | .list xs => !xs.isEmpty
  | .tuple xs => !xs.isEmpty
  | .set xs => !xs.isEmpty
  | .map es => !es.isEmpty

def number? : Value → Option Double
  | .bool b => some (.ofInt (if b then 1 else 0))
  | .int i => some (.ofInt i)
  | .float d => some d
  | _ => none

def ratio? : Value → Option Ratio
  | .bool b => some (.ofInt (if b then 1 else 0))
  | .int i => some (.ofInt i)
  | .float d => d.toRatio?
  | _ => none

-- as keys of a map, numbers of one value are one key, whatever their kind
def sameKey (a b : Value) : Bool :=
  match a, b with
  | .float (.infinite s), .float (.infinite t) => s == t
  | .float .nan, _ => false
  | _, .float .nan => false
  | _, _ =>
    match a.ratio?, b.ratio? with
    | some r, some s => r.same s
    | none, none => a.same b
    | _, _ => false

def putEntry (key value : Value) : List (Value × Value) → List (Value × Value)
  | [] => [(key, value)]
  | (k, v) :: es => if sameKey k key then (k, value) :: es else (k, v) :: putEntry key value es

def mapOf (entries : List (Value × Value)) : Value :=
  .map (entries.foldl (fun es e => putEntry e.1 e.2 es) [])

def isKey (name : String) : Value → Bool
  | .str s => s == name
  | _ => false

def field? (name : String) : List (Value × Value) → Option Value
  | [] => none
  | (k, v) :: es => if isKey name k then some v else field? name es

-- an absent member reads as null
def field (name : String) (entries : List (Value × Value)) : Value :=
  (field? name entries).getD .null

def hasField (name : String) (entries : List (Value × Value)) : Bool :=
  (field? name entries).isSome

def setField (name : String) (value : Value) (entries : List (Value × Value)) :
    List (Value × Value) :=
  putEntry (.str name) value entries

def dropField (name : String) (entries : List (Value × Value)) : List (Value × Value) :=
  entries.filter fun e => !isKey name e.1

def entries? : Value → Option (List (Value × Value))
  | .map es => some es
  | _ => none

def entriesOrEmpty : Value → List (Value × Value)
  | .map es => es
  | _ => []

-- the members one meets when walking through a value
def members : Value → Except Breakdown (List Value)
  | .list xs => .ok xs
  | .tuple xs => .ok xs
  | .set xs => .ok xs
  | .map es => .ok (es.map (·.1))
  | .str s => .ok (s.toList.map fun c => .str (String.singleton c))
  | .bytes bs => .ok (bs.map fun b => .int b.toNat)
  | _ => .error .notIterable

-- what a walk through an optional list meets
def looped (v : Value) : Except Breakdown (List Value) :=
  if v.isTruthy then v.members else .ok []

def text? : Value → Option String
  | .str s => some s
  | _ => none

-- a list, a set or a map is no key
def isHashable : Value → Bool
  | .list _ => false
  | .set _ => false
  | .map _ => false
  | _ => true

def addKey (keys : List Value) (key : Value) : List Value :=
  if keys.any fun k => sameKey k key then keys else keys ++ [key]

def distinctKeys (vs : List Value) : List Value :=
  vs.foldl addKey []

def ofStrings (ss : List String) : Value :=
  .list (ss.map .str)

def ofText? : Option String → Value
  | some s => .str s
  | none => .null

end Value

end Tabletop

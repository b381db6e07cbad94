import Tabletop.Character
import Tabletop.Notice
import Tabletop.Text.Integer
import Tabletop.Value.Text

/-!
Reading the advancement ledger of a stored record. Entries keyed by a level keep their level, and
loose choices go to the level the character has. Empty records are dropped, so that a level with a
record is always a level that was applied.
-/

set_option autoImplicit false

namespace Tabletop

def integerOf (s : String) : Except Breakdown Int :=
  match Text.readInteger s with
  | .ok n => .ok n
  | .error f => .error (.badValue (f.message 10 s))

-- a number of too many digits has no text
def written (n : Int) : Except Breakdown String :=
  if (Nat.toDigits 10 n.natAbs).length ≤ Text.maxDigits then .ok (toString n)
  else .error (.badValue Text.tooLargeMessage)

-- what is no number gives the default; an infinite number gives nothing
def coerceInt (default : Int) : Value → Except Breakdown Int
  | .bool b => .ok (if b then 1 else 0)
  | .int i => .ok i
  | .float (.infinite _) => .error .infiniteNumber
  | .float d => .ok (d.truncate?.getD default)
  | .str s => .ok ((Text.readInteger s).toOption.getD default)
  | _ => .ok default

def idList : Value → List String
  | .null => []
  | .list xs => xs.map Value.text
  | .tuple xs => xs.map Value.text
  | .set xs => xs.map Value.text
  | v => [v.text]

namespace Ledger

def levelRecord (entries : List (Value × Value)) : LevelRecord :=
  .ofList (entries.map fun e => (e.1.text, idList e.2))

structure Sorted where
  nested : Ledger
  flat : LevelRecord

def sortEntry (s : Sorted) (key : String) (entry : Value) : Except Breakdown Sorted :=
  match Text.isDigits key, entry with
  | true, .map es => do
    if es.isEmpty then return s
    else
      let level ← integerOf key
      return { s with nested := s.nested.insert (toString level) (levelRecord es) }
  | _, _ => return { s with flat := s.flat.insert key (idList entry) }

def sortEntries : Sorted → List (Value × Value) → Except Breakdown Sorted
  | s, [] => .ok s
  | s, (k, v) :: es => do
    let s ← sortEntry s k.text v
    sortEntries s es

def addAll (r : LevelRecord) (more : LevelRecord) : LevelRecord :=
  more.entries.foldl (fun r e => r.insert e.1 e.2) r

def sortedTexts (texts : List String) : List String :=
  texts.mergeSort fun a b => decide (a ≤ b)

def ofValue (level : Int) : Value → Except Breakdown (Ledger × List Notice)
  | .map es => do
    let s ← sortEntries ⟨.empty, .empty⟩ es
    if s.flat.isEmpty then return (s.nested, [])
    else
      let target := toString (clamp level 1 20)
      let record := addAll ((s.nested.get? target).getD .empty) s.flat
      return (s.nested.insert target record,
        [.flatAdvancement (sortedTexts s.flat.keys) target])
  | _ => return (.empty, [])

end Ledger

end Tabletop

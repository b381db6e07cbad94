import Tabletop.Character.Writing
import Tabletop.Store

set_option autoImplicit false

namespace Tabletop

def Character.toEntries (c : Character) : Field.Entries :=
  Value.entriesOrEmpty c.toValue

namespace Store

def saveCharacter (c : Character) (force : Bool) : Work Unit := do
  put .characters (← .ofExcept (Record.ofEntries c.toEntries)) force

def putCharacter (c : Character) : Work Unit :=
  saveCharacter c false

-- nothing, if the record is refused
def characterOf (supply : Supply) (v : Value) : Except Failure (Option Character) :=
  match Failure.ofChecked (Character.ofValue supply v) with
  | .ok (c, _) => .ok (some c)
  | .error (.recordRefused _) => .ok none
  | .error f => .error f

def readCharacter (v : Value) : Work (Option Character) := do
  let supply ← tick
  .ofResult (characterOf supply v)

def getCharacter (id : String) : Work (Option Character) := do
  match ← get .characters id with
  | none => return none
  | some record => readCharacter (.map record)

def readCharacters : List Field.Entries → Work (List Character)
  | [] => return []
  | r :: rs => do
    let c? ← readCharacter (.map r)
    let cs ← readCharacters rs
    return c?.toList ++ cs

-- moments with and without an offset have no common order
def allComparable : List Character → Bool
  | [] => true
  | c :: cs => cs.all fun d => c.updatedAt.comparable d.updatedAt

def listCharacters : Work (List Character) := do
  let cs ← readCharacters (← listAll .characters)
  if allComparable cs then
    return cs.mergeSort fun a b => !a.updatedAt.less b.updatedAt
  else .breakdown .incomparable

end Store

end Tabletop

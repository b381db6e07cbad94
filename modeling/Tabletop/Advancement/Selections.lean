import Tabletop.Character.Advancement
import Tabletop.Json.Writer
import Tabletop.Noted
import Tabletop.Ruleset.Check

set_option autoImplicit false

namespace Tabletop

inductive Picks where
  | ids (ids : List String)
  | mixed (values : List Value)
deriving DecidableEq

inductive Answer where
  | absent
  | listed (picks : Picks)
  | unlistable
deriving DecidableEq

inductive Selections where
  | byChoice (answers : Dict String Answer)
  | other (v : Value)
deriving DecidableEq

def distinct (ids : List String) : List String :=
  ids.eraseDups

namespace Picks

def ofMembers (members : List Value) : Picks :=
  match members.mapM Value.text? with
  | some texts => .ids texts
  | none => .mixed members

def values : Picks → List Value
  | .ids xs => xs.map .str
  | .mixed vs => vs

def size : Picks → Nat
  | .ids xs => xs.length
  | .mixed vs => vs.length

def distinctSize : Picks → Nat
  | .ids xs => (distinct xs).length
  | .mixed vs => (Value.distinctKeys vs).length

-- what is no id has no name
def toIds : Picks → Except Breakdown (List String)
  | .ids xs => .ok xs
  | .mixed _ => .error .notText

end Picks

namespace Answer

-- every answer but an empty one is listed by its members
def ofValue (v : Value) : Answer :=
  if !v.isTruthy then .absent
  else
    match v.members with
    | .ok ms => if ms.all Value.isHashable then .listed (.ofMembers ms) else .unlistable
    | .error _ => .unlistable

def picks : Answer → Except Breakdown Picks
  | .absent => .ok (.ids [])
  | .listed p => .ok p
  | .unlistable => .error .notIterable

end Answer

namespace Selections

def ofValue : Value → Selections
  | .map es => .byChoice (.ofList (es.map fun e => (e.1.text, Answer.ofValue e.2)))
  | v => if v.isTruthy then .other v else .byChoice .empty

def picksFor (s : Selections) (choiceId : String) : Except Breakdown Picks :=
  match s with
  | .byChoice answers => ((answers.get? choiceId).getD .absent).picks
  | .other _ => .error .notAMap

def sortedValues (vs : List Value) : Except Breakdown (List Value) :=
  (Json.sortMembers (vs.map fun v => (v, .null))).map fun es => es.map (·.1)

-- the answers for no choice of the node, in order
def undeclared (s : Selections) (picks : Dict String Picks) : Except Breakdown (List Value) :=
  match s with
  | .byChoice answers => sortedValues ((answers.keys.filter fun k => !picks.contains k).map .str)
  | .other v => do
    let ms ← v.members
    if ms.all Value.isHashable then sortedValues (Value.distinctKeys ms) else .error .unhashable

end Selections

def checkCount (choice : Choice) (picks : Picks) : Except Failure Unit :=
  if picks.size = choice.count && picks.distinctSize = picks.size then .ok ()
  else do
    -- the message tells the count
    let _ ← Failure.ofExcept (written choice.count)
    .error (.levelUp (.choiceCount choice.id choice.label choice.count picks.distinctSize))

def picksOf (s : Selections) : Dict String Picks → List Choice → Except Failure (Dict String Picks)
  | picks, [] => .ok picks
  | picks, choice :: choices => do
    let p ← Failure.ofExcept (s.picksFor choice.id)
    checkCount choice p
    picksOf s (picks.insert choice.id p) choices

def Node.validate (node : Node) (s : Selections) : Noted (Dict String Picks) :=
  match picksOf s .empty node.choices with
  | .error f => .fail f
  | .ok picks => do
    let unknown ← .ofExcept (s.undeclared picks)
    if !unknown.isEmpty then .note (.undeclaredSelections unknown)
    return picks

end Tabletop

import Tabletop.Character.Advancement
import Tabletop.Ruleset
import Tabletop.Text.Case

set_option autoImplicit false

namespace Tabletop

namespace Ruleset

-- the text up to the first point, and the text after it
def splitKey (key : String) : String × String :=
  let cs := key.toList
  (String.ofList (cs.takeWhile (· != '.')), String.ofList ((cs.dropWhile (· != '.')).drop 1))

inductive Qualifier where
  | cantrips
  | leveled
  | ofLevel (n : Int)
  | tagged (tag : String)
deriving DecidableEq, Repr

def qualifierOf (base qualifier : String) : Except Breakdown Qualifier :=
  if base = "spells" then
    if qualifier = "cantrip" || qualifier = "cantrips" then .ok .cantrips
    else if qualifier = "known" || qualifier = "spell" || qualifier = "leveled" then .ok .leveled
    else if Text.isDigits qualifier then (integerOf qualifier).map .ofLevel
    else .ok (.tagged qualifier)
  else .ok (.tagged qualifier)

def Qualifier.admits : Qualifier → PoolOption → Bool
  | .cantrips, o => o.level = some 0
  | .leveled, o => o.level.any (· != 0)
  | .ofLevel n, o => o.level = some n
  | .tagged tag, o => o.tags.contains tag

-- an empty pool needs no look at what the qualifier means
def narrow (base qualifier : String) (pool : List PoolOption) :
    Except Breakdown (List PoolOption) :=
  if pool.isEmpty then .ok []
  else (qualifierOf base qualifier).map fun q => pool.filter q.admits

/-- The options a pool key names, in pool order: a whole pool, or the part of one that a qualifier
after a point selects. -/
def resolvePool (r : Ruleset) (key : String) : Except Breakdown (List PoolOption) :=
  if key.isEmpty then .ok []
  else
    match r.pools.get? key with
    | some pool => .ok pool
    | none =>
      let (base, qualifier) := splitKey key
      match r.pools.get? base with
      | none => .ok []
      | some pool =>
        if qualifier.isEmpty then .ok [] else narrow base (Text.lower qualifier) pool

end Ruleset

namespace PoolOption

def requiredClass (o : PoolOption) : Option String :=
  o.requirements.bind (·.classId)

-- an option that names no class at all is open to every class
def matchesClass (o : PoolOption) (classId : Option String) : Bool :=
  match classId with
  | none => o.requiredClass.isNone && o.lists.isEmpty
  | some id =>
    (o.requiredClass.isNone && o.lists.isEmpty) || o.requiredClass = some id || o.lists.contains id

def requiredLevel (o : PoolOption) : Int :=
  (o.requirements.bind (·.minLevel)).getD 0

def matchesSubclass (o : PoolOption) (subclassId : Option String) : Bool :=
  match o.requirements.bind (·.subclass), subclassId with
  | some wanted, some id => wanted.isEmpty || id.isEmpty || wanted = id
  | _, _ => true

def aboveFloor (o : PoolOption) (floor : Option Int) : Bool :=
  match floor, o.level with
  | some n, some l => n ≤ l
  | _, _ => true

end PoolOption

namespace ChoiceFilter

-- an empty text filters nothing
def given : Option String → Option String
  | some s => if s.isEmpty then none else some s
  | none => none

def wantedClass (f : ChoiceFilter) (classId : Option String) : Option String :=
  (given f.classId).orElse fun _ => classId

def matchesTags (f : ChoiceFilter) (o : PoolOption) : Bool :=
  (match given f.tag with
    | some t => o.tags.contains t
    | none => true) &&
  (f.tagsAny.isEmpty || f.tagsAny.any o.tags.contains) &&
  f.tagsAll.all o.tags.contains

def admits (f : ChoiceFilter) (classId subclassId : Option String) (level : Int)
    (o : PoolOption) : Bool :=
  o.matchesClass (f.wantedClass classId) && decide (o.requiredLevel ≤ level) &&
    o.aboveFloor f.minLevel && f.matchesTags o && o.matchesSubclass subclassId

def apply (f : ChoiceFilter) (classId subclassId : Option String) (level : Int)
    (options : List PoolOption) : List PoolOption :=
  options.filter (f.admits classId subclassId level)

end ChoiceFilter

def Ruleset.optionsFor (r : Ruleset) (classId : Option String) (choice : Choice) (level : Int)
    (subclassId : Option String) : Except Breakdown (List PoolOption) :=
  (r.resolvePool choice.source).map (choice.filter.apply classId subclassId level)

end Tabletop

import Tabletop.Dict
import Tabletop.IdSet
import Tabletop.Value

set_option autoImplicit false

namespace Tabletop

structure Requirements where
  classId : Option String
  minLevel : Option Int
  subclass : Option String
deriving DecidableEq, Repr

structure PoolOption where
  id : String
  name : String
  level : Option Int
  tags : IdSet
  lists : List String
  requirements : Option Requirements
  description : String
deriving DecidableEq, Repr

structure Pools where
  spells : List PoolOption
  infusions : List PoolOption
  features : List PoolOption
  feats : List PoolOption
  extra : Dict String (List PoolOption)
deriving DecidableEq, Repr

namespace Pools

def standardKeys : List String := ["spells", "infusions", "features", "feats"]

def get? (p : Pools) (key : String) : Option (List PoolOption) :=
  if key = "spells" then some p.spells
  else if key = "infusions" then some p.infusions
  else if key = "features" then some p.features
  else if key = "feats" then some p.feats
  else p.extra.get? key

def keys (p : Pools) : List String :=
  standardKeys ++ p.extra.keys

-- the first option of that id, over all pools
def find? (p : Pools) (id : String) : Option PoolOption :=
  (p.keys.flatMap fun k => (p.get? k).getD []).find? fun o => o.id = id

end Pools

structure ChoiceFilter where
  classId : Option String
  minLevel : Option Int
  tag : Option String
  tagsAny : List String
  tagsAll : List String
deriving DecidableEq, Repr

def ChoiceFilter.open : ChoiceFilter :=
  ⟨none, none, none, [], []⟩

structure Choice where
  id : String
  title : String
  help : String
  source : String
  filter : ChoiceFilter
  count : Int
deriving DecidableEq, Repr

def Choice.label (c : Choice) : String :=
  if c.title.isEmpty then c.id else c.title

structure Node where
  grants : List String
  choices : List Choice
deriving DecidableEq, Repr

def Node.choice? (n : Node) (id : String) : Option Choice :=
  n.choices.find? fun c => c.id = id

structure ClassDef where
  id : String
  name : String
  hitDie : Int
  progression : Dict Int Node
  castingAbility : Option String
  spellSlots : Dict String (Dict String Int)
deriving DecidableEq, Repr

def ClassDef.levels (c : ClassDef) : List Int :=
  c.progression.keys.mergeSort fun a b => decide (a ≤ b)

structure FeatureInfo where
  name : String
  description : String
deriving DecidableEq, Repr

structure Ruleset where
  id : String
  name : String
  version : String
  classes : Dict String ClassDef
  pools : Pools
  features : Dict String FeatureInfo
  importedAt : Moment
  document : Value
deriving DecidableEq

namespace Ruleset

-- an empty id names no class, even if there is one under it
def class? (r : Ruleset) : Option String → Option ClassDef
  | none => none
  | some id => if id.isEmpty then none else r.classes.get? id

def node? (r : Ruleset) (classId : Option String) (level : Int) : Option Node :=
  (r.class? classId).bind fun c => c.progression.get? level

def levels (r : Ruleset) (classId : Option String) : List Int :=
  ((r.class? classId).map ClassDef.levels).getD []

def featureName (r : Ruleset) (featureId : String) : String :=
  ((r.features.get? featureId).map FeatureInfo.name).getD featureId

def contentCounts (r : Ruleset) : List (String × Nat) :=
  ("classes", r.classes.entries.length) ::
    r.pools.keys.map fun k => (k, ((r.pools.get? k).getD []).length)

def summary (r : Ruleset) : String :=
  let parts := ((Dict.ofList r.contentCounts).entries.filter fun e => 0 < e.2).map fun e =>
    toString e.2 ++ " " ++ e.1
  if parts.isEmpty then "empty" else ", ".intercalate parts

end Ruleset

end Tabletop

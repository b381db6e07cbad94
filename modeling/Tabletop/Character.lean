import Tabletop.Dict
import Tabletop.IdSet
import Tabletop.Moment
import Tabletop.Text.Case

/-!
The character record. Feature entries tagged as grant or choice belong to the level-up engine, unless
they are also tagged as manual; all others belong to the player.
-/

set_option autoImplicit false

namespace Tabletop

namespace Ability

def keys : List String := ["STR", "DEX", "CON", "INT", "WIS", "CHA"]

def fullNames : List (String × String) :=
  [("strength", "STR"), ("dexterity", "DEX"), ("constitution", "CON"), ("intelligence", "INT"),
    ("wisdom", "WIS"), ("charisma", "CHA")]

-- a full name gives its short key, any other key is only put in capitals
def normalizeKey (key : String) : String :=
  (fullNames.lookup (Text.lower key)).getD (Text.upper key)

end Ability

structure HitPoints where
  current : Int
  max : Int
  temp : Int
deriving DecidableEq, Repr

structure Item where
  id : String
  name : String
  quantity : Int
  note : String
  weight : Option Double
deriving DecidableEq, Repr

structure FeatureTags where
  grant : Bool
  choice : Bool
  manual : Bool
deriving DecidableEq, Repr

namespace FeatureTags

def none : FeatureTags := ⟨false, false, false⟩
def grantOnly : FeatureTags := ⟨true, false, false⟩
def choiceOnly : FeatureTags := ⟨false, true, false⟩
def manualOnly : FeatureTags := ⟨false, false, true⟩

def names (t : FeatureTags) : List String :=
  (if t.choice then ["choice"] else []) ++ (if t.grant then ["grant"] else []) ++
    (if t.manual then ["manual"] else [])

end FeatureTags

structure Feature where
  id : String
  name : String
  level : Int
  text : String
  tags : FeatureTags
deriving DecidableEq, Repr

def Feature.isEngineOwned (f : Feature) : Bool :=
  (f.tags.grant || f.tags.choice) && !f.tags.manual

structure SpellBook where
  cantrips : IdSet
  known : IdSet
deriving DecidableEq, Repr

/-- What was picked at one level: choice id to option ids. -/
abbrev LevelRecord := Dict String (List String)

/-- The advancement ledger: the level's number as text, to what was picked there. -/
abbrev Ledger := Dict String LevelRecord

structure Character where
  id : String
  name : String
  rulesetId : Option String
  classId : Option String
  subclassId : Option String
  level : Int
  abilities : Dict String Int
  hp : HitPoints
  ac : Int
  speed : Int
  skillRanks : Dict String Int
  saves : IdSet
  inventory : List Item
  spells : SpellBook
  infusions : IdSet
  features : List Feature
  advancement : Ledger
  notes : String
  portrait : Option String
  createdAt : Moment
  updatedAt : Moment
deriving DecidableEq

namespace Character

def manualFeatures (c : Character) : List Feature :=
  c.features.filter fun f => !f.isEngineOwned

-- the names of the features whose ids were not there before
def addedSince (before after : Character) : List String :=
  (after.features.filter fun f => !before.features.any fun g => g.id = f.id).map Feature.name

def touch (c : Character) (now : Moment) : Character :=
  { c with updatedAt := now }

end Character

def clamp (value low high : Int) : Int :=
  max low (min high value)

theorem clamp_mem {value low high : Int} (h : low ≤ high) :
    low ≤ clamp value low high ∧ clamp value low high ≤ high := by
  unfold clamp; omega

@[simp] theorem clamp_of_mem {value low high : Int} (hl : low ≤ value) (hh : value ≤ high) :
    clamp value low high = value := by
  unfold clamp; omega

end Tabletop

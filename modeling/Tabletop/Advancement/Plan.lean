import Tabletop.Advancement.Ledger
import Tabletop.Ruleset

set_option autoImplicit false

namespace Tabletop

structure LevelPlan where
  classId : Option String
  level : Int
  grants : List String
  choices : List Choice
  nodeMissing : Bool
deriving DecidableEq, Repr

namespace LevelPlan

def ofNode (classId : Option String) (level : Int) : Option Node → LevelPlan
  | none => ⟨classId, level, [], [], true⟩
  | some n => ⟨classId, level, n.grants, n.choices, false⟩

def build (r : Ruleset) (c : Character) (level : Int) : LevelPlan :=
  ofNode c.classId level (r.node? c.classId level)

-- one plan for each level still to be processed
def pending (r : Ruleset) (c : Character) (target : Int) : List LevelPlan :=
  (c.pendingLevels target).map (build r c)

-- the same, with the levels looked up one by one
def listed (r : Ruleset) (c : Character) (target : Int) : Except Breakdown (List LevelPlan) := do
  return (← Ledger.pendingLevels c target).map (build r c)

end LevelPlan

end Tabletop

import Tabletop.Character.Advancement
import Tabletop.Ruleset.Check

set_option autoImplicit false

namespace Tabletop

inductive LevelState where
  | unvisited
  | applied
deriving DecidableEq, Repr

def LevelState.name : LevelState → String
  | unvisited => "unvisited"
  | applied => "applied"

namespace Character

-- what the ledger holds, whatever text a level has

def record? (c : Character) (level : Int) : Option LevelRecord :=
  match c.advancement.get? (toString level) with
  | some r => if r.isEmpty then none else some r
  | none => none

def isApplied (c : Character) (level : Int) : Bool :=
  (c.record? level).isSome

def appliedKeys (c : Character) : List String :=
  (c.advancement.entries.filter fun e => Text.isDigits e.1 && !e.2.isEmpty).map (·.1)

def integersOf : List String → Except Breakdown (List Int)
  | [] => .ok []
  | k :: ks => do return (← integerOf k) :: (← integersOf ks)

def appliedLevels (c : Character) : Except Breakdown (List Int) :=
  (integersOf c.appliedKeys).map fun ns => ns.mergeSort fun a b => decide (a ≤ b)

def levelsBetween (low high : Int) : List Int :=
  (List.range (high - low).toNat).map fun (i : Nat) => low + 1 + i

def pendingLevels (c : Character) (target : Int) : List Int :=
  (levelsBetween c.level (min target 20)).filter fun l => !c.isApplied l

-- an empty record would not mark the level as applied
def recordApplied (c : Character) (level : Int) (picks : LevelRecord) :
    Except Breakdown Character := do
  let key ← written level
  if picks.isEmpty then
    .error (.badValue ("Refusing to record an empty advancement record for level " ++ key))
  else return { c with advancement := c.advancement.insert key picks }

def pickedIds (r : LevelRecord) : List String :=
  (r.entries.filter fun e => e.1 ≠ grantsKey).flatMap (·.2)

def isOfLevel (level : Int) (f : Feature) : Bool :=
  f.level = level && f.isEngineOwned

/-- Undoes a level: its engine features, everything picked at it, and its record. -/
def revert (c : Character) (level : Int) : Character × Option LevelRecord :=
  match c.record? level with
  | none => (c, none)
  | some r =>
    let picked := pickedIds r
    ({ c with
        features := c.features.filter fun f => !isOfLevel level f
        spells := ⟨c.spells.cantrips.without picked, c.spells.known.without picked⟩
        infusions := c.infusions.without picked
        advancement := c.advancement.erase (toString level) }, some r)

end Character

-- the calls: a level is looked up by its text, which one of too many digits does not have

namespace Ledger

def lookUp (c : Character) (level : Int) : Except Breakdown (Option LevelRecord) := do
  let _ ← written level
  return c.record? level

def isApplied (c : Character) (level : Int) : Except Breakdown Bool := do
  return (← lookUp c level).isSome

def levelState (c : Character) (level : Int) : Except Breakdown LevelState := do
  return if ← isApplied c level then .applied else .unvisited

def withoutApplied (c : Character) : List Int → Except Breakdown (List Int)
  | [] => .ok []
  | level :: levels => do
    let applied ← isApplied c level
    let others ← withoutApplied c levels
    return if applied then others else level :: others

def pendingLevels (c : Character) (target : Int) : Except Breakdown (List Int) :=
  withoutApplied c (Character.levelsBetween c.level (min target 20))

def revert (c : Character) (level : Int) : Except Breakdown (Character × Option LevelRecord) := do
  let _ ← lookUp c level
  return c.revert level

end Ledger

end Tabletop

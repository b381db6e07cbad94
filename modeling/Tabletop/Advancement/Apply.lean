import Tabletop.Advancement.Ledger
import Tabletop.Advancement.Selections
import Tabletop.Ruleset.Pool

set_option autoImplicit false

namespace Tabletop

structure Made where
  choice : Choice
  pool : List PoolOption
  picks : List String
deriving DecidableEq

def madeOf (r : Ruleset) (picks : Dict String Picks) : List Choice → Except Breakdown (List Made)
  | [] => .ok []
  | choice :: choices => do
    let pool ← r.resolvePool choice.source
    let ids ← ((picks.get? choice.id).getD (.ids [])).toIds
    return ⟨choice, pool, ids⟩ :: (← madeOf r picks choices)

/-- The ledger record of a node: what was picked for each choice, or its grants if it has none. -/
def recordOf (node : Node) (made : List Made) : LevelRecord :=
  if made.isEmpty then Dict.empty.insert grantsKey node.grants
  else .ofList (made.map fun m => (m.choice.id, m.picks))

namespace Character

def hasGrant (c : Character) (name : String) (level : Int) : Bool :=
  c.features.any fun f => f.name = name && f.level = level && f.tags.grant

def grantFeature (r : Ruleset) (level : Int) (featureId : String) : Feature :=
  { id := "grant-" ++ toString level ++ "-" ++ featureId
    name := r.featureName featureId
    level := level
    text := ((r.features.get? featureId).map FeatureInfo.description).getD ""
    tags := .grantOnly }

def addGrant (r : Ruleset) (level : Int) (c : Character) (featureId : String) : Character :=
  if c.hasGrant (r.featureName featureId) level then c
  else { c with features := c.features ++ [grantFeature r level featureId] }

def containsText (part : List Char) : List Char → Bool
  | [] => part.isEmpty
  | c :: cs => part.isPrefixOf (c :: cs) || containsText part cs

def mentions (text part : String) : Bool :=
  containsText part.toList text.toList

-- of spells with one id the last counts
def spellLevel? (r : Ruleset) (id : String) : Option Int :=
  (r.pools.spells.reverse.find? fun o => o.id = id).bind (·.level)

def isCantripPick (r : Ruleset) (poolKey id : String) : Bool :=
  match spellLevel? r id with
  | some level => level = 0
  | none => mentions poolKey "cantrip"

def addSpell (r : Ruleset) (poolKey : String) (b : SpellBook) (id : String) : SpellBook :=
  if isCantripPick r poolKey id then { b with cantrips := b.cantrips.insert id }
  else { b with known := b.known.insert id }

-- the collection a pick goes to is read off the pool key
def foldPicks (r : Ruleset) (choice : Choice) (c : Character) (picks : List String) : Character :=
  let poolKey := Text.lower choice.source
  if mentions poolKey "cantrip" || mentions poolKey "spell" then
    { c with spells := picks.foldl (addSpell r poolKey) c.spells }
  else if mentions poolKey "infusion" then { c with infusions := c.infusions.union picks }
  else c

def pickName (r : Ruleset) (pool : List PoolOption) (id : String) : String :=
  match (pool.reverse.find? fun o => o.id = id).orElse fun _ => r.pools.find? id with
  | some o => o.name
  | none => id

def summaryLine (choice : Choice) (names : List String) : String :=
  choice.label ++ ": " ++ ", ".intercalate names

def Made.line (r : Ruleset) (m : Made) : String :=
  summaryLine m.choice (m.picks.map (pickName r m.pool))

def summaryName (level : Int) : String :=
  "Level " ++ toString level ++ " choices"

def isSummary (level : Int) (f : Feature) : Bool :=
  f.name = summaryName level && f.level = level && f.tags.choice

def summaryFeature (level : Int) (text : String) : Feature :=
  { id := "choice-" ++ toString level
    name := summaryName level
    level := level
    text := text
    tags := .choiceOnly }

def setFirstText (p : Feature → Bool) (text : String) : List Feature → List Feature
  | [] => []
  | f :: fs => if p f then { f with text := text } :: fs else f :: setFirstText p text fs

-- one summary for each level
def setSummary (c : Character) (level : Int) (text : String) : Character :=
  if c.features.any (isSummary level) then
    { c with features := setFirstText (isSummary level) text c.features }
  else { c with features := c.features ++ [summaryFeature level text] }

def summarize (c : Character) (level : Int) (lines : List String) : Character :=
  if lines.isEmpty then c else setSummary c level ("\n".intercalate lines)

-- the entries from `start` on move to `place`
def moveBlock (place? : Option Nat) (start : Nat) (fs : List Feature) : List Feature :=
  match place? with
  | none => fs
  | some place =>
    let kept := fs.take start
    kept.take place ++ fs.drop start ++ kept.drop place

def fold (r : Ruleset) (node : Node) (level : Int) (made : List Made) (c : Character) : Character :=
  let granted := node.grants.foldl (addGrant r level) c
  let chosen := made.foldl (fun c m => foldPicks r m.choice c m.picks) granted
  summarize chosen level (made.map (Made.line r))

-- a level that is given again stands where the first of its entries stood
def commit (r : Ruleset) (node : Node) (level : Int) (made : List Made) (now : Moment)
    (c : Character) : Except Breakdown Character := do
  let place? := if c.isApplied level then c.features.findIdx? (isOfLevel level) else none
  let base := (c.revert level).1
  let folded := fold r node level made base
  let moved := { folded with features := moveBlock place? base.features.length folded.features }
  let recorded ← moved.recordApplied level (recordOf node made)
  return recorded.touch now

/-- Applies a class level. A level that is already applied stays as it is, unless `force` is set. -/
def applyLevel (c : Character) (r : Ruleset) (classId : Option String) (level : Int)
    (selections : Selections) (force : Bool) (now : Moment) : Noted Character := do
  -- a level that is looked up has a text, so what is done with it below does not ask again
  let applied ← .ofExcept (Ledger.isApplied c level)
  if applied && !force then return c
  else
    match r.node? classId level with
    | none => .fail (.levelUp (.progressionMissing classId level (r.levels classId)))
    | some node => do
      let picks ← node.validate selections
      let made ← .ofExcept (madeOf r picks node.choices)
      .ofExcept (commit r node level made now c)

end Character

end Tabletop

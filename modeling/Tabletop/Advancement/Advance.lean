import Tabletop.Advancement.Apply
import Tabletop.Advancement.Plan
import Tabletop.Store.Characters
import Tabletop.Store.Rulesets

/-!
Advancing a stored character through several levels. Each level is saved before the next one begins, so
an advance that stops can be taken up again where it stopped.
-/

set_option autoImplicit false

namespace Tabletop

/-- How a player answers the choice made at a level among the options offered; no picks cancel. -/
abbrev Pick := Choice → List PoolOption → Int → Except Breakdown (Option Answer)

structure Asked where
  level : Int
  choice : Choice
  offered : List PoolOption
deriving DecidableEq, Repr

namespace Asked

def choiceId (a : Asked) : String :=
  a.choice.id

def options (a : Asked) : List String :=
  a.offered.map PoolOption.id

end Asked

structure Advanced where
  character : Character
  startLevel : Int
  applied : List Int
  added : List String
  cancelled : Bool
  note : Option String
deriving DecidableEq

namespace Advanced

def changes (a : Advanced) : List String :=
  [("Level: " : String) ++ toString a.startLevel ++ " -> " ++ toString a.character.level] ++
    (if a.applied.isEmpty then []
     else [("Applied: " : String) ++ ", ".intercalate (a.applied.map toString)]) ++
    (if a.added.isEmpty then [] else [("Features: " : String) ++ ", ".intercalate a.added]) ++
    a.note.toList

def summary (a : Advanced) : String :=
  a.character.name ++ "\n" ++ "\n".intercalate (a.changes.map fun c => "  - " ++ c)

end Advanced

/-- A store, the choices that were asked on the way, and the last character that was to be saved. -/
structure Journey where
  store : Store
  asked : List Asked
  last : Option Character

namespace Journey

abbrev Travel (α : Type) := Action Journey α

def onStore {α : Type} (w : Store.Work α) : Travel α :=
  .part Journey.store (fun s j => { j with store := s }) w

def save (c : Character) : Travel Unit := do
  .change fun j => { j with last := some c }
  onStore (Store.putCharacter c)

def note (a : Asked) : Travel Unit :=
  .change fun j => { j with asked := j.asked ++ [a] }

structure Party where
  character : Character
  ruleset : Ruleset

def given (s : Option String) : Option String :=
  s.filter fun t => !t.isEmpty

def stop {α : Type} (o : Obstacle) : Travel α :=
  .fail (.levelUp (.obstacle o))

def load (id : String) : Travel Party := do
  let some c ← onStore (Store.getCharacter id) | stop (.characterNotFound id)
  let some rulesetId := given c.rulesetId | stop .noRulesetSelected
  let some r ← onStore (Store.getRuleset rulesetId) | stop (.rulesetMissing rulesetId)
  let some _ := given c.classId | stop .noClassSelected
  return ⟨c, r⟩

-- the answers for all choices of a level, or none if the player cancels
def ask (pick : Pick) (p : Party) (level : Int) :
    Dict String Answer → List Choice → Travel (Option (Dict String Answer))
  | answers, [] => return some answers
  | answers, choice :: choices => do
    let c := p.character
    let options ← .ofExcept (p.ruleset.optionsFor c.classId choice level c.subclassId)
    note ⟨level, choice, options⟩
    match ← .ofExcept (pick choice options level) with
    | none => return none
    | some picks => ask pick p level (answers.insert choice.id picks) choices

/-- How far an advance has come; `saved` is the level of the character in the store. -/
structure Progress where
  party : Party
  applied : List Int
  saved : Int
  cancelledAt : Option Int

def Progress.atLevel (p : Progress) (level : Int) : Progress :=
  { p with party := { p.party with character := { p.party.character with level := level } } }

-- the level is applied and saved
def commit (p : Progress) (level : Int) (answers : Dict String Answer) : Travel Progress := do
  let c := p.party.character
  let now ← onStore Store.now
  let updated ← .ofResult
    (c.applyLevel p.party.ruleset c.classId level (.byChoice answers) false now).result
  let updated := { updated with level := level }
  save updated
  return { p with
    party := { p.party with character := updated }
    applied := p.applied ++ [level]
    saved := level }

def step (pick : Pick) (p : Progress) (level : Int) : Travel Progress := do
  let c := p.party.character
  match p.party.ruleset.node? c.classId level with
  | none =>
    .fail (.levelUp (.progressionMissing c.classId level (p.party.ruleset.levels c.classId)))
  | some node =>
    match ← ask pick p.party level .empty node.choices with
    | some answers => commit p level answers
    | none =>
      save c
      return { p with cancelledAt := some level }

-- levels that are applied already are passed without a word
def walk (pick : Pick) : Progress → List Int → Travel Progress
  | p, [] => return p
  | p, level :: levels => do
    if p.party.character.isApplied level then walk pick (p.atLevel level) levels
    else
      let p ← step pick p level
      if p.cancelledAt.isSome then return p else walk pick p levels

def touched (c : Character) : Travel Character := do
  return c.touch (← onStore Store.now)

-- levels that were only passed are saved at the end
def finish (p : Progress) : Travel Character := do
  let c := p.party.character
  if p.cancelledAt.isSome || c.level = p.saved then return c
  else
    let c ← touched c
    save c
    return c

-- a target that is not above the level only sets the level
def lower (c : Character) (target : Int) : Travel Advanced := do
  let updated ← touched { c with level := target }
  save updated
  return { character := updated
           startLevel := c.level
           applied := []
           added := c.addedSince updated
           cancelled := false
           note := some ("Level set to " ++ toString target) }

def climb (pick : Pick) (p : Party) (target : Int) : Travel Advanced := do
  let start := p.character.level
  let levels := Character.levelsBetween start target
  let reached ← walk pick ⟨p, [], start, none⟩ levels
  let c ← finish reached
  return { character := c
           startLevel := start
           applied := reached.applied
           added := p.character.addedSince c
           cancelled := reached.cancelledAt.isSome
           note := reached.cancelledAt.map fun level => "Cancelled at level " ++ toString level }

/-- Brings a stored character to a level between 1 and 20. -/
def advance (id : String) (target : Int) (pick : Pick) : Travel Advanced := do
  let p ← load id
  let target := clamp target 1 20
  if target ≤ p.character.level then lower p.character target else climb pick p target

end Journey

end Tabletop

import Tabletop.Advancement.Apply
import Tabletop.Advancement.Audit
import Tabletop.Advancement.Plan
import Tabletop.Character.Stats

set_option autoImplicit false

namespace Tabletop.Sheet

-- what is absent shows as this word
def shown (s : Option String) : String :=
  s.getD "None"

def signed (n : Int) : String :=
  if 0 ≤ n then "+" ++ toString n else toString n

def valueOf (key : String) (table : List (String × Int)) : Except Breakdown Int :=
  match table.lookup key with
  | some n => .ok n
  | none => .error .missingKey

def nonEmpty : Option String → Option String
  | some s => if s.isEmpty then none else some s
  | none => none

def headLines (c : Character) (s : DerivedStats) : Except Breakdown (List String) := do
  let level ← written c.level
  let current ← written c.hp.current
  let most ← written c.hp.max
  let temp ← written c.hp.temp
  let ac ← written c.ac
  let speed ← written c.speed
  return ["**" ++ c.name ++ "** (" ++ (nonEmpty c.classId).getD "no class" ++ " " ++ level ++ ")",
    "HP " ++ current ++ "/" ++ most ++ (if c.hp.temp = 0 then "" else " (+" ++ temp ++ " temp)") ++
      " | AC " ++ ac ++ " | Speed " ++ speed ++ " | Proficiency " ++ signed s.proficiencyBonus,
    "", "**Abilities:**"]

def abilityLine (c : Character) (s : DerivedStats) (key : String) : Except Breakdown String := do
  let score ← written (← valueOf key c.abilities.entries)
  let modifier ← valueOf key s.modifiers
  let save ← valueOf key s.saves
  return "  " ++ key ++ " " ++ score ++ " (" ++ signed modifier ++ "), save " ++ signed save

def rankMark (rank : Int) : String :=
  if rank = 1 then " *" else if rank = 2 then " **" else ""

def skillLine (c : Character) (s : DerivedStats) (skill title : String) : Except Breakdown String := do
  let total ← valueOf skill s.skills
  return "  " ++ title ++ ": " ++ signed total ++ rankMark ((c.skillRanks.get? skill).getD 0)

def castingLines (s : DerivedStats) : List String :=
  ["", "Spell DC " ++ toString s.spellDc ++ " | Spell attack " ++ signed s.spellAttack ++
    " | Passive Perception " ++ toString s.passivePerception]

def numberSlots : List (String × Int) → Except Breakdown (List (Int × String × Int))
  | [] => .ok []
  | (k, n) :: es => do return (← integerOf k, k, n) :: (← numberSlots es)

def slotText (e : Int × String × Int) : Except Breakdown String := do
  return e.2.1 ++ ": " ++ (← written e.2.2)

def slotLines (s : DerivedStats) : Except Breakdown (List String) :=
  if s.spellSlots.isEmpty then .ok []
  else do
    let slots ← numberSlots s.spellSlots.entries
    let texts ← (slots.mergeSort fun a b => decide (a.1 ≤ b.1)).mapM slotText
    return [("Spell slots: " : String) ++ ", ".intercalate texts]

def idLines (title : String) (ids : IdSet) : List String :=
  if ids.isEmpty then [] else [title ++ ", ".intercalate ids.ids]

def featureLine (f : Feature) : Except Breakdown String := do
  return "  [" ++ (← written f.level) ++ "] " ++ f.name

def featureLines (c : Character) : Except Breakdown (List String) :=
  if c.features.isEmpty then .ok []
  else do
    let lines ← (c.features.mergeSort fun a b => decide (a.level ≤ b.level)).mapM featureLine
    return ["", "**Features:**"] ++ lines

def rulesetMissing (id : Option String) : String :=
  "Ruleset '" ++ shown id ++ "' missing. Re-import it."

def auditLines (c : Character) : Option Ruleset → Except Breakdown (List String)
  | none => .ok ["", "⚠️ " ++ rulesetMissing c.rulesetId]
  | some r => do
    let report ← c.audit r
    return if report.issues.isEmpty then [] else ["", report.text]

def render (c : Character) (ruleset? : Option Ruleset) : Except Breakdown String := do
  let s ← Stats.derive c ruleset?
  let head ← headLines c s
  let abilities ← Ability.keys.mapM (abilityLine c s)
  let skills ← Stats.skills.mapM fun k => skillLine c s k.1 k.2.2
  let slots ← slotLines s
  let features ← featureLines c
  let audit ← auditLines c ruleset?
  return "\n".intercalate <|
    head ++ abilities ++ ["", "**Skills:**"] ++ skills ++ castingLines s ++ slots ++
      idLines "Cantrips: " c.spells.cantrips ++ idLines "Spells known: " c.spells.known ++
      idLines "Infusions: " c.infusions ++ features ++ audit

def choiceLine (choice : Choice) : Except Breakdown String := do
  return "Choice \x60" ++ choice.id ++ "\x60: " ++ choice.label ++ " (pick " ++
    (← written choice.count) ++ " from " ++ choice.source ++ ")"

def plan (c : Character) (r : Ruleset) (level : Int) : Except Breakdown String := do
  let p := LevelPlan.build r c level
  let level ← written p.level
  if p.nodeMissing then
    return "No progression defined for '" ++ shown p.classId ++ "' at level " ++ level ++ "."
  else
    let choices ← p.choices.mapM choiceLine
    return "\n".intercalate <|
      ["**" ++ shown p.classId ++ " level " ++ level ++ "**"] ++
        (if p.grants.isEmpty then []
         else [("Grants: " : String) ++ ", ".intercalate (p.grants.map r.featureName)]) ++
        choices

def optionLine (o : PoolOption) : Except Breakdown String := do
  let level ← match o.level with
    | some l => pure (" [level " ++ (← written l) ++ "]")
    | none => pure ""
  return "• " ++ o.id ++ ": " ++ o.name ++ level

def options (c : Character) (r : Ruleset) (level : Int) (choiceId : String) :
    Except Breakdown String :=
  match (r.node? c.classId level).bind fun n => n.choice? choiceId with
  | none => do return "❌ No choice '" ++ choiceId ++ "' at level " ++ (← written level) ++ "."
  | some choice => do
    let options ← r.optionsFor c.classId choice level c.subclassId
    if options.isEmpty then return "Ruleset defines no options for '" ++ choice.label ++ "'."
    else
      let heading := "**" ++ choice.label ++ "** (pick " ++ (← written choice.count) ++ "):"
      return "\n".intercalate (heading :: (← options.mapM optionLine))

def raiseLevel (c : Character) (level : Int) : Character :=
  if c.level < level then { c with level := level } else c

def levelMessage (before after : Character) : String :=
  let added := before.addedSince after
  "⬆️ " ++ after.name ++ " is now level " ++ toString after.level ++
    (if added.isEmpty then "" else ". New: " ++ ", ".intercalate added)

/-- Applies a level for a player: the character if it worked, and the message either way. -/
def applyLevel (c : Character) (r : Ruleset) (level : Int) (selections : Selections)
    (force : Bool) (now : Moment) : Except Failure (Option Character × String) :=
  match (c.applyLevel r c.classId level selections force now).result with
  | .ok updated => do
    let updated := raiseLevel updated level
    -- the message tells the level
    let _ ← Failure.ofExcept (written updated.level)
    return (some updated, levelMessage c updated)
  | .error (.levelUp f) => .ok (none, "❌ " ++ f.message)
  | .error f => .error f

end Tabletop.Sheet

import Tabletop.Character.Advancement
import Tabletop.Ruleset

set_option autoImplicit false

namespace Tabletop

namespace Stats

-- skill, the ability behind it, the name shown
def skills : List (String × String × String) :=
  [("acrobatics", "DEX", "Acrobatics"), ("animal_handling", "WIS", "Animal Handling"),
    ("arcana", "INT", "Arcana"), ("athletics", "STR", "Athletics"),
    ("deception", "CHA", "Deception"), ("history", "INT", "History"),
    ("insight", "WIS", "Insight"), ("intimidation", "CHA", "Intimidation"),
    ("investigation", "INT", "Investigation"), ("medicine", "WIS", "Medicine"),
    ("nature", "INT", "Nature"), ("perception", "WIS", "Perception"),
    ("performance", "CHA", "Performance"), ("persuasion", "CHA", "Persuasion"),
    ("religion", "INT", "Religion"), ("sleight_of_hand", "DEX", "Sleight Of Hand"),
    ("stealth", "DEX", "Stealth"), ("survival", "WIS", "Survival")]

def defaultCastingAbility : String := "INT"

-- two at first, one more every four levels
def proficiencyBonus (level : Int) : Int :=
  2 + (clamp level 1 20 - 1).fdiv 4

def abilityModifier (score : Int) : Int :=
  (clamp score 1 30 - 10).fdiv 2

def levelKeys : List String → Except Breakdown (List Int)
  | [] => .ok []
  | k :: ks =>
    if Text.isDigits k then do
      let n ← integerOf k
      return n :: (← levelKeys ks)
    else levelKeys ks

def sortedKeys (keys : List Int) : List Int :=
  keys.mergeSort fun a b => decide (a ≤ b)

variable {α β : Type}

-- the entry under the plain decimal form of a number
def entryAt (table : List (String × α)) (n : Int) : Option α :=
  table.lookup (toString n)

/-- The value at the highest numeric key not above the level. -/
def scalarAt (table : List (String × α)) (level : Int) (fallback : Option α) :
    Except Breakdown (Option α) := do
  let keys ← levelKeys (table.map (·.1))
  return (sortedKeys keys).foldl (fun v k => if k ≤ level then entryAt table k else v) fallback

def mergeChunk (slots : Dict String β) (chunk : List (String × β)) : Dict String β :=
  chunk.foldl (fun d e => d.insert e.1 e.2) slots

def mergeChunks (chunkOf : α → Except Breakdown (List (String × β))) (table : List (String × α)) :
    Dict String β → List Int → Except Breakdown (Dict String β)
  | slots, [] => .ok slots
  | slots, k :: ks =>
    match entryAt table k with
    | none => mergeChunks chunkOf table slots ks
    | some entry => do
      let chunk ← chunkOf entry
      mergeChunks chunkOf table (mergeChunk slots chunk) ks

/-- The slots of every key up to the level, a later key going over an earlier one. -/
def slotsAt (chunkOf : α → Except Breakdown (List (String × β))) (table : List (String × α))
    (level : Int) : Except Breakdown (Dict String β) := do
  let keys ← levelKeys (table.map (·.1))
  mergeChunks chunkOf table .empty ((sortedKeys keys).filter fun k => k ≤ level)

-- a slot entry of a document: an absent one holds nothing
def valueChunk (v : Value) : Except Breakdown (List (String × Value)) :=
  match v with
  | .map es => .ok (es.map fun e => (e.1.text, e.2))
  | v => if v.isTruthy then .error .notAMap else .ok []

def typedChunk (slots : Dict String Int) : Except Breakdown (List (String × Int)) :=
  .ok slots.entries

end Stats

structure DerivedStats where
  proficiencyBonus : Int
  modifiers : List (String × Int)
  saves : List (String × Int)
  skills : List (String × Int)
  spellDc : Int
  spellAttack : Int
  passivePerception : Int
  spellSlots : Dict String Int

namespace Stats

def modifierOf (c : Character) (ability : String) : Int :=
  abilityModifier ((c.abilities.get? ability).getD 10)

def skillTotal (c : Character) (bonus : Int) (skill ability : String) : Int :=
  modifierOf c ability + bonus * clamp ((c.skillRanks.get? skill).getD 0) 0 2

def castingAbility (class? : Option ClassDef) : String :=
  match class?.bind (·.castingAbility) with
  | some a =>
    if a.isEmpty then defaultCastingAbility
    else String.ofList ((Text.upper a).toList.take 3)
  | none => defaultCastingAbility

def slotsOf (class? : Option ClassDef) (level : Int) : Except Breakdown (Dict String Int) :=
  match class? with
  | some c => slotsAt typedChunk c.spellSlots.entries level
  | none => .ok .empty

def derive (c : Character) (ruleset? : Option Ruleset) : Except Breakdown DerivedStats := do
  let level := clamp c.level 1 20
  let bonus := proficiencyBonus level
  let modifiers := Ability.keys.map fun k => (k, modifierOf c k)
  let class? := ruleset?.bind fun r => r.class? c.classId
  let slots ← slotsOf class? level
  let casting := (modifiers.lookup (castingAbility class?)).getD 0
  return { proficiencyBonus := bonus
           modifiers := modifiers
           saves := modifiers.map fun m => (m.1, m.2 + if c.saves.contains m.1 then bonus else 0)
           skills := skills.map fun s => (s.1, skillTotal c bonus s.1 s.2.1)
           spellDc := 8 + bonus + casting
           spellAttack := bonus + casting
           passivePerception := 10 + skillTotal c bonus "perception" "WIS"
           spellSlots := slots }

end Stats

end Tabletop

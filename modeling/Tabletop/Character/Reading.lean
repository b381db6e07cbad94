import Tabletop.Character.Advancement
import Tabletop.Record.Field

set_option autoImplicit false

namespace Tabletop

/-- Where new records take their ids and times from: a serial number that no two readings share. -/
structure Supply where
  serial : Nat
  now : Moment
deriving DecidableEq, Repr

def Supply.freshId (s : Supply) (slot : Nat) : String :=
  "gen" ++ padded 6 s.serial ++ padded 6 slot

open Tabletop.Field (Entries)

def nonNull (es : Entries) : Entries :=
  es.filter fun e => !e.2.isNull

def coercedField (name : String) (default : Int) (es : Entries) : Except Breakdown Int :=
  match Value.field? name es with
  | some v => coerceInt default v
  | none => .ok default

def HitPoints.ofEntries (es : Entries) : Except Breakdown HitPoints := do
  let es := nonNull es
  let current ← coercedField "current" 10 es
  let most ← coercedField "max" 10 es
  let temp ← coercedField "temp" 0 es
  return ⟨current, Max.max 1 most, Max.max 0 temp⟩

def HitPoints.read : Field.Reader HitPoints :=
  Field.record fun es => .ofExcept (HitPoints.ofEntries es)

def Item.migrate (es : Entries) : Entries :=
  match Value.field? "qty" es with
  | some v =>
    if Value.hasField "quantity" es then es
    else Value.setField "quantity" v (Value.dropField "qty" es)
  | none => es

def Item.read (freshId : String) : Field.Reader Item :=
  Field.record fun es =>
    let es := Item.migrate es
    Item.mk <$> Field.withDefault "id" freshId Field.string es
      <*> Field.required "name" Field.string es
      <*> Field.withDefault "quantity" 1 (Field.integerFrom 1) es
      <*> Field.withDefault "note" "" Field.string es
      <*> Field.withDefault "weight" none (Field.optional Field.float) es

def FeatureTags.add (t : FeatureTags) : String → FeatureTags
  | "grant" => { t with grant := true }
  | "choice" => { t with choice := true }
  | "manual" => { t with manual := true }
  | _ => t

def FeatureTags.tagName : Field.Reader String
  | .str s => if s = "grant" || s = "choice" || s = "manual" then .ok s else .fault .literal
  | _ => .fault .literal

def FeatureTags.read : Field.Reader FeatureTags := fun v =>
  (Field.listOf .setType FeatureTags.tagName v).map fun names =>
    names.foldl FeatureTags.add FeatureTags.none

def Feature.read (freshId : String) : Field.Reader Feature :=
  Field.record fun es =>
    Feature.mk <$> Field.withDefault "id" freshId Field.string es
      <*> Field.required "name" Field.string es
      <*> Field.withDefault "level" 1 Field.integer es
      <*> Field.withDefault "text" "" Field.string es
      <*> Field.withDefault "tags" FeatureTags.manualOnly FeatureTags.read es

def readIds : Field.Reader IdSet := fun v =>
  (Field.listOf .setType Field.string v).map IdSet.ofList

def readIdsOrNull : Field.Reader IdSet
  | .null => .ok .empty
  | v => readIds v

def SpellBook.read : Field.Reader SpellBook :=
  Field.record fun es =>
    SpellBook.mk <$> Field.withDefault "cantrips" .empty readIdsOrNull es
      <*> Field.withDefault "known" .empty readIdsOrNull es

def readInfusions : Field.Reader IdSet :=
  Field.record (Field.withDefault "learned" .empty readIds)

-- elements take the slots that follow `slot`
def readEach {α : Type} (read : String → Field.Reader α) (supply : Supply) :
    Nat → Nat → List Value → Checked (List α)
  | _, _, [] => .ok []
  | slot, i, x :: xs =>
    (List.cons <$> (read (supply.freshId slot) x).within (.index i))
      <*> readEach read supply (slot + 1) (i + 1) xs

def readSlots {α : Type} (read : String → Field.Reader α) (supply : Supply) (slot : Nat) :
    Field.Reader (List α) := fun v =>
  match Field.elements? v with
  | some xs => readEach read supply slot 0 xs
  | none => .fault .listType

def elementCount (name : String) (es : Entries) : Nat :=
  (((Value.field? name es).bind Field.elements?).getD []).length

namespace Character

def legacyNames : List (String × String) :=
  [("rulesetId", "ruleset_id"), ("classId", "class_id"), ("subclassId", "subclass_id"),
    ("skillProfs", "skill_proficiency_rank"), ("skillProficiencyRank", "skill_proficiency_rank"),
    ("saveProfs", "save_proficiency"), ("saveProficiency", "save_proficiency"),
    ("portrait", "portrait_ref"), ("portraitRef", "portrait_ref"), ("createdAt", "created_at"),
    ("updatedAt", "updated_at")]

-- an old name gives its value to the current one, unless that is given too
def renameField (es : Entries) (names : String × String) : Entries :=
  match Value.field? names.1 es with
  | some v =>
    if Value.hasField names.2 es then es
    else Value.dropField names.1 es ++ [(.str names.2, v)]
  | none => es

def currentNames (es : Entries) : Entries :=
  legacyNames.foldl renameField es

-- temporary hit points once had a field of their own
def hpEntries (es : Entries) : Entries :=
  let hp := ((Value.field? "hp" es).bind Value.entries?).getD []
  match Value.field? "tempHp" es with
  | some t =>
    if Value.hasField "temp" hp then hp
    else hp ++ [(.str "temp", if t.isTruthy then t else .int 0)]
  | none => hp

def defaultScores : Dict String Int :=
  .ofList (Ability.keys.map fun k => (k, 10))

-- older records hold a score inside an object
def scoreOf : Value → Value
  | .map es => (Value.field? "score" es).getD (.int 10)
  | v => v

def readScores (scores : Dict String Int) : Entries → Except Breakdown (Dict String Int)
  | [] => .ok scores
  | (k, v) :: es => do
    let score ← coerceInt 10 (scoreOf v)
    readScores (scores.insert (Ability.normalizeKey k.text) (clamp score 1 30)) es

def readAbilities : Value → Except Breakdown (Dict String Int)
  | .map es => readScores defaultScores es
  | _ => .ok defaultScores

def readRankEntries (ranks : Dict String Int) : Entries → Except Breakdown (Dict String Int)
  | [] => .ok ranks
  | (k, v) :: es => do
    let rank ← coerceInt 0 v
    readRankEntries (ranks.insert k.text (clamp rank 0 2)) es

def readRanks : Value → Except Breakdown (Dict String Int)
  | .map es => readRankEntries .empty es
  | _ => .ok .empty

-- a map of truth values names the keys that are true
def readSaves : Value → Except Breakdown IdSet
  | .map es =>
    .ok (.ofList ((es.filter fun e => e.2.isTruthy).map fun e => Ability.normalizeKey e.1.text))
  | v => do
    if !v.isTruthy then return .empty
    else return .ofList ((← v.members).map fun k => Ability.normalizeKey k.text)

def portraitOf : Value → Value
  | .map es =>
    let blob := Value.field "blobId" es
    if blob.isTruthy then blob else Value.field "dataUrl" es
  | v => v

def prepared {α : Type} (name : String) (default : α) (read : Value → Except Breakdown α)
    (es : Entries) : Checked α :=
  Field.withDefault name default (fun v => .ofExcept (read v)) es

def defaultName : String := "Unnamed Character"

-- the values that are settled before any field is read
structure Settled where
  level : Int
  ac : Int
  speed : Int
  ledger : Ledger
  notices : List Notice

def settle (es : Entries) : Except Breakdown Settled := do
  let level := clamp (← coercedField "level" 1 es) 1 20
  let ac ← coercedField "ac" 10 es
  let speed ← coercedField "speed" 30 es
  let (ledger, notices) ← Ledger.ofValue level (Value.field "advancement" es)
  return ⟨level, ac, speed, ledger, notices⟩

def readFields (supply : Supply) (es : Entries) (s : Settled) : Checked Character :=
  let named := if (Value.field "name" es).isTruthy then es else Value.dropField "name" es
  let items := elementCount "inventory" es
  Character.mk <$> Field.withDefault "id" (supply.freshId 0) Field.string es
    <*> Field.withDefault "name" defaultName Field.string named
    <*> Field.withDefault "ruleset_id" none (Field.optional Field.string) es
    <*> Field.withDefault "class_id" none (Field.optional Field.string) es
    <*> Field.withDefault "subclass_id" none (Field.optional Field.string) es
    <*> pure s.level
    <*> prepared "abilities" defaultScores readAbilities es
    <*> (Checked.ofExcept (HitPoints.ofEntries (hpEntries es))).within (.name "hp")
    <*> pure s.ac
    <*> pure s.speed
    <*> prepared "skill_proficiency_rank" .empty readRanks es
    <*> prepared "save_proficiency" .empty readSaves es
    <*> Field.withDefault "inventory" [] (readSlots Item.read supply 1) es
    <*> Field.withDefault "spells" ⟨.empty, .empty⟩ SpellBook.read es
    <*> Field.withDefault "infusions" .empty readInfusions es
    <*> Field.withDefault "features" [] (readSlots Feature.read supply (1 + items)) es
    <*> pure s.ledger
    <*> Field.withDefault "notes" "" Field.string es
    <*> Field.withDefault "portrait_ref" none (fun v => Field.optional Field.string (portraitOf v)) es
    <*> Field.withDefault "created_at" supply.now Field.moment es
    <*> Field.withDefault "updated_at" supply.now.next Field.moment es

def ofEntries (supply : Supply) (es : Entries) : Checked (Character × List Notice) :=
  let es := currentNames (nonNull es)
  (Checked.ofExcept (settle es)).andThen fun s =>
    (readFields supply es s).map fun c => (c, s.notices)

/-- The character that a stored record describes; an absent or empty record describes a new one. -/
def ofValue (supply : Supply) (v : Value) : Checked (Character × List Notice) :=
  if v.isTruthy then Field.record (ofEntries supply) v else ofEntries supply []

end Character

end Tabletop

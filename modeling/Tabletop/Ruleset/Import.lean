import Tabletop.Noted
import Tabletop.Ruleset.Check
import Tabletop.Ruleset.Reading

set_option autoImplicit false

namespace Tabletop.Ruleset

open Tabletop.Field (Entries)

-- a part that is refused is left out; `skipped` says what to note then
def partOf {α : Type} (skipped : Nat → Notice) : Checked α → Noted (Option α)
  | .ok a => return some a
  | .refused fs => do
    .note (skipped fs.length)
    return none
  | .broken c => .fail (.breakdown c)

-- one value stands for a list of itself
def asList : Value → Except Breakdown (List Value)
  | .null => .ok []
  | .str s => .ok [.str s]
  | .bool b => .ok [.bool b]
  | .int i => .ok [.int i]
  | .float d => .ok [.float d]
  | v => v.members

def choiceEntries (es : Entries) : Entries :=
  Value.setField "id" (.str (Value.field "id" es).text) es

def choiceOf (classId level : String) (item : Value) : Noted (Option Choice) :=
  match item with
  | .map es =>
    if Check.lacksId item then return none
    else partOf (.invalidChoice classId level) (Choice.ofEntries (choiceEntries es))
  | _ => return none

def choicesOf (classId level : String) : List Choice → List Value → Noted (List Choice)
  | kept, [] => return kept
  | kept, item :: items => do
    match ← choiceOf classId level item with
    | none => choicesOf classId level kept items
    | some choice =>
      if kept.any (fun c => c.id = choice.id) || choice.id = grantsKey then
        .note (.duplicateChoice choice.id classId level)
        choicesOf classId level kept items
      else choicesOf classId level (kept ++ [choice]) items

def nodeOf (classId : String) (level : Int) (es : Entries) : Noted Node := do
  let grants ← .ofExcept (asList (Value.field "grants" es))
  let items ← .ofExcept (Value.looped (Value.field "choices" es))
  let choices ← choicesOf classId (toString level) [] items
  return ⟨grants.map Value.text, choices⟩

def progressionOf (classId : String) : Dict Int Node → Entries → Noted (Dict Int Node)
  | nodes, [] => return nodes
  | nodes, (k, v) :: es => do
    match ← Noted.ofExcept (Check.levelKey? k), v with
    | some level, .map fields => do
      let node ← nodeOf classId level fields
      progressionOf classId (nodes.insert level node) es
    | _, _ => progressionOf classId nodes es

-- an optional map
def mapEntries (v : Value) : Except Breakdown Entries :=
  match v with
  | .map es => .ok es
  | v => if v.isTruthy then .error .notAMap else .ok []

def stringifyKeys (es : Entries) : Entries :=
  (es.map fun e => ((.str e.1.text : Value), e.2)).foldl
    (fun es e => Value.putEntry e.1 e.2 es) []

def stringifySlots : Value → Value
  | .map es => .map (stringifyKeys es)
  | v => v

def stringifyTable : Value → Value
  | .map es => .map (stringifyKeys (es.map fun e => (e.1, stringifySlots e.2)))
  | v => v

def stringifyField (name : String) (es : Entries) : Entries :=
  match Value.field? name es with
  | some v => Value.setField name (stringifyTable v) es
  | none => es

def hitDieField (es : Entries) : Value :=
  (Value.field? "hitDie" es).getD (Value.field "hit_die" es)

def isDieText (s : String) : Bool :=
  (Text.lower s).toList.head? = some 'd'

-- the die may be written with its letter
def settleHitDie (es : Entries) : Entries :=
  match hitDieField es with
  | .str s =>
    if isDieText s then
      Value.dropField "hit_die"
        (Value.setField "hitDie" (.str (String.ofList (s.toList.drop 1))) es)
    else es
  | _ => es

def classEntries (classId : String) (es : Entries) : Entries :=
  let es := Value.setField "id" (.str classId) (Value.dropField "progression" es)
  let es :=
    if (Value.field "name" es).isTruthy then es else Value.setField "name" (.str classId) es
  stringifyField "spell_slots" (stringifyField "spellSlots" (settleHitDie es))

def classOf (classId : String) (es : Entries) : Noted (Option ClassDef) := do
  let nodes ← .ofExcept (mapEntries (Value.field "progression" es))
  let progression ← progressionOf classId .empty nodes
  partOf (.invalidClass classId) (ClassDef.ofEntries progression (classEntries classId es))

def classesOf : Dict String ClassDef → Entries → Noted (Dict String ClassDef)
  | classes, [] => return classes
  | classes, (k, .map fields) :: es => do
    match ← classOf k.text fields with
    | some c => classesOf (classes.insert k.text c) es
    | none => classesOf classes es
  | classes, _ :: es => classesOf classes es

def idOfName (name : String) : String :=
  String.ofList (((Text.lower name).toList.map fun c => if c = ' ' then '-' else c).filter
    (· != '\''))

def withId (es : Entries) : Entries :=
  let name := Value.field "name" es
  if !Value.hasField "id" es && name.isTruthy then
    Value.setField "id" (.str (idOfName name.text)) es
  else es

def withTextId (es : Entries) : Entries :=
  match Value.field "id" es with
  | .null => es
  | v => Value.setField "id" (.str v.text) es

def withName (es : Entries) : Entries :=
  match Value.field? "name" es with
  | none =>
    if Value.hasField "id" es then
      Value.setField "name" (.str (Value.field "id" es).text) es
    else es
  | some .null => es
  | some v => Value.setField "name" (.str v.text) es

def withTagList (es : Entries) : Entries :=
  match Value.field "tags" es with
  | .str s => Value.setField "tags" (.list [.str s]) es
  | _ => es

-- an id gives a name and a name gives an id
def optionEntries (es : Entries) : Entries :=
  withTagList (withName (withTextId (withId es)))

def optionsOf (pool : String) : List Value → Noted (List PoolOption)
  | [] => return []
  | .map es :: items => do
    let option? ← partOf (.invalidOption pool) (PoolOption.ofEntries (optionEntries es))
    let options ← optionsOf pool items
    return option?.toList ++ options
  | _ :: items => optionsOf pool items

def declaredPools (es : Entries) : Entries :=
  Pools.standardKeys.foldl
    (fun declared k =>
      match Value.field? k es with
      | some v => Value.setField k v declared
      | none => declared)
    (Value.entriesOrEmpty (Value.field "pools" es))

def poolLists : Entries → Noted (List (Value × List PoolOption))
  | [] => return []
  | (k, .list items) :: es => do
    let options ← optionsOf k.text items
    let pools ← poolLists es
    return (k, options) :: pools
  | (k, _) :: es => do
    .note (.poolNotAList k.text)
    poolLists es

def poolNamed (name : String) (pools : List (Value × List PoolOption)) : List PoolOption :=
  ((pools.find? fun p => Value.isKey name p.1).map (·.2)).getD []

def isStandardKey (k : Value) : Bool :=
  Pools.standardKeys.any fun name => Value.isKey name k

-- a pool's name is a text
def keyed {α : Type} : List (Value × α) → Checked (List (String × α))
  | [] => .ok []
  | (k, a) :: es =>
    let key := ((Field.string k).within (.name "[key]")).within (Field.keyStep k)
    (List.cons <$> key.map (·, a)) <*> keyed es

def poolsOf (es : Entries) : Noted Pools := do
  let pools ← poolLists (declaredPools es)
  let extra ← .ofChecked
    ((keyed (pools.filter fun p => !isStandardKey p.1)).within (.name "extra"))
  return { spells := poolNamed "spells" pools
           infusions := poolNamed "infusions" pools
           features := poolNamed "features" pools
           feats := poolNamed "feats" pools
           extra := .ofList extra }

def featureEntries (featureId : String) (info : Value) : Option Entries :=
  match info with
  | .str s => some [(.str "name", .str s)]
  | .map es =>
    some (if Value.hasField "name" es then es else (.str "name", .str featureId) :: es)
  | _ => none

def featureOf (featureId : String) (info : Value) : Noted (Option FeatureInfo) :=
  match featureEntries featureId info with
  | some fields => partOf (.invalidFeature featureId) (FeatureInfo.ofEntries fields)
  | none => return none

def featuresOf : Dict String FeatureInfo → Entries → Noted (Dict String FeatureInfo)
  | features, [] => return features
  | features, (k, v) :: es => do
    match ← featureOf k.text v with
    | some info => featuresOf (features.insert k.text info) es
    | none => featuresOf features es

def featureDictionary (es : Entries) : Entries :=
  Value.entriesOrEmpty
    ((Value.field? "featuresDictionary" es).getD (Value.field "features_dictionary" es))

def textOr (default : String) (v : Value) : String :=
  if v.isTruthy then v.text else default

-- the members of a document are named by texts
def checkNames (es : Entries) : Checked (List (String × Value)) :=
  (keyed es).within (.name "raw")

def build (now : Moment) (es : Entries) : Noted Ruleset := do
  let metaEntries := Value.entriesOrEmpty (Value.field "meta" es)
  let id := (Value.field "id" metaEntries).text
  let classes ← classesOf .empty (Value.entriesOrEmpty (Value.field "classes" es))
  let pools ← poolsOf es
  let features ← featuresOf .empty (featureDictionary es)
  let _ ← .ofChecked (checkNames es)
  return { id := id
           name := textOr id (Value.field "name" metaEntries)
           version := textOr "1.0" (Value.field "version" metaEntries)
           classes := classes
           pools := pools
           features := features
           importedAt := now
           document := .map es }

def issueNotice (subject : String) (i : Issue) : Notice :=
  .documentIssue subject i.field i.message

def ofDocument (now : Moment) (document : Value) : Noted Ruleset := do
  let report ← .ofExcept (check document)
  if report.valid then
    .notes (report.warnings.map (issueNotice report.subject))
    build now (Value.entriesOrEmpty document)
  else .fail (.rulesetInvalid (.rejected report))

end Tabletop.Ruleset

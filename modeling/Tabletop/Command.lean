import Tabletop.Advancement.Advance
import Tabletop.Sheet
import Tabletop.Store.Backup
import Tabletop.Store.Files

set_option autoImplicit false

namespace Tabletop.Command

open Store (Work)

def onWriteFailure (title : String) (w : Work String) : Work String := do
  match ← w.outcome with
  | .ok text => return text
  | .error (.storeWrite file reason) => return title ++ writeMessage file reason
  | .error f => .fail f

-- a short source that ends like a file of rules is a path, if it leads to one
def loadSource (source format : String) : Work Ruleset := do
  let isPath ←
    if source.length < 1024 && Store.rulesetSuffixes.contains (Disk.suffixOf source) then
      (Option.isSome) <$> Action.ofExcept ((← Action.state).disk.find? source)
    else pure false
  if isPath then Store.loadRuleset source
  else .ofResult (Ruleset.ofText (← Store.now) format source).result

def importRuleset (source format : String) : Work String := do
  match ← (loadSource source format).outcome with
  | .error (.rulesetInvalid p) => return "❌ Ruleset import refused: " ++ p.message
  | .error f => .fail f
  | .ok r =>
    onWriteFailure "❌ Could not save ruleset: " do
      Store.putRuleset r
      Store.putSetting Store.activeRuleset (.str r.id)
      return "📚 Imported ruleset '" ++ r.name ++ "' v" ++ r.version ++ " (" ++ r.summary ++
        ") and set as active"

def activeMark (isActive : Bool) : String :=
  if isActive then " (active)" else ""

def summaryLine (active : Value) (s : Store.Summary) : String :=
  "• " ++ s.name.text ++ " [" ++ s.id.text ++ "] v" ++ s.version.text ++
    activeMark (Value.sameKey s.id active)

def listRulesets : Work String := do
  let summaries ← Store.listRulesets
  if summaries.isEmpty then
    let s ← Action.state
    return "❌ No rulesets found in " ++ s.disk.pathText s.root ++ "!"
  else
    let active ← Store.setting Store.activeRuleset
    return "**Imported Rulesets:**\n" ++ "\n".intercalate (summaries.map (summaryLine active))

-- the id given, or else the active one
def idOrActive (given : Option String) (setting : String) : Work (Option String) := do
  match Journey.given given with
  | some id => return some id
  | none =>
    let v ← Store.setting setting
    if !v.isTruthy then return none
    else
      match v with
      | .str s => return some s
      | _ => .breakdown .notIterable

structure NewCharacter where
  name : Value
  classId : String
  subclassId : Value
  abilities : Value
  maxHp : Value
  ac : Value

def NewCharacter.toValue (n : NewCharacter) (rulesetId : String) : Value :=
  .map [(.str "name", n.name), (.str "ruleset_id", .str rulesetId),
    (.str "class_id", .str n.classId), (.str "subclass_id", n.subclassId),
    (.str "abilities", if n.abilities.isTruthy then n.abilities else .map []),
    (.str "hp", .map [(.str "current", n.maxHp), (.str "max", n.maxHp)]), (.str "ac", n.ac)]

def saveNew (n : NewCharacter) (rulesetId : String) : Work String := do
  let supply ← Store.tick
  let (c, _) ← .ofChecked (Character.ofValue supply (n.toValue rulesetId))
  onWriteFailure "❌ Could not save character: " do
    Store.putCharacter c
    Store.putSetting Store.activeCharacter (.str c.id)
    return "🧙 Created character '" ++ c.name ++ "' [" ++ c.id ++ "] (" ++ n.classId ++
      " 1) and set as active"

def createCharacter (n : NewCharacter) (rulesetId : Option String) : Work String := do
  let some rulesetId ← idOrActive rulesetId Store.activeRuleset
    | return "❌ Select a ruleset first (import one with \x60import_ruleset\x60)."
  let some r ← Store.getRuleset rulesetId
    | return "❌ Ruleset '" ++ rulesetId ++ "' not found."
  match r.class? (some n.classId) with
  | some _ => saveNew n r.id
  | none =>
    return "❌ Class '" ++ n.classId ++ "' not found in '" ++ r.name ++ "'. Available: " ++
      (if r.classes.isEmpty then "(none)" else ", ".intercalate r.classes.keys)

def characterLine (active : Value) (c : Character) : String :=
  "• " ++ c.name ++ " [" ++ c.id ++ "] " ++ (Journey.given c.classId).getD "?" ++ " " ++
    toString c.level ++ activeMark (Value.isKey c.id active)

def listCharacters : Work String := do
  let characters ← Store.listCharacters
  if characters.isEmpty then return "❌ No characters found."
  else
    let active ← Store.setting Store.activeCharacter
    return "**Characters:**\n" ++ "\n".intercalate (characters.map (characterLine active))

def characterNotFound : String := "❌ Character not found."

def findCharacter (id : Option String) : Work (Option Character) := do
  match ← idOrActive id Store.activeCharacter with
  | some id => Store.getCharacter id
  | none => return none

def rulesetOf (c : Character) : Work (Option Ruleset) := do
  match Journey.given c.rulesetId with
  | some id => Store.getRuleset id
  | none => return none

def characterSheet (id : Option String) : Work String := do
  let some c ← findCharacter id | return characterNotFound
  .ofExcept (Sheet.render c (← rulesetOf c))

-- the character and its ruleset, or what to answer if one is missing
def withRuleset (id : Option String) (answer : Character → Ruleset → Work String) :
    Work String := do
  let some c ← findCharacter id | return characterNotFound
  let some r ← rulesetOf c | return "❌ " ++ Sheet.rulesetMissing c.rulesetId
  answer c r

def levelUpPlan (target : Int) (id : Option String) : Work String :=
  withRuleset id fun c r => .ofExcept (Sheet.plan c r target)

def choiceOptions (level : Int) (choiceId : String) (id : Option String) : Work String :=
  withRuleset id fun c r => .ofExcept (Sheet.options c r level choiceId)

def applyLevel (level : Int) (selections : Selections) (force : Bool) (id : Option String) :
    Work String :=
  withRuleset id fun c r => do
    let now ← Store.now
    match ← .ofResult (Sheet.applyLevel c r level selections force now) with
    | (none, message) => return message
    | (some updated, message) =>
      onWriteFailure "❌ Level applied but not saved: " do
        Store.putCharacter updated
        return message

def advancedText (a : Advanced) : String :=
  if a.cancelled then
    "⏸️ " ++ a.summary ++ "\nProvide selections for the next level and call again to resume."
  else "⬆️ " ++ a.summary

-- what was laid down for a choice: level, then choice id, then picks
def answersOf (selections : Value) : Pick := fun choice _ level =>
  match selections with
  | .map es =>
    match Value.field? (toString level) es with
    | none => .ok none
    | some (.map answers) =>
      match Value.field choice.id answers with
      | .null => .ok none
      | v => v.members.map fun _ => some (Answer.ofValue v)
    | some _ => .error .notAMap
  | v => if v.isTruthy then .error .notAMap else .ok none

-- a journey that is not looked back on
def travel {α : Type} (t : Journey.Travel α) : Work α :=
  ⟨fun s => ((t.run ⟨s, [], none⟩).1, (t.run ⟨s, [], none⟩).2.store)⟩

def levelUp (target : Int) (pick : Pick) (id : Option String) : Work String := do
  let some id ← idOrActive id Store.activeCharacter | return "❌ Select a character first."
  match ← (travel (Journey.advance id target pick)).outcome with
  | .ok a => return advancedText a
  | .error (.storeWrite file reason) =>
    return "❌ Progress could not be saved: " ++ writeMessage file reason
  | .error (.levelUp f) => return "❌ " ++ f.message
  | .error f => .fail f

def exportBackup (path : Option String) : Work String := do
  let backup ← Store.exportBackup
  match Journey.given path with
  | none => return Json.indented 0 (← .ofExcept (Json.plain backup.toValue))
  | some path =>
    let d := (← Action.state).disk
    match d.openForWriting path with
    | .error reason => return "❌ Could not write backup: " ++ Disk.withPath reason path
    | .ok place =>
      let document ← .ofExcept (Json.plain backup.toValue)
      .change fun s =>
        { s with disk := { s.disk with files := s.disk.files.insert place (.document document) } }
      return "📦 Exported " ++ toString backup.rulesets.length ++ " rulesets and " ++
        toString backup.characters.length ++ " characters to " ++ path

inductive BackupFile where
  | document (v : Value)
  | unreadable (reason : String)

def readBackup (path : String) : Work BackupFile := do
  let d := (← Action.state).disk
  match d.reach path with
  | .error reason => return .unreadable (Disk.withPath reason path)
  | .ok p =>
    match d.read p with
    | .error .missingFile => return .unreadable (Disk.withPath Disk.missingReason path)
    | .error .isDirectory => return .unreadable (Disk.withPath Disk.folderReason path)
    | .error c => .breakdown c
    | .ok text =>
      match Json.parse text with
      | .ok v => return .document v
      | .error (.problem kind position) => return .unreadable (Json.located kind text position)
      | .error (.longNumber n) => .breakdown (.badValue (Text.tooLongMessage n))

def importBackup (path : String) : Work String := do
  match ← readBackup path with
  | .unreadable reason => return "❌ Could not read backup: " ++ reason
  | .document (.map es) =>
    onWriteFailure "❌ Restore failed: " do
      let restored ← Store.importBackup es
      return "📦 Restored " ++ toString restored.rulesets ++ " rulesets and " ++
        toString restored.characters ++ " characters"
  | .document _ => return "❌ Backup file is not a backup document."

end Tabletop.Command

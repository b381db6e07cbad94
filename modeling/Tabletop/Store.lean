import Tabletop.Action
import Tabletop.Character.Reading
import Tabletop.Store.Disk
import Tabletop.Text.Quoted

/-!
The record store: two collections of JSON records, one file each, and a settings file. A record that is
unchanged since it was last saved or loaded is not written again.
-/

set_option autoImplicit false

namespace Tabletop

inductive Collection where
  | rulesets
  | characters
deriving DecidableEq, Repr

namespace Collection

def all : List Collection := [rulesets, characters]

def name : Collection → String
  | rulesets => "rulesets"
  | characters => "characters"

def ofName (s : String) : Except Breakdown Collection :=
  match all.find? fun c => c.name = s with
  | some c => .ok c
  | none =>
    .error (.badValue ("Unknown collection '" ++ s ++ "'. Use one of: " ++
      ", ".intercalate (all.map name)))

end Collection

/-- The store; `known` holds the fingerprint of each record as it was last saved or loaded. -/
structure Store where
  disk : Disk
  root : Place
  known : Dict (Collection × String) Value
  supply : Supply
deriving DecidableEq

/-- A record that can be stored: it has an id, and JSON has a form for it. -/
structure Record where
  id : String
  document : Value
  fingerprint : Value
deriving DecidableEq

namespace Record

-- equal for records of equal content, whatever the order of their members
def fingerprintOf (v : Value) : Except Breakdown Value := do
  Json.plain (← Json.sorted v)

def ofEntries (es : Field.Entries) : Except Breakdown Record := do
  let id := Value.field "id" es
  if !id.isTruthy then .error (.badValue "Record has no id")
  else
    let fingerprint ← fingerprintOf (.map es)
    let document ← Json.plain (.map es)
    return ⟨id.text, document, fingerprint⟩

def ofValue : Value → Except Breakdown Record
  | .map es => ofEntries es
  | _ => .error .notAMap

end Record

namespace Store

abbrev Work (α : Type) := Action Store α

def create (disk : Disk) (root : Place) (supply : Supply) : Store :=
  { disk := Collection.all.foldl (fun d c => d.addFolder (root ++ [c.name]))
      (if root.isEmpty then disk else disk.addFolder root)
    root := root
    known := .empty
    supply := supply }

-- the next ids and time
def tick : Work Supply :=
  ⟨fun s =>
    (.ok s.supply, { s with supply := ⟨s.supply.serial + 1, s.supply.now.next.next⟩ })⟩

def now : Work Moment := do
  return (← tick).now

def recordName (id : String) : Except Breakdown String :=
  let safe := Text.percentEncode id
  if safe = "" || safe = "." || safe = ".." then
    .error (.badValue ("Invalid record id: " ++ Text.quoted id))
  else .ok (safe ++ ".json")

def folder (s : Store) (c : Collection) : Place :=
  s.root ++ [c.name]

def place (s : Store) (c : Collection) (id : String) : Except Breakdown Place :=
  (recordName id).map fun name => s.folder c ++ [name]

def remember (c : Collection) (id : String) (fingerprint : Value) : Work Unit :=
  .change fun s => { s with known := s.known.insert (c, id) fingerprint }

def forget (c : Collection) (id : String) : Work Unit :=
  .change fun s => { s with known := s.known.erase (c, id) }

def write (target : Place) (document : Value) : Work Unit :=
  ⟨fun s =>
    let (result, disk) := s.disk.write target document
    (result, { s with disk := disk })⟩

-- what is no record reads as absent
def readRecord (c : Collection) (p : Place) : Work (Option Field.Entries) := do
  match ← .ofExcept ((← Action.state).disk.load? p) with
  | some (.map es) =>
    let id := Value.field "id" es
    if id.isTruthy then
      remember c id.text (← .ofExcept (Record.fingerprintOf (.map es)))
      return some es
    else return none
  | _ => return none

def get (c : Collection) (id : String) : Work (Option Field.Entries) := do
  let s ← Action.state
  let p ← .ofExcept (s.place c id)
  if ← .ofExcept (s.disk.holds p) then readRecord c p else return none

-- the file holds what was last saved or loaded
def isUnchanged (s : Store) (c : Collection) (p : Place) (r : Record) : Except Breakdown Bool := do
  if ← s.disk.holds p then return s.known.get? (c, r.id) = some r.fingerprint else return false

def put (c : Collection) (r : Record) (force : Bool) : Work Unit := do
  let s ← Action.state
  let p ← .ofExcept (s.place c r.id)
  if !force then
    if ← .ofExcept (s.isUnchanged c p r) then return ()
  write p r.document
  remember c r.id r.fingerprint

def delete (c : Collection) (id : String) : Work Bool := do
  let p ← .ofExcept ((← Action.state).place c id)
  forget c id
  ⟨fun s =>
    let (result, disk) := s.disk.remove p
    (Failure.ofExcept result, { s with disk := disk })⟩

def isRecordName (name : String) : Bool :=
  ".json".toList.isSuffixOf name.toList

def readAll (c : Collection) : List Place → Work (List Field.Entries)
  | [] => return []
  | p :: ps => do
    let record? ← readRecord c p
    let records ← readAll c ps
    return record?.toList ++ records

def listAll (c : Collection) : Work (List Field.Entries) := do
  let s ← Action.state
  let names := (s.disk.names (s.folder c)).filter isRecordName
  readAll c (names.map fun n => s.folder c ++ [n])

-- settings

def activeRuleset : String := "active_ruleset_id"
def activeCharacter : String := "active_character_id"

def settingsPlace (s : Store) : Place :=
  s.root ++ ["settings.json"]

def setting (key : String) : Work Value := do
  let s ← Action.state
  match ← .ofExcept (s.disk.load? s.settingsPlace) with
  | some (.map es) => return Value.field key es
  | some _ => .breakdown .notAMap
  | none => return .null

def putSetting (key : String) (v : Value) : Work Unit := do
  let s ← Action.state
  match ← .ofExcept (s.disk.load? s.settingsPlace) with
  | some (.map es) => write s.settingsPlace (← .ofExcept (Json.plain (.map (Value.setField key v es))))
  | some _ => .breakdown .notIterable
  | none => write s.settingsPlace (← .ofExcept (Json.plain (.map [(.str key, v)])))

end Store

end Tabletop

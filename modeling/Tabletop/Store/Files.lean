import Tabletop.Ruleset.Document
import Tabletop.Store

set_option autoImplicit false

namespace Tabletop

namespace Disk

def pathParts (path : String) : List String :=
  (path.splitOn "/").filter fun part => part ≠ "" && part ≠ "."

def rootMark (path : String) : String :=
  match path.toList with
  | '/' :: '/' :: '/' :: _ => "/"
  | '/' :: '/' :: _ => "//"
  | '/' :: _ => "/"
  | _ => ""

-- without empty names and without names that stay where they are
def cleanPath (path : String) : String :=
  let cleaned := rootMark path ++ "/".intercalate (pathParts path)
  if cleaned.isEmpty then "." else cleaned

-- two points lead back
def descend : Option Place → String → Option Place
  | none, _ => none
  | some p, name => if name ≠ ".." then some (p ++ [name]) else if p.isEmpty then none else some p.dropLast

def placeOf? (d : Disk) (path : String) : Option Place :=
  let base := pathParts d.base
  let parts := pathParts path
  if rootMark d.base = rootMark path && base.isPrefixOf parts then
    (parts.drop base.length).foldl descend (some [])
  else none

-- the place of a path, if something is there
def find? (d : Disk) (path : String) : Except Breakdown (Option Place) := do
  if isLong (pathParts path) then .error .nameTooLong
  else
    match d.placeOf? path with
    | none => return none
    | some p => if ← d.holds p then return some p else return none

def notAFolderReason : String := "[Errno 20] Not a directory"

-- a file stands where the way to the place needs a folder
def isBlocked (d : Disk) (p : Place) : Bool :=
  (List.range p.length).any fun n => d.files.contains (p.take n)

-- a path without names leads to the folder one stands in
def isHere (path : String) : Bool :=
  (pathParts path).isEmpty

-- the place of a path, or why nothing can be there
def reach (d : Disk) (path : String) : Except String Place :=
  if isLong (pathParts path) then .error longReason
  else if isHere path then .error folderReason
  else
    match d.placeOf? path with
    | none => .error missingReason
    | some p => if d.isBlocked p then .error notAFolderReason else .ok p

-- where a file can be written at a path
def openForWriting (d : Disk) (path : String) : Except String Place := do
  let p ← d.reach path
  if d.isFolder p then .error folderReason
  else if d.isFolder p.dropLast then return p
  else .error missingReason

def suffixOf (path : String) : String :=
  Text.lower (splitName (fileName (pathParts path))).2

def withPath (reason path : String) : String :=
  reason ++ ": " ++ Text.quoted (cleanPath path)

end Disk

namespace Store

def rulesetSuffixes : List String := [".json", ".yaml", ".yml"]

def refuse {α : Type} (p : ImportProblem) : Work α :=
  .fail (.rulesetInvalid p)

def readRulesetText (path : String) (p : Place) : Work String := do
  match (← Action.state).disk.read p with
  | .ok text => return text
  | .error .isDirectory => refuse (.unreadable (Disk.withPath Disk.folderReason path))
  | .error c => .breakdown c

def loadRuleset (path : String) : Work Ruleset := do
  if Disk.isHere path then refuse (.unsupportedFormat "")
  let some p ← .ofExcept ((← Action.state).disk.find? path)
    | refuse (.fileNotFound (Disk.cleanPath path))
  let suffix := Disk.suffixOf path
  if !rulesetSuffixes.contains suffix then refuse (.unsupportedFormat suffix)
  else
    let text ← readRulesetText path p
    let now ← now
    let format := if suffix = ".json" then Ruleset.jsonFormat else Ruleset.yamlFormat
    .ofResult (Ruleset.ofText now format text).result

end Store

end Tabletop

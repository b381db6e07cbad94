import Tabletop.Dict
import Tabletop.Failure
import Tabletop.Json.Writer
import Tabletop.Record.Field

/-!
The files below the data directory. A document is written to a scratch file beside its place and moved
there; an attempt to open a file for writing may fail, and each write is attempted twice.
-/

set_option autoImplicit false

namespace Tabletop

/-- The names on the way down from the data directory. -/
abbrev Place := List String

inductive Content where
  | document (v : Value)
  | text (s : String)
  | bytes (bs : List UInt8)
deriving DecidableEq

-- line ends of any system are one line feed
def unifyLineEnds : List Char → List Char
  | '\r' :: '\n' :: cs => '\n' :: unifyLineEnds cs
  | '\r' :: cs => '\n' :: unifyLineEnds cs
  | c :: cs => c :: unifyLineEnds cs
  | [] => []

namespace Content

def ofBytes (bs : List UInt8) : Content :=
  match Text.ofUtf8? bs with
  | some s => .text s
  | none => .bytes bs

def read : Content → Except Breakdown String
  | .document v => .ok (Json.indented 0 v)
  | .text s => .ok (String.ofList (unifyLineEnds s.toList))
  | .bytes _ => .error .undecodable

-- nothing, if the content is not JSON
def load? : Content → Except Breakdown (Option Value)
  | .document v => .ok (some (Json.readBack v))
  | c => do
    match Json.parse (← c.read) with
    | .ok v => return some v
    | .error (.problem _ _) => return none
    | .error (.longNumber n) => .error (.badValue (Text.tooLongMessage n))

end Content

/-- The data directory; `faults` tells of the coming attempts to open a file for writing which fail. -/
structure Disk where
  base : String
  files : Dict Place Content
  folders : List Place
  faults : List Bool
deriving DecidableEq

namespace Disk

def pathText (d : Disk) (p : Place) : String :=
  "/".intercalate (d.base :: p)

def longestName : Nat := 255

def isLong (p : Place) : Bool :=
  p.any fun name => longestName < name.utf8ByteSize

def isFolder (d : Disk) (p : Place) : Bool :=
  p.isEmpty || d.folders.contains p

def holds (d : Disk) (p : Place) : Except Breakdown Bool :=
  if isLong p then .error .nameTooLong else .ok (d.files.contains p || d.isFolder p)

def addFolder (d : Disk) (p : Place) : Disk :=
  if d.folders.contains p then d else { d with folders := d.folders ++ [p] }

-- the name without its last extension, and the extension; a point in front begins none
def splitName (name : String) : String × String :=
  let cs := name.toList
  let extension := (cs.reverse.takeWhile (· != '.')).reverse
  let stem := (cs.take (cs.length - extension.length)).dropLast
  if stem.isEmpty || extension.isEmpty then (name, "")
  else (String.ofList stem, String.ofList ('.' :: extension))

def fileName (p : Place) : String :=
  p.getLast?.getD ""

def scratch (p : Place) : Place :=
  p.dropLast ++ [(splitName (fileName p)).1 ++ ".tmp"]

def moveReason (d : Disk) (problem : String) (target : Place) : String :=
  problem ++ ": " ++ Text.quoted (d.pathText (scratch target)) ++ " -> " ++
    Text.quoted (d.pathText target)

def longReason : String := "[Errno 36] File name too long"
def folderReason : String := "[Errno 21] Is a directory"
def missingReason : String := "[Errno 2] No such file or directory"
def fullReason : String := "disk full"

-- why the document cannot be moved to its place
def moveProblem? (d : Disk) (target : Place) : Option String :=
  if isLong target then some (d.moveReason longReason target)
  else if d.isFolder target then some (d.moveReason folderReason target)
  else none

/-- One attempt at a write: the reason, if it failed. A failed attempt leaves no scratch file. -/
def attempt (d : Disk) (target : Place) (document : Value) :
    Except Breakdown (Option String) × Disk :=
  let left := { d with faults := d.faults.tail, files := d.files.erase (scratch target) }
  if isLong (scratch target) then (.error .nameTooLong, { d with faults := d.faults.tail })
  else if d.isFolder (scratch target) then
    (.error .isDirectory, { d with faults := d.faults.tail })
  else if d.faults.head? = some true then (.ok (some fullReason), left)
  else
    match d.moveProblem? target with
    | some reason => (.ok (some reason), left)
    | none => (.ok none, { left with files := left.files.insert target (.document document) })

def write (d : Disk) (target : Place) (document : Value) : Except Failure Unit × Disk :=
  match d.attempt target document with
  | (.ok none, d) => (.ok (), d)
  | (.error c, d) => (.error (.breakdown c), d)
  | (.ok (some _), d) =>
    match d.attempt target document with
    | (.ok none, d) => (.ok (), d)
    | (.error c, d) => (.error (.breakdown c), d)
    | (.ok (some reason), d) => (.error (.storeWrite (fileName target) reason), d)

-- a place without a file loads as nothing
def load? (d : Disk) (p : Place) : Except Breakdown (Option Value) :=
  match d.files.get? p with
  | some c => c.load?
  | none => .ok none

def read (d : Disk) (p : Place) : Except Breakdown String :=
  match d.files.get? p with
  | some c => c.read
  | none => .error (if d.isFolder p then .isDirectory else .missingFile)

-- a place with a file is emptied, and the file was there or not
def remove (d : Disk) (p : Place) : Except Breakdown Bool × Disk :=
  match d.holds p with
  | .error c => (.error c, d)
  | .ok false => (.ok false, d)
  | .ok true =>
    if d.isFolder p then (.error .isDirectory, d)
    else (.ok true, { d with files := d.files.erase p })

-- the names of the files in a folder, ascending
def names (d : Disk) (folder : Place) : List String :=
  ((d.files.keys.filter fun p => p.dropLast = folder && !p.isEmpty).map fileName).mergeSort
    fun a b => decide (a ≤ b)

end Disk

end Tabletop

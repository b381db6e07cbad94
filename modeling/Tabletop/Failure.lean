import Tabletop.Record.Fault
import Tabletop.Report
import Tabletop.Json.Reader

set_option autoImplicit false

namespace Tabletop

inductive ImportProblem where
  | rejected (report : Report)
  | badJson (kind : Json.Problem) (text : String) (position : Nat)
  | badText (format : String)
  | fileNotFound (path : String)
  | unsupportedFormat (suffix : String)
  | unreadable (reason : String)
deriving DecidableEq, Repr

namespace ImportProblem

def message : ImportProblem → String
  | .rejected r => "Ruleset rejected: " ++ "; ".intercalate (r.errors.map Issue.message)
  | .badJson kind text position => "Ruleset JSON is invalid: " ++ Json.located kind text position
  | .badText format => "Ruleset " ++ format ++ " is invalid"
  | .fileNotFound path => "Ruleset file not found: " ++ path
  | .unsupportedFormat suffix =>
    "Unsupported file format: " ++ suffix ++ ". Supported: .json, .yaml, .yml"
  | .unreadable reason => "Failed to read file: " ++ reason

def report? : ImportProblem → Option Report
  | .rejected r => some r
  | _ => none

end ImportProblem

inductive Obstacle where
  | characterNotFound (id : String)
  | noRulesetSelected
  | rulesetMissing (id : String)
  | noClassSelected
deriving DecidableEq, Repr

def Obstacle.message : Obstacle → String
  | .characterNotFound id => "Character '" ++ id ++ "' not found."
  | .noRulesetSelected => "Select a ruleset first."
  | .rulesetMissing id => "Ruleset '" ++ id ++ "' missing. Re-import it."
  | .noClassSelected => "Select a class first."

inductive LevelUpFailure where
  | obstacle (o : Obstacle)
  | progressionMissing (classId : Option String) (level : Int) (available : List Int)
  | choiceCount (choiceId label : String) (expected : Int) (picked : Nat)
deriving DecidableEq, Repr

namespace LevelUpFailure

def message : LevelUpFailure → String
  | .obstacle o => o.message
  | .progressionMissing classId level available =>
    "No progression found for class '" ++ classId.getD "None" ++ "' at level " ++ toString level ++
      ". Progression levels available: " ++
      (if available.isEmpty then "(none)" else ", ".intercalate (available.map toString))
  | .choiceCount _ label expected picked =>
    "Pick exactly " ++ toString expected ++ " for '" ++ label ++ "'. You picked " ++
      toString picked ++ "."

end LevelUpFailure

inductive Failure where
  | rulesetInvalid (problem : ImportProblem)
  | levelUp (failure : LevelUpFailure)
  | storeWrite (file reason : String)
  | recordRefused (faults : List Fault)
  | breakdown (cause : Breakdown)
deriving DecidableEq, Repr

def writeMessage (file reason : String) : String :=
  "Write to " ++ file ++ " failed permanently: " ++ reason

namespace Failure

def ofExcept {α : Type} : Except Breakdown α → Except Failure α
  | .ok a => .ok a
  | .error c => .error (.breakdown c)

def ofChecked {α : Type} : Checked α → Except Failure α
  | .ok a => .ok a
  | .refused fs => .error (.recordRefused fs)
  | .broken c => .error (.breakdown c)

end Failure

end Tabletop

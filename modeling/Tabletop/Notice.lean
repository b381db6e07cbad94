import Tabletop.Value.Text

set_option autoImplicit false

namespace Tabletop

inductive Notice where
  | flatAdvancement (keys : List String) (level : String)
  | documentIssue (subject field message : String)
  | invalidClass (classId : String) (faults : Nat)
  | invalidChoice (classId level : String) (faults : Nat)
  | duplicateChoice (choiceId classId level : String)
  | poolNotAList (pool : String)
  | invalidOption (pool : String) (faults : Nat)
  | invalidFeature (featureId : String) (faults : Nat)
  | undeclaredSelections (choiceIds : List Value)
deriving DecidableEq, Repr

namespace Notice

def quotedList (texts : List String) : String :=
  Value.quoted (.ofStrings texts)

def faultCount (n : Nat) (model : String) : String :=
  toString n ++ (if n = 1 then " validation error for " else " validation errors for ") ++ model

-- only the first line of a report on faults
def text : Notice → String
  | .flatAdvancement keys level =>
    "Migrating flat advancement record " ++ quotedList keys ++ " to level " ++ level
  | .documentIssue subject field message =>
    "Ruleset " ++ subject ++ ": " ++ field ++ ": " ++ message
  | .invalidClass classId n =>
    "Invalid class definition '" ++ classId ++ "': " ++ faultCount n "ClassDef"
  | .invalidChoice classId level n =>
    "Invalid choice at " ++ classId ++ " level " ++ level ++ ": " ++ faultCount n "ChoiceSpec"
  | .duplicateChoice choiceId classId level =>
    "Duplicate choice id '" ++ choiceId ++ "' at " ++ classId ++ " level " ++ level ++
      "; keeping the first"
  | .poolNotAList pool => "Pool '" ++ pool ++ "' is not a list and will be ignored"
  | .invalidOption pool n => "Invalid option in pool '" ++ pool ++ "': " ++ faultCount n "Option"
  | .invalidFeature featureId n =>
    "Invalid feature dictionary entry '" ++ featureId ++ "': " ++ faultCount n "FeatureInfo"
  | .undeclaredSelections choiceIds =>
    "Ignoring selections for undeclared choices: " ++ Value.quoted (.list choiceIds)

end Notice

end Tabletop

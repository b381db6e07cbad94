import Tabletop.Advancement.Ledger
import Tabletop.Report

set_option autoImplicit false

namespace Tabletop.Character

def numberList (ns : List Int) : String :=
  ", ".intercalate (ns.map toString)

def unknownClassIssue (r : Ruleset) (c : Character) : Issue :=
  { severity := .warning
    kind := "unknown_class"
    message := "Class '" ++ c.classId.getD "None" ++ "' not found in ruleset '" ++ r.name ++ "'."
    field := "class_id"
    suggestion := some ("Pick one of: " ++
      (if r.classes.isEmpty then "(ruleset has no classes)" else ", ".intercalate r.classes.keys)) }

def pendingIssues (class_ : ClassDef) (c : Character) (applied : List Int) : List Issue :=
  let pending := class_.levels.filter fun l => 1 < l && l ≤ c.level && !applied.contains l
  if pending.isEmpty then []
  else
    [{ severity := .info
       kind := "pending_advancement"
       message := "Progression not applied for level(s): " ++ numberList pending
       field := "advancement"
       suggestion := some "Re-run the level-up for these levels with force to apply them." }]

def aboveIssues (c : Character) (applied : List Int) : List Issue :=
  let above := applied.filter fun l => c.level < l
  if above.isEmpty then []
  else
    [{ severity := .info
       kind := "ledger_above_level"
       message := "Advancement recorded above current level for: " ++ numberList above ++
         " (ignored)"
       field := "advancement"
       suggestion := none }]

def staleChoices (class_ : ClassDef) (c : Character) (level : Int) : List String :=
  let record := (c.advancement.get? (toString level)).getD .empty
  let declared := ((class_.progression.get? level).map Node.choices).getD []
  record.keys.filter fun id => id ≠ grantsKey && !declared.any fun d => d.id = id

def staleIssues (class_ : ClassDef) (c : Character) (level : Int) : List Issue :=
  let stale := staleChoices class_ c level
  if stale.isEmpty then []
  else
    [{ severity := .warning
       kind := "stale_choice"
       message := "Level " ++ toString level ++
         " records picks for choices the ruleset no longer declares: " ++ ", ".intercalate stale
       field := "advancement." ++ toString level
       suggestion := some "Force re-apply this level to re-pick against the current ruleset." }]

-- each level once
def appliedSet (levels : List Int) : List Int :=
  levels.eraseDups

def audit (r : Ruleset) (c : Character) : Except Breakdown Report :=
  match r.class? c.classId with
  | none => .ok ⟨c.id, [unknownClassIssue r c]⟩
  | some class_ => do
    let applied := appliedSet (← c.appliedLevels)
    return ⟨c.id, pendingIssues class_ c applied ++ aboveIssues c applied ++
      applied.flatMap (staleIssues class_ c)⟩

end Tabletop.Character

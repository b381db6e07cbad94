import Tabletop.Store.Characters
import Tabletop.Store.Rulesets

set_option autoImplicit false

namespace Tabletop

structure Backup where
  exportedAt : Moment
  rulesets : List Field.Entries
  characters : List Field.Entries

def Backup.toValue (b : Backup) : Value :=
  .map [(.str "exported_at", .str b.exportedAt.isoText),
    (.str "rulesets", .list (b.rulesets.map .map)),
    (.str "characters", .list (b.characters.map .map))]

structure Restored where
  rulesets : Nat
  characters : Nat
deriving DecidableEq, Repr

namespace Store

def exportBackup : Work Backup := do
  let now ← now
  let rulesets ← listAll .rulesets
  let characters ← listAll .characters
  return ⟨now, rulesets, characters⟩

-- the record under the id of its ruleset, if that is accepted
def acceptRuleset (now : Moment) : Value → Except Failure (Option Field.Entries)
  | .map es =>
    match (Ruleset.ofDocument now (Value.field "data" es)).result with
    | .ok r => .ok (some (Value.setField "id" (.str r.id) es))
    | .error (.rulesetInvalid _) => .ok none
    | .error f => .error f
  | _ => .error (.breakdown .notAMap)

def restoreRulesets : List Value → Work Nat
  | [] => return 0
  | v :: vs => do
    match ← .ofResult (acceptRuleset (← now) v) with
    | none => restoreRulesets vs
    | some es =>
      put .rulesets (← .ofExcept (Record.ofEntries es)) true
      return (← restoreRulesets vs) + 1

def restoreCharacters : List Value → Work Nat
  | [] => return 0
  | v :: vs => do
    match ← readCharacter v with
    | some c =>
      saveCharacter c true
      return (← restoreCharacters vs) + 1
    | none => if v.isMap then restoreCharacters vs else .breakdown .notAMap

def importBackup (backup : Field.Entries) : Work Restored := do
  let rulesets ← restoreRulesets (← .ofExcept (Value.looped (Value.field "rulesets" backup)))
  let characters ← restoreCharacters
    (← .ofExcept (Value.looped (Value.field "characters" backup)))
  return ⟨rulesets, characters⟩

end Store

end Tabletop

import Tabletop.Ruleset.Import
import Tabletop.Store

set_option autoImplicit false

namespace Tabletop

def Ruleset.toEntries (r : Ruleset) : Field.Entries :=
  [(.str "id", .str r.id), (.str "name", .str r.name), (.str "version", .str r.version),
    (.str "imported_at", .str r.importedAt.isoText), (.str "data", r.document)]

namespace Store

def putRuleset (r : Ruleset) : Work Unit := do
  put .rulesets (← .ofExcept (Record.ofEntries r.toEntries)) false

-- the time of a record without one is the time of reading
def importTime (default : Moment) (v : Value) : Except Breakdown Moment :=
  if !v.isTruthy then .ok default
  else
    match v with
    | .str s =>
      match Moment.Iso.parse s with
      | .ok m => .ok m
      | .error f => .error (.badValue (f.message s))
    | _ => .error .incomparable

-- nothing, if the document is refused
def rulesetOf (now : Moment) (record : Field.Entries) : Except Failure (Option Ruleset) :=
  match (Ruleset.ofDocument now (Value.field "data" record)).result with
  | .error (.rulesetInvalid _) => .ok none
  | .error f => .error f
  | .ok r => do
    let importedAt ← Failure.ofExcept (importTime r.importedAt (Value.field "imported_at" record))
    return some { r with importedAt := importedAt }

def getRuleset (id : String) : Work (Option Ruleset) := do
  match ← get .rulesets id with
  | none => return none
  | some record =>
    let now ← now
    .ofResult (rulesetOf now record)

structure Summary where
  id : Value
  name : Value
  version : Value
  importedAt : Value
deriving DecidableEq

def Summary.ofEntries (es : Field.Entries) : Summary :=
  ⟨Value.field "id" es, Value.field "name" es, Value.field "version" es,
    Value.field "imported_at" es⟩

-- an absent time counts as an empty text
def Summary.sortKey (s : Summary) : Value :=
  if s.importedAt.isTruthy then s.importedAt else .str ""

def isText : Value → Bool
  | .str _ => true
  | _ => false

-- texts compare with texts and numbers with numbers
def newestFirst (summaries : List Summary) : Except Breakdown (List Summary) :=
  let keys := summaries.map Summary.sortKey
  if keys.all isText then
    .ok (summaries.mergeSort fun a b => decide (Json.textOf b.sortKey ≤ Json.textOf a.sortKey))
  else if keys.all fun k => k.number?.isSome then
    .ok (summaries.mergeSort fun a b => !Json.numberLess a.sortKey b.sortKey)
  else if summaries.length ≤ 1 then .ok summaries
  else .error .incomparable

def listRulesets : Work (List Summary) := do
  let records ← listAll .rulesets
  .ofExcept (newestFirst (records.map Summary.ofEntries))

end Store

end Tabletop

import Tabletop.Character.Advancement
import Tabletop.Report
import Tabletop.Ruleset

set_option autoImplicit false

namespace Tabletop

/-- The ledger key under which a node without choices records its grants. -/
def grantsKey : String := "__grants__"

namespace Ruleset.Check

abbrev Entries := List (Value × Value)

def warning (kind message field : String) : Issue :=
  { severity := .warning
    kind := kind
    message := message
    field := field
    suggestion := none }

def error (kind message field : String) (suggestion : Option String) : Issue :=
  { severity := .error
    kind := kind
    message := message
    field := field
    suggestion := suggestion }

def unknownSubject : String := "(unknown)"

-- an absent id, or an empty one
def lacksId : Value → Bool
  | .map es =>
    match Value.field "id" es with
    | .null => true
    | .str s => s.isEmpty
    | _ => false
  | _ => true

def choiceId : Value → String
  | .map es => (Value.field "id" es).text
  | _ => ""

-- the number a progression key denotes, if it is one of the levels
def levelKey? (key : Value) : Except Breakdown (Option Int) :=
  if Text.isDigits key.text then do
    let n ← integerOf key.text
    return if 1 ≤ n ∧ n ≤ 20 then some n else none
  else .ok none

def choiceIssues (nodeField level : String) : Nat → List String → List Value → List Issue
  | _, _, [] => []
  | i, seen, c :: cs =>
    let place := nodeField ++ ".choices[" ++ toString i ++ "]"
    if lacksId c then
      warning "invalid_choice"
        ("Choice #" ++ toString i ++ " at level " ++ level ++ " has no id and will be skipped.")
        place :: choiceIssues nodeField level (i + 1) seen cs
    else
      let id := choiceId c
      let rest := choiceIssues nodeField level (i + 1) (id :: seen) cs
      if seen.contains id || id = grantsKey then
        warning "duplicate_choice_id"
          ("Choice id '" ++ id ++ "' is not unique at level " ++ level ++ ".")
          (place ++ ".id") :: rest
      else rest

def nodeIssues (progressionField : String) (key node : Value) : Except Breakdown (List Issue) := do
  let nodeField := progressionField ++ "." ++ key.text
  match ← levelKey? key with
  | none =>
    return [warning "invalid_level_key"
      ("Progression key '" ++ key.text ++
        "' is not a level between 1 and 20 and will be ignored.") nodeField]
  | some _ =>
    match node with
    | .map es => do
      let choices ← Value.looped (Value.field "choices" es)
      return choiceIssues nodeField key.text 0 [] choices
    | _ => return []

def nodesIssues (progressionField : String) : Entries → Except Breakdown (List Issue)
  | [] => .ok []
  | (k, v) :: es => do
    let issues ← nodeIssues progressionField k v
    return issues ++ (← nodesIssues progressionField es)

def classIssues (key data : Value) : Except Breakdown (List Issue) := do
  let id := key.text
  let place := "classes." ++ id
  match data with
  | .map es =>
    let unnamed :=
      if (Value.field "name" es).isTruthy then []
      else [warning "missing_class_name"
        ("Class '" ++ id ++ "' has no name; the id will be shown instead.") (place ++ ".name")]
    let progressionField := place ++ ".progression"
    match Value.entriesOrEmpty (Value.field "progression" es) with
    | [] =>
      return unnamed ++ [warning "missing_progression"
        ("Class '" ++ id ++ "' defines no progression; levelling it grants nothing.")
        progressionField]
    | nodes => return unnamed ++ (← nodesIssues progressionField nodes)
  | _ =>
    return [warning "invalid_class"
      ("Class '" ++ id ++ "' is not an object and will be skipped.") place]

def classesIssues : Entries → Except Breakdown (List Issue)
  | [] => .ok []
  | (k, v) :: es => do
    let issues ← classIssues k v
    return issues ++ (← classesIssues es)

def metaIssues (metaEntries : Entries) : List Issue :=
  (if (Value.field "id" metaEntries).isTruthy then []
   else [error "missing_meta_id" "ruleset.meta.id is required." "meta.id"
      (some "Add a \"meta\": \x7b\"id\": \"...\"\x7d block with a stable identifier.")]) ++
  (if (Value.field "name" metaEntries).isTruthy then []
   else [warning "missing_meta_name"
      "ruleset.meta.name is missing; the id will be shown instead." "meta.name"])

def missingPools (es : Entries) : List String :=
  let pools := Value.entriesOrEmpty (Value.field "pools" es)
  Pools.standardKeys.filter fun k => !Value.hasField k es && !Value.hasField k pools

def poolIssues (es : Entries) : List Issue :=
  let absent := missingPools es
  if absent.isEmpty then []
  else [warning "missing_pools"
    ("Ruleset defines no " ++ ", ".intercalate absent ++
      " pool(s); choices from them will offer no options.") "pools"]

def documentClassIssues (v : Value) : Except Breakdown (List Issue) :=
  match v with
  | .map classes => classesIssues classes
  | _ =>
    .ok [error "missing_classes" "ruleset.classes is required and must be an object." "classes"
      (some
        "Declare classes as \x7b\"<classId>\": \x7b\"name\": ..., \"progression\": \x7b...\x7d\x7d\x7d.")]

def subjectOf (metaEntries : Entries) : String :=
  let id := Value.field "id" metaEntries
  if id.isTruthy then id.text else unknownSubject

end Ruleset.Check

def Ruleset.check (document : Value) : Except Breakdown Report :=
  match document with
  | .map es => do
    let metaEntries := Value.entriesOrEmpty (Value.field "meta" es)
    let classIssues ← Check.documentClassIssues (Value.field "classes" es)
    return ⟨Check.subjectOf metaEntries,
      Check.metaIssues metaEntries ++ classIssues ++ Check.poolIssues es⟩
  | _ =>
    .ok ⟨Check.unknownSubject, [Check.error "not_an_object" "Ruleset is not an object." "$" none]⟩

end Tabletop

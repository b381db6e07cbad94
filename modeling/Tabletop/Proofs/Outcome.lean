import Mathlib.Data.Finset.Card
import Tabletop.Proofs.Chronicle
import Tabletop.Proofs.Importing
import Tabletop.Proofs.LaidDown

set_option autoImplicit false

namespace Tabletop

open Character (committed)

-- ids that are counted once

theorem distinct_nodup (ids : List String) : (distinct ids).Nodup := by
  unfold distinct
  induction size : ids.length using Nat.strong_induction_on generalizing ids with
  | _ n ih =>
    cases ids with
    | nil => simp
    | cons id ids =>
      have shorter : (ids.filter fun other => !other == id).length < n := by
        have most := List.length_filter_le (fun other => !other == id) ids
        simp only [List.length_cons] at size
        omega
      simpa [List.eraseDups_cons] using ih _ shorter _ rfl

theorem length_distinct (ids : List String) : (distinct ids).length = ids.toFinset.card := by
  have same : (distinct ids).toFinset = ids.toFinset := by
    ext id
    simp [distinct]
  simpa [same] using (List.toFinset_card_of_nodup (distinct_nodup ids)).symm

theorem card_eq_length_iff {ids : List String} : ids.toFinset.card = ids.length ↔ ids.Nodup := by
  simpa using Multiset.toFinset_card_eq_card_iff_nodup (m := (ids : Multiset String))

def Choice.MetBy (choice : Choice) (ids : List String) : Prop :=
  ids.Nodup ∧ (ids.length : Int) = choice.count

instance (choice : Choice) (ids : List String) : Decidable (choice.MetBy ids) :=
  inferInstanceAs (Decidable (_ ∧ _))

-- the failure tells the count, if the count has a text
def Choice.mismatch (choice : Choice) (picked : Nat) : Failure :=
  if IsWritten choice.count then .levelUp (.choiceCount choice.id choice.label choice.count picked)
  else .breakdown (.badValue Text.tooLargeMessage)

theorem checkCount_ids (choice : Choice) (ids : List String) :
    checkCount choice (.ids ids) =
      if choice.MetBy ids then .ok () else .error (choice.mismatch ids.toFinset.card) := by
  have size : (Picks.ids ids).size = ids.length := rfl
  have counted : (Picks.ids ids).distinctSize = ids.toFinset.card := length_distinct ids
  have met : ((Picks.ids ids).size = choice.count && (Picks.ids ids).distinctSize = (Picks.ids ids).size)
      = true ↔ choice.MetBy ids := by
    rw [Bool.and_eq_true, decide_eq_true_eq, decide_eq_true_eq, counted, size, card_eq_length_iff,
      and_comm, Choice.MetBy]
  unfold checkCount
  by_cases enough : choice.MetBy ids
  · rw [if_pos (met.2 enough), if_pos enough]
  · rw [if_neg (met.not.2 enough), if_neg enough, counted, Choice.mismatch]
    by_cases short : IsWritten choice.count
    · rw [short.text, if_pos short]
      rfl
    · rw [written_fails short, if_neg short]
      rfl

-- a table of picks, and the choices of a node

namespace LevelRecord

def picked (given : LevelRecord) (choiceId : String) : List String :=
  (given.get? choiceId).getD []

def firstUnmet? (given : LevelRecord) (choices : List Choice) : Option Choice :=
  choices.find? fun choice => !decide (choice.MetBy (given.picked choice.id))

end LevelRecord

theorem picksFor_table (given : LevelRecord) (choiceId : String) :
    (Selections.ofValue given.toValue).picksFor choiceId = .ok (.ids (given.picked choiceId)) := by
  simp only [Selections.ofValue_record, Selections.picksFor, Dict.get?_mapValues, LevelRecord.picked]
  cases given.get? choiceId with
  | none => rfl
  | some ids => exact Answer.picks_ofIds ids

theorem picksOf_table (given : LevelRecord) (choices : List Choice) (d : Dict String Picks) :
    picksOf (.ofValue given.toValue) d choices =
      match given.firstUnmet? choices with
      | some choice => .error (choice.mismatch (given.picked choice.id).toFinset.card)
      | none => .ok (choices.foldl
          (fun d choice => d.insert choice.id (.ids (given.picked choice.id))) d) := by
  unfold LevelRecord.firstUnmet?
  induction choices generalizing d with
  | nil => rfl
  | cons choice choices ih =>
    simp only [picksOf, picksFor_table, Failure.ofExcept, checkCount_ids, bind, Except.bind]
    by_cases met : choice.MetBy (given.picked choice.id)
    · simp [met, ih]
    · simp [met]

-- picks for other choices are noted, and never fail
theorem validate_table (node : Node) (given : LevelRecord) :
    (node.validate (.ofValue given.toValue)).result =
      picksOf (.ofValue given.toValue) .empty node.choices := by
  rw [Selections.ofValue_record]
  cases picked : picksOf (.byChoice (given.mapValues Answer.ofIds)) .empty node.choices with
  | error f => simp [Node.validate, picked]
  | ok picks => exact validate_byChoice picked

theorem made_table {r : Ruleset} {node : Node}
    (pools : ∀ choice ∈ node.choices, ∃ options, r.resolvePool choice.source = .ok options)
    (given : LevelRecord) :
    match given.firstUnmet? node.choices with
    | some choice => node.made r (.ofValue given.toValue) =
        .error (choice.mismatch (given.picked choice.id).toFinset.card)
    | none => ∃ made, node.made r (.ofValue given.toValue) = .ok made := by
  have validated := (validate_table node given).trans (picksOf_table given node.choices .empty)
  cases first : given.firstUnmet? node.choices with
  | some choice => simp only [Node.made, validated, first, Except.bind]
  | none =>
    have takes : ∀ choice ∈ node.choices, choice.Takes r (given.picked choice.id) := by
      intro choice member
      have met : choice.MetBy (given.picked choice.id) := by
        simpa using List.find?_eq_none.1 first choice member
      exact ⟨pools choice member, met.1, met.2⟩
    obtain ⟨made, listed⟩ := madeOf_taken takes fun choice member => by
      rw [get?_foldl_choices (fun id => Picks.ids (given.picked id)) _ .empty,
        if_pos (List.mem_map_of_mem member)]
    exact ⟨made, by simp only [Node.made, validated, first, Except.bind, listed, Failure.ofExcept]⟩

-- two tables with the same picks for the choices of a node

theorem picksOf_congr {given other : LevelRecord} {choices : List Choice}
    (same : ∀ choice ∈ choices, other.picked choice.id = given.picked choice.id)
    (d : Dict String Picks) :
    picksOf (.ofValue other.toValue) d choices = picksOf (.ofValue given.toValue) d choices := by
  induction choices generalizing d with
  | nil => rfl
  | cons choice choices ih =>
    rw [List.forall_mem_cons] at same
    simp only [picksOf, picksFor_table, same.1, ih same.2]

theorem made_congr {r : Ruleset} {node : Node} {given other : LevelRecord}
    (same : ∀ choice ∈ node.choices, other.picked choice.id = given.picked choice.id) :
    node.made r (.ofValue other.toValue) = node.made r (.ofValue given.toValue) := by
  simp only [Node.made, validate_table, picksOf_congr same]

-- the levels of a class

namespace Ruleset

theorem levels_ascending (r : Ruleset) (classId : Option String) :
    (r.levels classId).Pairwise (· < ·) := by
  cases found : r.class? classId with
  | none => simp [levels, found]
  | some class_ =>
    have ascends : (class_.levels).Pairwise (· < ·) := mergeSort_ascends class_.progression.distinct
    simpa [levels, found] using ascends

theorem mem_levels {r : Ruleset} {classId : Option String} {level : Int} :
    level ∈ r.levels classId ↔ ∃ node, r.node? classId level = some node := by
  cases found : r.class? classId with
  | none => simp [levels, node?, found]
  | some class_ =>
    have known : level ∈ class_.levels ↔ level ∈ class_.progression.keys := List.mem_mergeSort
    simp only [levels, node?, found, Option.map_some, Option.getD_some, Option.bind_some, known,
      ← Dict.contains_iff, Dict.contains, Option.isSome_iff_exists]

theorem node?_eq_some {r : Ruleset} {classId : Option String} {level : Int} {node : Node} :
    r.node? classId level = some node ↔ ∃ id class_, classId = some id ∧ id ≠ "" ∧
      r.classes.get? id = some class_ ∧ class_.progression.get? level = some node := by
  cases classId with
  | none => simp [node?, class?]
  | some id => by_cases empty : id = "" <;> simp [node?, class?, Option.bind_eq_some_iff, empty]

end Ruleset

-- a level that was applied, and is not forced

namespace Character

theorem applyLevel_again {c : Character} {level : Int} (short : IsWritten level)
    (applied : c.isApplied level = true) (r : Ruleset) (classId : Option String) (s : Selections)
    (now : Moment) : (c.applyLevel r classId level s false now).result = .ok c := by
  simp [applyLevel_result _ _ _ short, applied]

theorem isApplied_of_applyLevel {c after : Character} {r : Ruleset} {classId : Option String}
    {level : Int} {s : Selections} {force : Bool} {now : Moment}
    (went : (c.applyLevel r classId level s force now).result = .ok after) :
    after.isApplied level = true := by
  rw [applyLevel_result _ _ _ (isWritten_of_applyLevel went)] at went
  split at went
  · simp_all
  · cases found : r.node? classId level with
    | none => simp [found] at went
    | some node =>
      cases chosen : node.made r s with
      | error f => simp [found, chosen, Except.map] at went
      | ok made =>
        simp only [found, chosen, Except.map, Except.ok.injEq] at went
        simp [← went, isApplied, record?_committed]

/-- Applying a level to a character has the outcome that the ledger, the class and the picks call for,
and no other. Afterwards the level is applied, and stays as it is unless it is forced. The level has a text,
and so has the count that a failure tells; an empty id names no class. -/
theorem applyLevel_outcome (c : Character) (r : Ruleset) (classId : Option String) {level : Int}
    (short : IsWritten level) (given : LevelRecord) (force : Bool) (now : Moment)
    (pools : ∀ node, r.node? classId level = some node → ∀ choice ∈ node.choices,
      ∃ options, r.resolvePool choice.source = .ok options) :
    let outcome (picks : LevelRecord) :=
      (c.applyLevel r classId level (.ofValue picks.toValue) force now).result
    (if c.isApplied level = true ∧ force = false then outcome given = .ok c
      else
        match r.node? classId level with
        | none => outcome given =
            .error (.levelUp (.progressionMissing classId level (r.levels classId)))
        | some node =>
          match given.firstUnmet? node.choices with
          | some choice => IsWritten choice.count → outcome given =
              .error (.levelUp (.choiceCount choice.id choice.label choice.count
                (given.picked choice.id).toFinset.card))
          | none => ∃ after, outcome given = .ok after) ∧
      ((r.levels classId).Pairwise (· < ·) ∧
        (∀ l, l ∈ r.levels classId ↔ ∃ node, r.node? classId l = some node) ∧
        (r.class? classId = none → r.levels classId = []) ∧
        ∀ l node, r.node? classId l = some node ↔ ∃ id class_, classId = some id ∧ id ≠ "" ∧
          r.classes.get? id = some class_ ∧ class_.progression.get? l = some node) ∧
      (∀ after, outcome given = .ok after → Ledger.isApplied after level = .ok true ∧
        ∀ r' classId' s' now', (after.applyLevel r' classId' level s' false now').result = .ok after) ∧
      ∀ other : LevelRecord,
        (∀ node, r.node? classId level = some node → ∀ choice ∈ node.choices,
          other.picked choice.id = given.picked choice.id) →
        outcome other = outcome given := by
  intro outcome
  have told (picks : LevelRecord) : outcome picks =
      if c.isApplied level && !force then .ok c
      else
        match r.node? classId level with
        | none => .error (.levelUp (.progressionMissing classId level (r.levels classId)))
        | some node => (node.made r (.ofValue picks.toValue)).map fun made =>
            committed r node level made now c := applyLevel_result _ _ _ short ..
  refine ⟨?decided, ⟨r.levels_ascending classId, fun l => Ruleset.mem_levels, ?unknown,
    fun l node => Ruleset.node?_eq_some⟩, ?lasting, ?declared⟩
  case decided =>
    by_cases skipped : c.isApplied level = true ∧ force = false
    · simp [told, skipped]
    · have runs : ¬(c.isApplied level && !force) = true := by simpa using skipped
      simp only [if_neg skipped, told, if_neg runs]
      cases found : r.node? classId level with
      | none => rfl
      | some node =>
        have made := made_table (pools node found) given
        cases first : given.firstUnmet? node.choices with
        | some choice =>
          simp only [first] at made ⊢
          intro told
          simp only [made, Except.map, Choice.mismatch, if_pos told]
        | none =>
          simp only [first] at made ⊢
          obtain ⟨made, chosen⟩ := made
          exact ⟨committed r node level made now c, by simp only [chosen, Except.map]⟩
  case unknown =>
    intro unknown
    simp [Ruleset.levels, unknown]
  case lasting =>
    intro after went
    have applied := isApplied_of_applyLevel went
    exact ⟨by rw [Ledger.isApplied_eq short, applied], applyLevel_again short applied⟩
  case declared =>
    intro other same
    rw [told, told]
    cases found : r.node? classId level with
    | none => rfl
    | some node => simp only [made_congr (same node found)]

end Character

-- one pick for a novice's second level, and one for no choice of it

namespace Novice

def silent : LevelRecord := .empty

def lightly : LevelRecord := (Dict.empty.insert "a" ["light"]).insert "z" ["shade"]

theorem rules_pools (node : Node) (found : rules.node? (some "wizard") 2 = some node) :
    ∀ choice ∈ node.choices, ∃ options, rules.resolvePool choice.source = .ok options := by
  have known : rules.node? (some "wizard") 2 = some ⟨["ward"], [spellChoice "a"]⟩ := by decide
  obtain rfl : node = ⟨["ward"], [spellChoice "a"]⟩ := by simpa using found.symm.trans known
  intro choice member
  obtain rfl : choice = spellChoice "a" := by simpa using member
  exact ⟨rules.pools.spells, rfl⟩

end Novice

open Novice in
theorem applyLevel_outcome_novice :
    IsWritten 2 ∧
    (∀ node, rules.node? (some "wizard") 2 = some node → ∀ choice ∈ node.choices,
      ∃ options, rules.resolvePool choice.source = .ok options) ∧
    (novice.applyLevel rules (some "wizard") 2 (.ofValue silent.toValue) false
      firstDay).result = .error (.levelUp (.choiceCount "a" "a" 1 0)) ∧
    ∃ after, (novice.applyLevel rules (some "wizard") 2 (.ofValue lightly.toValue) false
        firstDay).result = .ok after ∧
      Ledger.isApplied after 2 = .ok true ∧
      (after.applyLevel rules none 2 (.other .null) false firstDay).result = .ok after := by
  have short : IsWritten 2 := by decide
  have bare : ¬ (novice.isApplied 2 = true ∧ false = false) := by decide
  have known : rules.node? (some "wizard") 2 = some ⟨["ward"], [spellChoice "a"]⟩ := by decide
  have unmet : silent.firstUnmet? [spellChoice "a"] = some (spellChoice "a") := by decide
  have met : lightly.firstUnmet? [spellChoice "a"] = none := by decide
  obtain ⟨failed, -⟩ := Character.applyLevel_outcome novice rules (some "wizard") short silent false
    firstDay rules_pools
  obtain ⟨went, -, lasting, -⟩ := Character.applyLevel_outcome novice rules (some "wizard") short lightly
    false firstDay rules_pools
  rw [if_neg bare] at failed went
  simp only [known, unmet, met] at failed went
  obtain ⟨after, went⟩ := went
  obtain ⟨applied, again⟩ := lasting after went
  exact ⟨short, rules_pools, failed (by decide), after, went, applied, again ..⟩

-- a class under an empty id, and a choice that asks for more picks than can be told

namespace Ruleset.Primer

def unnamed : Value :=
  .map [(.str "meta", single "id" (.str "r")),
    (.str "classes", single "" (single "progression" (single "2" (.map []))))]

def nameless : Ruleset :=
  (ofDocument shelved unnamed).result.toOption.get (by decide +kernel)

def greedy : Value :=
  withProgression (single "2" (single "choices" (.list
    [.map [(.str "id", .str "a"), (.str "from", .str "spells"), (.str "count", .int unwritten)]])))

def greed : Ruleset :=
  (ofDocument shelved greedy).result.toOption.get (by decide +kernel)

def greedyChoice : Choice := ⟨"a", "", "", "spells", .open, unwritten⟩

theorem greed_node : greed.node? (some "wizard") 2 = some ⟨[], [greedyChoice]⟩ := by decide +kernel

end Ruleset.Primer

open Novice Ruleset.Primer in
theorem unnamed_missing :
    (∃ r, (Ruleset.ofDocument shelved unnamed).result = .ok r ∧
      (r.classes.get? "").bind (fun class_ => class_.progression.get? 2) = some ⟨[], []⟩ ∧
      (novice.applyLevel r (some "") 2 (.ofValue silent.toValue) false firstDay).result =
        .error (.levelUp (.progressionMissing (some "") 2 []))) ∧
    (novice.applyLevel greed (some "wizard") unwritten (.ofValue silent.toValue) false firstDay).result =
      .error (.breakdown (.badValue Text.tooLargeMessage)) ∧
    (Ruleset.ofDocument shelved greedy).result = .ok greed ∧
      (∀ node, greed.node? (some "wizard") 2 = some node → ∀ choice ∈ node.choices,
        ∃ options, greed.resolvePool choice.source = .ok options) ∧
      (novice.applyLevel greed (some "wizard") 2 (.ofValue silent.toValue) false firstDay).result =
        .error (.breakdown (.badValue Text.tooLargeMessage)) := by
  have pools : ∀ node, greed.node? (some "wizard") 2 = some node → ∀ choice ∈ node.choices,
      ∃ options, greed.resolvePool choice.source = .ok options := by
    intro node found choice member
    obtain rfl : node = ⟨[], [greedyChoice]⟩ := by simpa using found.symm.trans greed_node
    obtain rfl : choice = greedyChoice := by simpa using member
    exact ⟨[], by decide +kernel⟩
  refine ⟨?_, Character.applyLevel_fails unwritten_long .., ok_of_get _, pools, ?_⟩
  · exact ⟨nameless, ok_of_get _, by decide +kernel, by decide +kernel⟩
  · have short : IsWritten 2 := by decide
    have made := made_table (pools _ greed_node) silent
    have unmet : silent.firstUnmet? [greedyChoice] = some greedyChoice := by decide +kernel
    have untold : ¬IsWritten greedyChoice.count := unwritten_long
    simp only [unmet, Choice.mismatch, if_neg untold] at made
    rw [Character.applyLevel_bare short (by decide) greed_node, made]
    rfl

end Tabletop

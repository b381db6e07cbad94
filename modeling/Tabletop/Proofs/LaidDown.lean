import Tabletop.Command
import Tabletop.Proofs.Ascent

set_option autoImplicit false

namespace Tabletop

open Character (committed)

-- what is read from a table

theorem Value.field?_toValue {α : Type} (f : α → Value) (name : String) (es : List (String × α)) :
    Value.field? name (es.map fun e => (.str e.1, f e.2)) = (Dict.find? name es).map f := by
  induction es with
  | nil => rfl
  | cons e es ih =>
    simp only [List.map_cons, Value.field?, Value.isKey, Dict.find?, ih, beq_iff_eq]
    split <;> rfl

namespace Answer

def ofIds (ids : List String) : Answer :=
  ofValue (.ofStrings ids)

theorem picks_ofIds (ids : List String) : (ofIds ids).picks = .ok (.ids ids) := by
  have texts (ids : List String) : (ids.map Value.str).mapM Value.text? = some ids := by
    induction ids with
    | nil => rfl
    | cons id ids ih =>
      rw [List.map_cons, List.mapM_cons, ih]
      rfl
  have keys : (ids.map Value.str).all Value.isHashable = true := by
    simp [Value.isHashable]
  cases ids with
  | nil => rfl
  | cons id ids =>
    have given : (Value.ofStrings (id :: ids)).isTruthy = true := rfl
    have listed : (Value.ofStrings (id :: ids)).members = .ok ((id :: ids).map .str) := rfl
    simp only [ofIds, ofValue, given, listed, keys, Picks.ofMembers, texts]
    rfl

end Answer

namespace Ledger

-- what a table of picks lays down for a level
def laidDown (table : Ledger) (level : Int) : LevelRecord :=
  (table.get? (toString level)).getD .empty

end Ledger

theorem Selections.ofValue_record (record : LevelRecord) :
    Selections.ofValue record.toValue = .byChoice (record.mapValues Answer.ofIds) := by
  have entries : (record.entries.map fun e => ((.str e.1, .ofStrings e.2) : Value × Value)).map
      (fun e => (e.1.text, Answer.ofValue e.2)) = (record.mapValues Answer.ofIds).entries := by
    rw [List.map_map]
    rfl
  change Selections.byChoice (.ofList _) = _
  rw [entries, Dict.ofList_entries]

theorem Command.answersOf_table (table : Ledger) (choice : Choice) (options : List PoolOption)
    (level : Int) :
    answersOf table.toValue choice options level =
      .ok (((table.laidDown level).get? choice.id).map Answer.ofIds) := by
  have found : Value.field? (toString level) (table.entries.map fun e => (.str e.1, e.2.toValue)) =
      (table.get? (toString level)).map LevelRecord.toValue := Value.field?_toValue _ _ _
  unfold Ledger.laidDown
  cases listed : table.get? (toString level) with
  | none =>
    simp only [answersOf, Ledger.toValue, Dict.toValue, found, listed]
    rfl
  | some record =>
    have picked : Value.field choice.id (record.entries.map fun e => (.str e.1, .ofStrings e.2)) =
        ((record.get? choice.id).map Value.ofStrings).getD .null := by
      rw [Value.field, Value.field?_toValue]
      rfl
    simp only [answersOf, Ledger.toValue, Dict.toValue, found, listed, Option.map_some]
    simp only [LevelRecord.toValue, Dict.toValue, picked, Option.getD_some]
    cases record.get? choice.id with
    | none => rfl
    | some ids => rfl

-- picks that a node takes

theorem distinct_of_nodup {ids : List String} (apart : ids.Nodup) : distinct ids = ids := by
  unfold distinct
  induction ids with
  | nil => rfl
  | cons id ids ih =>
    rw [List.nodup_cons] at apart
    have others : (ids.filter fun other => !other == id) = ids := by
      rw [List.filter_eq_self]
      intro other member
      have different : other ≠ id := by
        rintro rfl
        exact apart.1 member
      simpa using different
    rw [List.eraseDups_cons, others, ih apart.2]

structure Choice.Takes (choice : Choice) (r : Ruleset) (ids : List String) : Prop where
  pool : ∃ options, r.resolvePool choice.source = .ok options
  apart : ids.Nodup
  count : (ids.length : Int) = choice.count

theorem checkCount_taken {choice : Choice} {r : Ruleset} {ids : List String}
    (takes : choice.Takes r ids) : checkCount choice (.ids ids) = .ok () := by
  have all : (Picks.ids ids).distinctSize = (Picks.ids ids).size := by
    simp only [Picks.distinctSize, Picks.size, distinct_of_nodup takes.apart]
  have size : (Picks.ids ids).size = choice.count := takes.count
  rw [checkCount, if_pos (by simp [all, size])]

theorem picksOf_taken {r : Ruleset} {s : Selections} {ids : String → List String}
    {choices : List Choice} (takes : ∀ choice ∈ choices, choice.Takes r (ids choice.id))
    (answered : ∀ choice ∈ choices, s.picksFor choice.id = .ok (.ids (ids choice.id)))
    (d : Dict String Picks) :
    picksOf s d choices =
      .ok (choices.foldl (fun d choice => d.insert choice.id (.ids (ids choice.id))) d) := by
  induction choices generalizing d with
  | nil => rfl
  | cons choice choices ih =>
    rw [List.forall_mem_cons] at takes answered
    simp only [picksOf, answered.1, Failure.ofExcept, checkCount_taken takes.1, bind, Except.bind,
      ih takes.2 answered.2, List.foldl_cons]

theorem sortedValues_strings (ss : List String) :
    ∃ vs, Selections.sortedValues (ss.map .str) = .ok vs := by
  have text : ∀ e ∈ (ss.map Value.str).map (fun v => (v, Value.null)), ∃ name, e.1 = .str name := by
    simp
  obtain ⟨es, sorted, -⟩ := Json.sortMembers_perm text
  exact ⟨es.map (·.1), by rw [Selections.sortedValues, sorted]; rfl⟩

theorem validate_byChoice {node : Node} {answers : Dict String Answer} {picks : Dict String Picks}
    (picked : picksOf (.byChoice answers) .empty node.choices = .ok picks) :
    (node.validate (.byChoice answers)).result = .ok picks := by
  obtain ⟨others, sorted⟩ :=
    sortedValues_strings (answers.keys.filter fun k => !picks.contains k)
  rw [Node.validate, picked]
  simp only [Noted.result_bind, Noted.result_ofExcept, Selections.undeclared, sorted,
    Failure.ofExcept, Except.bind]
  split <;> rfl

theorem madeOf_taken {r : Ruleset} {ids : String → List String} {choices : List Choice}
    (takes : ∀ choice ∈ choices, choice.Takes r (ids choice.id)) {picks : Dict String Picks}
    (picked : ∀ choice ∈ choices, picks.get? choice.id = some (.ids (ids choice.id))) :
    ∃ made, madeOf r picks choices = .ok made := by
  induction choices with
  | nil => exact ⟨[], rfl⟩
  | cons choice choices ih =>
    rw [List.forall_mem_cons] at takes picked
    obtain ⟨options, pool⟩ := takes.1.pool
    obtain ⟨made, more⟩ := ih takes.2 picked.2
    refine ⟨⟨choice, options, ids choice.id⟩ :: made, ?_⟩
    simp only [madeOf, pool, picked.1, Option.getD_some, Picks.toIds, more, bind, Except.bind, pure,
      Except.pure]

-- a node is made in one way by all selections with the same picks for its choices
theorem made_taken {r : Ruleset} {node : Node} {ids : String → List String}
    (takes : ∀ choice ∈ node.choices, choice.Takes r (ids choice.id)) :
    ∃ made, ∀ answers : Dict String Answer,
      (∀ choice ∈ node.choices, answers.get? choice.id = some (.ofIds (ids choice.id))) →
        node.made r (.byChoice answers) = .ok made := by
  let picks : Dict String Picks := node.choices.foldl
    (fun d choice => d.insert choice.id (.ids (ids choice.id))) .empty
  have picked : ∀ choice ∈ node.choices, picks.get? choice.id = some (.ids (ids choice.id)) := by
    intro choice member
    rw [get?_foldl_choices (fun id => Picks.ids (ids id)), if_pos (List.mem_map_of_mem member)]
  obtain ⟨made, listed⟩ := madeOf_taken takes picked
  refine ⟨made, fun answers given => ?_⟩
  have answered : ∀ choice ∈ node.choices,
      (Selections.byChoice answers).picksFor choice.id = .ok (.ids (ids choice.id)) := by
    intro choice member
    rw [Selections.picksFor, given choice member]
    exact Answer.picks_ofIds _
  have valid : (node.validate (.byChoice answers)).result = .ok picks :=
    validate_byChoice (picksOf_taken takes answered .empty)
  rw [Node.made, valid, Except.bind, listed]
  rfl

namespace Ledger

def Covers (table : Ledger) (r : Ruleset) (classId : Option String) (level : Int) : Prop :=
  ∃ node, r.node? classId level = some node ∧
    ∀ choice ∈ node.choices,
      ∃ ids, (table.laidDown level).get? choice.id = some ids ∧ choice.Takes r ids

end Ledger

namespace Journey

theorem answers_table {table : Ledger} {r : Ruleset} {c : Character} {level : Int}
    {ids : String → List String} {choices : List Choice}
    (laid : ∀ choice ∈ choices,
      (table.laidDown level).get? choice.id = some (ids choice.id) ∧ choice.Takes r (ids choice.id))
    (given : Dict String Answer) :
    answers (Command.answersOf table.toValue) r c level given choices =
      some (choices.foldl (fun d choice => d.insert choice.id (.ofIds (ids choice.id))) given) := by
  induction choices generalizing given with
  | nil => rfl
  | cons choice choices ih =>
    rw [List.forall_mem_cons] at laid
    obtain ⟨⟨listed, takes⟩, rest⟩ := laid
    obtain ⟨options, pool⟩ := takes.pool
    simp only [answers, Ruleset.optionsFor, pool, Except.map, Command.answersOf_table, listed,
      Option.map_some, ih rest, List.foldl_cons]

-- a level that the table covers rises as it is applied
theorem rise_covered {table : Ledger} {r : Ruleset} {c : Character} {level : Int}
    (short : IsWritten level) (covers : table.Covers r c.classId level) (bare : c.isApplied level = false) :
    ∃ node made,
      rise (Command.answersOf table.toValue) r c level = some (risen r node level made c) ∧
        ∀ now, (c.applyLevel r c.classId level (.ofValue (table.laidDown level).toValue) false
          now).result = .ok (committed r node level made now c) := by
  obtain ⟨node, found, laid⟩ := covers
  let ids (id : String) := ((table.laidDown level).get? id).getD []
  have listed : ∀ choice ∈ node.choices, (table.laidDown level).get? choice.id =
      some (ids choice.id) ∧ choice.Takes r (ids choice.id) := by
    intro choice member
    obtain ⟨xs, there, takes⟩ := laid choice member
    have same : ids choice.id = xs := by simp [ids, there]
    exact ⟨by rw [same, there], same ▸ takes⟩
  obtain ⟨made, all⟩ := made_taken fun choice member => (listed choice member).2
  have asked : node.made r (.byChoice (node.choices.foldl
      (fun d choice => d.insert choice.id (Answer.ofIds (ids choice.id))) .empty)) = .ok made := by
    refine all _ fun choice member => ?_
    rw [get?_foldl_choices (fun id => Answer.ofIds (ids id)), if_pos (List.mem_map_of_mem member)]
  have handed : node.made r (.ofValue (table.laidDown level).toValue) = .ok made := by
    rw [Selections.ofValue_record]
    refine all _ fun choice member => ?_
    rw [Dict.get?_mapValues, (listed choice member).1]
    rfl
  refine ⟨node, made, ?_, fun now => ?_⟩
  · rw [rise, found, Option.bind_some, answers_table listed, Option.bind_some, asked]
    rfl
  · rw [Character.applyLevel_bare short bare found, handed]
    rfl

end Journey

end Tabletop

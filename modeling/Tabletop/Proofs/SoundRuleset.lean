import Tabletop.Proofs.BuiltLevels
import Tabletop.Proofs.KeptClasses
import Tabletop.Proofs.OnRecord
import Tabletop.Proofs.Outcome

set_option autoImplicit false

namespace Tabletop

open Character (committed pickedIds)

structure Node.IsSound (level : Int) (node : Node) : Prop extends node.IsParsed level where
  counted : ∀ choice ∈ node.choices, 1 ≤ choice.count

structure ClassDef.IsSound (id : String) (c : ClassDef) : Prop where
  named : c.id = id
  nodes : ∀ e ∈ c.progression.entries, Node.IsSound e.1 e.2

-- what the import establishes

theorem Choice.one_le_count {es : Field.Entries} {choice : Choice} (read : Choice.ofEntries es = .ok choice) :
    1 ≤ choice.count := by
  simp only [Choice.ofEntries, Checked.seq_eq_ok, Checked.map_eq_ok] at read
  obtain ⟨_, count, ⟨_, filter, ⟨_, source, ⟨_, help, ⟨_, title, ⟨id, -, rfl⟩, -, rfl⟩, -, rfl⟩, -, rfl⟩, -,
    rfl⟩, given, rfl⟩ := read
  rcases Field.withDefault_eq_ok given with ⟨-, same⟩ | ⟨v, -, counted⟩
  · exact same.ge
  · exact Field.integerFrom_le counted

namespace Ruleset

open Check (Entries)

theorem choiceOf_counted {classId level : String} {item : Value} {choice : Choice}
    (read : (choiceOf classId level item).result = .ok (some choice)) : 1 ≤ choice.count := by
  cases item with
  | map es =>
    rw [choiceOf] at read
    split at read
    · cases read
    · exact Choice.one_le_count (partOf_result read)
  | _ => cases read

theorem choicesOf_counted {classId level : String} {items : List Value} {kept choices : List Choice}
    (counted : ∀ choice ∈ kept, 1 ≤ choice.count)
    (read : (choicesOf classId level kept items).result = .ok choices) :
    ∀ choice ∈ choices, 1 ≤ choice.count := by
  induction items generalizing kept with
  | nil =>
    cases read
    exact counted
  | cons item items ih =>
    simp only [choicesOf, Noted.bind_result_ok] at read
    obtain ⟨_ | choice, one, read⟩ := read
    · exact ih counted read
    · simp only at read
      split at read
      · rw [Noted.bind_result_ok] at read
        obtain ⟨_, -, read⟩ := read
        exact ih counted read
      · refine ih ?_ read
        rw [List.forall_mem_append, List.forall_mem_singleton]
        exact ⟨counted, choiceOf_counted one⟩

theorem nodeOf_sound {classId : String} {key : Value} {level : Int} {es : Entries} {node : Node}
    (keyed : Check.levelKey? key = .ok (some level))
    (read : (nodeOf classId level es).result = .ok node) : node.IsSound level := by
  refine ⟨nodeOf_parsed keyed read, ?_⟩
  simp only [nodeOf, Noted.bind_result_ok] at read
  obtain ⟨grants, -, items, -, choices, chosen, same⟩ := read
  cases same
  exact choicesOf_counted (by simp) chosen

theorem progressionOf_sound {classId : String} {es : Entries} {nodes found : Dict Int Node} {ns : List Notice}
    (sound : ∀ e ∈ nodes.entries, Node.IsSound e.1 e.2)
    (read : (progressionOf classId nodes es).outcome = .ok (found, ns)) :
    ∀ e ∈ found.entries, Node.IsSound e.1 e.2 := by
  induction es generalizing nodes ns with
  | nil =>
    cases read
    exact sound
  | cons e es ih =>
    obtain ⟨level?, keyed, ⟨level, fields, node, own, rest, rfl, -, made, others, -⟩ | ⟨others, -⟩⟩ :=
      progressionOf_cons read
    · exact ih (Dict.forall_insert sound (nodeOf_sound keyed (Noted.result_of_outcome made))) others
    · exact ih sound others

-- nothing that is settled later takes the place of the id
theorem field?_id_classEntries (classId : String) (es : Entries) :
    Value.field? "id" (classEntries classId es) = some (.str classId) := by
  have settled (fields : Entries) : Value.field? "id" (settleHitDie fields) = Value.field? "id" fields := by
    unfold settleHitDie
    split
    · split
      · rw [Value.field?_dropField_of_ne (by decide), Value.field?_setField, if_neg (by decide)]
      · rfl
    · rfl
  simp only [classEntries, field?_stringifyField]
  rw [if_neg (by decide), if_neg (by decide), settled]
  split
  · rw [Value.field?_setField, if_pos rfl]
  · rw [Value.field?_setField, if_neg (by decide), Value.field?_setField, if_pos rfl]

theorem classDef_id {progression : Dict Int Node} {es : Entries} {c : ClassDef} {id : String}
    (given : Value.field? "id" es = some (.str id)) (read : ClassDef.ofEntries progression es = .ok c) :
    c.id = id := by
  simp only [ClassDef.ofEntries, Checked.seq_eq_ok, Checked.map_eq_ok, Checked.pure_eq_ok] at read
  obtain ⟨_, slots, ⟨_, casting, ⟨_, _, ⟨_, hitDie, ⟨_, name, ⟨id', named, rfl⟩, -, rfl⟩, -, rfl⟩, rfl,
    rfl⟩, -, rfl⟩, -, rfl⟩ := read
  rw [Field.required, given] at named
  exact (Checked.ok.inj (Checked.within_eq_ok.1 named)).symm

theorem classOf_sound {classId : String} {es : Entries} {c : ClassDef} {ns : List Notice}
    (read : (classOf classId es).outcome = .ok (some c, ns)) : c.IsSound classId := by
  obtain ⟨progression, own, nodes, -, told, part, -⟩ := classOf_progression read
  have whole := partOf_result (Noted.result_of_outcome part)
  refine ⟨classDef_id (field?_id_classEntries classId es) whole, ?_⟩
  rw [classDef_progression whole]
  exact progressionOf_sound (by simp [Dict.empty]) nodes

theorem gather_forall {α : Type} {part : Value × Value → Noted (Option α)} {P : String × α → Prop}
    (holds : ∀ e a own, (part e).outcome = .ok (some a, own) → P (e.1.text, a)) {es : Entries}
    {d found : Dict String α} {ns : List Notice} (before : ∀ e ∈ d.entries, P e)
    (read : (gather part d es).outcome = .ok (found, ns)) : ∀ e ∈ found.entries, P e := by
  induction es generalizing d ns with
  | nil =>
    cases read
    exact before
  | cons e es ih =>
    obtain ⟨a?, own, rest, one, others, -⟩ := gather_cons.1 read
    cases a? with
    | none => exact ih before others
    | some a => exact ih (Dict.forall_insert before (holds e a own one)) others

theorem ofDocument_sound {now : Moment} {d : Value} {r : Ruleset}
    (imported : (ofDocument now d).result = .ok r) : ∀ e ∈ r.classes.entries, ClassDef.IsSound e.1 e.2 := by
  obtain ⟨ns, imported⟩ := Noted.outcome_of_result imported
  obtain ⟨es, report, more, -, -, -, built, -⟩ := ofDocument_built imported
  simp only [build, Noted.bind_outcome_ok, Noted.pure_outcome_ok] at built
  obtain ⟨classes, own, rest, read, ⟨_, _, _, -, ⟨_, _, _, -, ⟨_, _, _, -, ⟨rfl, -⟩, -⟩, -⟩, -⟩, -⟩ := built
  rw [classesOf_eq] at read
  refine gather_forall ?_ (by simp [Dict.empty]) read
  rintro ⟨key, v⟩ c own part
  cases v with
  | map fields => exact classOf_sound part
  | _ => cases part

theorem node?_sound {now : Moment} {d : Value} {r : Ruleset} (imported : (ofDocument now d).result = .ok r)
    {classId : Option String} {level : Int} {node : Node} (found : r.node? classId level = some node) :
    node.IsSound level := by
  simp only [node?, Option.bind_eq_some_iff] at found
  obtain ⟨c, classed, found⟩ := found
  cases classId with
  | none => contradiction
  | some id =>
    simp only [class?] at classed
    split at classed
    · contradiction
    · have sound := ofDocument_sound imported _ (Dict.mem_of_get? classed)
      exact sound.nodes _ (Dict.mem_of_get? found)

end Ruleset

-- the picks that were taken for the choices of a node

theorem picksOf_met {s : Selections} {choices : List Choice} {d picks : Dict String Picks}
    (distinct : (choices.map Choice.id).Nodup) (valid : picksOf s d choices = .ok picks) :
    (∀ id, id ∉ choices.map Choice.id → picks.get? id = d.get? id) ∧
      ∀ choice ∈ choices, ∃ p, picks.get? choice.id = some p ∧ checkCount choice p = .ok () := by
  induction choices generalizing d with
  | nil =>
    cases valid
    simp
  | cons choice choices ih =>
    rw [List.map_cons, List.nodup_cons] at distinct
    simp only [picksOf, bind_eq_ok] at valid
    obtain ⟨p, -, _, counted, valid⟩ := valid
    obtain ⟨untouched, met⟩ := ih distinct.2 valid
    refine ⟨fun id apart => ?_, List.forall_mem_cons.2 ⟨⟨p, ?_, counted⟩, met⟩⟩
    · rw [List.map_cons, List.mem_cons, not_or] at apart
      rw [untouched id apart.2, Dict.get?_insert, if_neg apart.1]
    · rw [untouched _ distinct.1, Dict.get?_insert, if_pos rfl]

theorem made_met {r : Ruleset} {node : Node} {s : Selections} {made : List Made}
    (distinct : (node.choices.map Choice.id).Nodup) (chosen : node.made r s = .ok made) :
    ∀ m ∈ made, m.choice.MetBy m.picks := by
  obtain ⟨picks, valid, listed⟩ := made_eq_ok chosen
  obtain ⟨choices, taken⟩ := madeOf_eq_ok listed
  obtain ⟨-, met⟩ := picksOf_met distinct (validate_eq_ok valid)
  intro m member
  have asked : m.choice ∈ node.choices := choices ▸ List.mem_map_of_mem member
  obtain ⟨p, found, counted⟩ := met m.choice asked
  have same := taken m member
  rw [found, Option.getD_some] at same
  rw [same, checkCount_ids] at counted
  split at counted
  · assumption
  · cases counted

-- the record of a level

/-- The record tells for each choice, in their order, as many ids as it asks for, no two of them equal. -/
def LevelRecord.Answers (record : LevelRecord) (choices : List Choice) : Prop :=
  List.Forall₂ (fun e choice => e.1 = choice.id ∧ choice.MetBy e.2) record.entries choices

theorem recordOf_answers {r : Ruleset} {node : Node} {s : Selections} {made : List Made}
    (distinct : (node.choices.map Choice.id).Nodup) (chosen : node.made r s = .ok made)
    (asks : node.choices ≠ []) : (recordOf node made).Answers node.choices := by
  have choices := made_choices chosen
  have filled : made.isEmpty = false := by
    cases made with
    | nil => exact absurd choices.symm asks
    | cons m made => rfl
  have keys : ((made.map fun m => (m.choice.id, m.picks)).map (·.1)).Nodup := by
    rw [← choices] at distinct
    simpa [Function.comp_def] using distinct
  rw [LevelRecord.Answers, recordOf, filled, if_neg Bool.false_ne_true, Dict.entries_ofList keys, ← choices,
    List.forall₂_map_left_iff, List.forall₂_map_right_iff, List.forall₂_same]
  exact fun m member => ⟨rfl, made_met (choices ▸ distinct) chosen m member⟩

-- a revert takes back the picks of the record, and leaves the grants alone

theorem LevelRecord.Answers.keys {record : LevelRecord} {choices : List Choice}
    (answers : record.Answers choices) :
    record.entries.map (·.1) = choices.map Choice.id := by
  rw [← List.forall₂_eq_eq_eq, List.forall₂_map_left_iff, List.forall₂_map_right_iff]
  exact answers.imp fun e choice answer => answer.1

theorem LevelRecord.Answers.pickedIds {record : LevelRecord} {node : Node} {level : Int}
    (answers : record.Answers node.choices) (parsed : node.IsParsed level) :
    pickedIds record = record.entries.flatMap (·.2) := by
  rw [Character.pickedIds, List.filter_eq_self.2]
  intro e member
  have asked : e.1 ∈ node.choices.map Choice.id := answers.keys ▸ List.mem_map_of_mem member
  obtain ⟨choice, declared, same⟩ := List.mem_map.1 asked
  rw [decide_eq_true_eq, ← same]
  exact parsed.reserved choice declared

theorem pickedIds_grants {record : LevelRecord} {grants : List String}
    (only : record.entries = [(grantsKey, grants)]) : pickedIds record = [] := by
  simp [pickedIds, only]

namespace Ruleset

/-- Classes of an imported ruleset go by their ids, and their levels, choices and counts are in order. So a level
that is applied leaves a record of its picks, one entry for each choice, or one of its grants, and a revert takes
back all of the picks and none of the grants. -/
theorem applyLevel_records {imported : Moment} {d : Value} {r : Ruleset}
    (read : (ofDocument imported d).result = .ok r) :
    (∀ e ∈ r.classes.entries, ClassDef.IsSound e.1 e.2) ∧
      ∀ (c after : Character) (classId : Option String) (level : Int) (s : Selections) (force : Bool)
        (now : Moment), c.isApplied level = false ∨ force = true →
        (c.applyLevel r classId level s force now).result = .ok after →
        ∃ node record, r.node? classId level = some node ∧ node.IsSound level ∧
          after.advancement.get? (toString level) = some record ∧ (after.revert level).2 = some record ∧
          (node.choices ≠ [] ∧ record.Answers node.choices ∧ pickedIds record = record.entries.flatMap (·.2) ∨
            node.choices = [] ∧ record.entries = [(grantsKey, node.grants)] ∧ pickedIds record = []) := by
  refine ⟨ofDocument_sound read, fun c after classId level s force now due went => ?_⟩
  have runs : ¬(c.isApplied level && !force) = true := by
    rcases due with bare | forced <;> simp [*]
  rw [Character.applyLevel_result _ _ _ (Character.isWritten_of_applyLevel went), if_neg runs] at went
  cases found : r.node? classId level with
  | none =>
    rw [found] at went
    cases went
  | some node =>
    cases chosen : node.made r s with
    | error f =>
      simp only [found, chosen] at went
      cases went
    | ok made =>
      simp only [found, chosen, Except.map, Except.ok.injEq] at went
      have sound := node?_sound read found
      have recorded : after.record? level = some (recordOf node made) := by
        rw [← went, Character.record?_committed, if_pos rfl]
      have reverted : (after.revert level).2 = some (recordOf node made) := by
        rw [Character.revert_of_recorded recorded]
      refine ⟨node, recordOf node made, rfl, sound, Character.get?_of_record? recorded, reverted, ?_⟩
      by_cases asks : node.choices = []
      · have only : (recordOf node made).entries = [(grantsKey, node.grants)] := by
          rw [recordOf_made_nil chosen asks]
          rfl
        exact .inr ⟨asks, only, pickedIds_grants only⟩
      · have answers := recordOf_answers sound.distinct chosen asks
        exact .inl ⟨asks, answers, answers.pickedIds sound.toIsParsed⟩

-- numbers for ids, a choice that is given twice, and a level without choices

namespace Primer

def syllabus : Value :=
  .map [(.str "meta", single "id" (.str "r")),
    (.str "classes", .map [(.int 7, single "progression" (.map [
      (.str "02", single "choices" (.list [
        .map [(.str "id", .int 1), (.str "from", .str "spells"), (.str "count", .int 2)],
        .map [(.str "id", .str "1"), (.str "from", .str "spells")],
        .map [(.str "id", .str "b"), (.str "from", .str "spells")]])),
      (.int 3, single "grants" (.list [.str "ward"]))]))]),
    (.str "spells", .list [single "id" (.str "light"), single "id" (.str "frost")])]

def course : Ruleset :=
  (ofDocument shelved syllabus).result.toOption.get (by decide +kernel)

def lecture : Character :=
  (Novice.novice.applyLevel course (some "7") 2
    (.ofValue (.map [(.str "b", .list [.str "light"]), (.str "1", .list [.str "frost", .str "light"])])) false
    shelved).result.toOption.get (by decide +kernel)

def seminar : Character :=
  (lecture.applyLevel course (some "7") 3 (.byChoice .empty) false shelved).result.toOption.get
    (by decide +kernel)

end Primer

open Primer Recruit in
theorem applyLevel_records_syllabus :
    (ofDocument shelved syllabus).result = .ok course ∧ lecture.isApplied 3 = false ∧
      (∃ record, lecture.advancement.get? "2" = some record ∧
        record.entries = [("1", ["frost", "light"]), ("b", ["light"])]) ∧
      ∃ node record, course.node? (some "7") 3 = some node ∧ node.IsSound 3 ∧
        seminar.advancement.get? "3" = some record ∧ (seminar.revert 3).2 = some record ∧
        (node.choices ≠ [] ∧ record.Answers node.choices ∧ pickedIds record = record.entries.flatMap (·.2) ∨
          node.choices = [] ∧ record.entries = [(grantsKey, node.grants)] ∧ pickedIds record = []) := by
  have read : (ofDocument shelved syllabus).result = .ok course := ok_of_get _
  have bare : lecture.isApplied 3 = false := by decide +kernel
  have filed : (lecture.advancement.get? "2").map Dict.entries =
      some [("1", ["frost", "light"]), ("b", ["light"])] := by decide +kernel
  exact ⟨read, bare, Option.map_eq_some_iff.1 filed,
    (applyLevel_records read).2 lecture seminar (some "7") 3 (.byChoice .empty) false shelved (.inl bare)
      (ok_of_get _)⟩

end Ruleset

end Tabletop

import Mathlib.Data.List.Induction
import Tabletop.Proofs.Chronicle
import Tabletop.Proofs.ParsedRuleset
import Tabletop.Proofs.SoundCharacter

set_option autoImplicit false

namespace Tabletop

open Ability (normalizeKey)
open Tabletop.Field (Entries)

namespace Character

structure PlainKeys (v : Value) : Prop where
  abilities : ∀ e ∈ Value.entriesOrEmpty (Value.field "abilities" (givenEntries v)),
    isAscii e.1.text = true
  saves : ∀ keys, Value.members (Value.field "save_proficiency" (givenEntries v)) = .ok keys →
    ∀ key ∈ keys, isAscii key.text = true

structure Keeps (c : Character) : Prop where
  sound : c.Sound
  settled : c.settled = c

-- reading brings the keys into their usual form

-- every key that is read comes from a member of the record
theorem readSaves_of_members {v : Value} {saves : IdSet} (reads : readSaves v = .ok saves) :
    ∀ key ∈ saves, ∃ keys, v.members = .ok keys ∧ ∃ k ∈ keys, key = normalizeKey k.text := by
  intro key member
  unfold readSaves at reads
  split at reads
  · rename_i es
    cases reads
    simp only [IdSet.mem_ofList, List.mem_map, List.mem_filter] at member
    obtain ⟨e, ⟨given, -⟩, rfl⟩ := member
    exact ⟨_, rfl, e.1, List.mem_map_of_mem given, rfl⟩
  · split at reads
    · cases reads
      exact absurd member (IdSet.not_mem_empty key)
    · simp only [bind_eq_ok] at reads
      obtain ⟨keys, listed, same⟩ := reads
      cases same
      simp only [IdSet.mem_ofList, List.mem_map] at member
      obtain ⟨k, given, rfl⟩ := member
      exact ⟨keys, listed, k, given, rfl⟩

theorem abilities_usual {es : Entries} {scores : Dict String Int}
    (plain : ∀ e ∈ Value.entriesOrEmpty (Value.field "abilities" es), isAscii e.1.text = true)
    (reads : prepared "abilities" defaultScores readAbilities es = .ok scores) :
    Usual scores ∧ ∀ key ∈ scores.keys, isAscii key = true := by
  have start : ∀ e ∈ defaultScores.entries, isAscii e.1 = true := by decide +kernel
  have usual : Usual scores := abilities_keep reads usual_default fun e member _ score usual =>
    usual_insert usual score (Ability.normalizeKey_stable (plain e member))
  have ascii : ∀ e ∈ scores.entries, isAscii e.1 = true :=
    abilities_keep (p := fun scores => ∀ e ∈ scores.entries, isAscii e.1 = true) reads start
      fun e member _ _ ascii => Dict.forall_insert ascii (isAscii_normalizeKey (plain e member))
  refine ⟨usual, fun key member => ?_⟩
  obtain ⟨e, there, rfl⟩ := List.mem_map.1 member
  exact ascii e there

theorem saves_stable {es : Entries} {saves : IdSet}
    (plain : ∀ keys, Value.members (Value.field "save_proficiency" es) = .ok keys →
      ∀ key ∈ keys, isAscii key.text = true)
    (reads : prepared "save_proficiency" .empty readSaves es = .ok saves) :
    ∀ key ∈ saves, isAscii key = true ∧ normalizeKey key = key := by
  intro key member
  rcases Field.withDefault_eq_ok reads with ⟨-, rfl⟩ | ⟨v, found, reads⟩
  · exact absurd member (IdSet.not_mem_empty key)
  · rw [Value.field, found] at plain
    obtain ⟨keys, listed, k, given, rfl⟩ :=
      readSaves_of_members (Checked.ofExcept_eq_ok.1 reads) key member
    have ascii := plain keys listed k given
    exact ⟨isAscii_normalizeKey ascii, Ability.normalizeKey_stable ascii⟩

namespace Keeps

variable {c : Character}

theorem of_plain {supply : Supply} {v : Value} {notices : List Notice} (json : Json.plain v = .ok v)
    (plain : PlainKeys v) (now : supply.now.Legible) (next : supply.now.next.Legible)
    (reads : ofValue supply v = .ok (c, notices)) : c.Keeps := by
  obtain ⟨legible, six⟩ := ofValue_legible json now next reads
  obtain ⟨s, -, fields⟩ := ofValue_fields reads
  have fields := readFields_eq_ok fields
  obtain ⟨usual, ascii⟩ := abilities_usual plain.abilities fields.abilities
  have stable := saves_stable plain.saves fields.saves
  refine ⟨⟨legible, ⟨ascii, fun key member => (stable key member).1⟩, six⟩, ?_⟩
  rw [Character.settled, rescored_usual usual, resaved_stable fun key member => (stable key member).2]

theorem of_record {supply : Supply} {v : Value} {notices : List Notice} (json : v.IsJson)
    (plain : PlainKeys v) (now : supply.now.Legible) (next : supply.now.next.Legible)
    (reads : ofValue supply v = .ok (c, notices)) : c.Keeps :=
  of_plain json.proper.plain plain now next reads

theorem reread (keeps : c.Keeps) (supply : Supply) : ofValue supply c.toValue = .ok (c, []) := by
  rw [ofValue_toValue keeps.sound.legible, keeps.settled]

theorem revert (keeps : c.Keeps) (level : Int) : (c.revert level).1.Keeps := by
  refine ⟨keeps.sound.revert level, ?_⟩
  obtain ⟨features, spells, infusions, advancement, whole⟩ := revert_frame c level
  rw [whole]
  exact settled_of_same keeps.settled rfl rfl

theorem committed (keeps : c.Keeps) (r : Ruleset) (node : Node) {level : Int} (made : List Made)
    {now : Moment} (bounds : 1 ≤ level ∧ level ≤ 20) (legible : now.Legible) :
    (committed r node level made now c).Keeps := by
  refine ⟨keeps.sound.committed r node made bounds legible, ?_⟩
  obtain ⟨features, spells, infusions, whole⟩ := committed_frame r node level made now c
  rw [whole]
  exact settled_of_same keeps.settled rfl rfl

theorem withFeatures (keeps : c.Keeps) (features : List Feature) :
    Keeps { c with features := features } where
  sound := {
    legible := { keeps.sound.legible with }
    ascii := { keeps.sound.ascii with }
    six := keeps.sound.six }
  settled := settled_of_same keeps.settled rfl rfl

end Keeps

end Character

def Deed.IsFair : Deed → Prop
  | .apply _ a _ now =>
    (∃ imported d, (Ruleset.ofDocument imported d).result = .ok a.ruleset) ∧ now.Legible
  | _ => True

namespace Chronicle

theorem record_keeps {h : Chronicle} (keeps : h.character.Keeps) {d : Deed} (fair : d.IsFair) :
    (h.record d).character.Keeps := by
  cases d with
  | apply level a force now =>
    obtain ⟨⟨imported, document, parsed⟩, legible⟩ := fair
    rcases h.record_apply level a force now with idle | ⟨node, made, ⟨found, -⟩, -, busy⟩
    · rwa [idle]
    · rw [busy]
      have node := Ruleset.node?_parsed parsed found
      exact keeps.committed _ _ _ ⟨node.low, node.high⟩ legible
  | revert level => exact keeps.revert level
  | write f manual => exact keeps.withFeatures _

theorem after_keeps {c : Character} (keeps : c.Keeps) {deeds : List Deed}
    (fair : ∀ d ∈ deeds, d.IsFair) : (after c deeds).character.Keeps := by
  induction deeds using List.reverseRecOn with
  | nil => exact keeps
  | append_singleton deeds d ih =>
    rw [List.forall_mem_append, List.forall_mem_singleton] at fair
    rw [after_snoc]
    exact record_keeps (ih fair.1) fair.2

/-- Whatever a character that was read from a record goes through, saving it and reading it again gives
the same character, and nothing is noted. -/
theorem after_reread {supply : Supply} {v : Value} {c : Character} {notices : List Notice}
    (json : v.IsJson) (plain : Character.PlainKeys v) (now : supply.now.Legible)
    (next : supply.now.next.Legible) (read : Character.ofValue supply v = .ok (c, notices))
    {deeds : List Deed} (fair : ∀ d ∈ deeds, d.IsFair) (again : Supply) :
    Character.ofValue again (after c deeds).character.toValue =
      .ok ((after c deeds).character, []) :=
  (after_keeps (.of_record json plain now next read) fair).reread again

end Chronicle

-- a record under old names, and the levels of a ruleset that was imported

namespace Recruit

open Ruleset.Primer (shelved single single_json graded)

def record : Value :=
  .map [(.str "classId", .str "wizard"), (.str "abilities", single "strength" (.int 18)),
    (.str "saveProfs", .list [.str "dexterity"])]

def supply : Supply := ⟨0, shelved⟩

def hero : Character :=
  ((Failure.ofChecked (Character.ofValue supply record)).toOption.get (by decide +kernel)).1

def drills : Ruleset :=
  (Ruleset.ofDocument shelved graded).result.toOption.get (by decide +kernel)

def drill : Application := ⟨drills, some "wizard", .byChoice .empty⟩

def deeds : List Deed :=
  [.apply 2 drill false shelved, .revert 2, .apply 2 drill true shelved]

theorem ok_of_ofChecked {α : Type} {x : Checked α} {a : α} (found : Failure.ofChecked x = .ok a) :
    x = .ok a := by
  cases x with
  | ok b =>
    cases found
    rfl
  | refused faults => cases found
  | broken cause => cases found

theorem hero_read : ∃ notices, Character.ofValue supply record = .ok (hero, notices) :=
  ⟨_, ok_of_ofChecked (ok_of_get (by decide +kernel))⟩

theorem record_json : record.IsJson := by
  refine .map (.of_names ["classId", "abilities", "saveProfs"] rfl (by decide)) ?_
  simp only [List.forall_mem_cons]
  refine ⟨.str _, single_json _ (.int 18), .list fun v member => ?_, by simp⟩
  rw [List.mem_singleton.1 member]
  exact .str _

theorem record_plainKeys : Character.PlainKeys record where
  abilities := by decide +kernel
  saves := by
    intro keys listed
    have own : Value.members (Value.field "save_proficiency" (Character.givenEntries record)) =
        .ok [.str "dexterity"] := rfl
    cases own.symm.trans listed
    decide

theorem shelved_legible : shelved.Legible :=
  ⟨rfl, rfl, by decide, by simp [shelved]⟩

theorem deeds_fair : ∀ d ∈ deeds, d.IsFair := by
  have parsed : (∃ imported d, (Ruleset.ofDocument imported d).result = .ok drill.ruleset) ∧
      shelved.Legible := ⟨⟨shelved, graded, ok_of_get (by decide +kernel)⟩, shelved_legible⟩
  simp only [deeds, List.forall_mem_cons]
  exact ⟨parsed, trivial, parsed, by simp⟩

end Recruit

open Recruit in
theorem after_reread_recruit : ∃ c notices, Character.ofValue supply record = .ok (c, notices) ∧
    (Chronicle.after c deeds).character.record? 2 = some (.ofList [(grantsKey, [])]) ∧
    Character.ofValue supply (Chronicle.after c deeds).character.toValue =
      .ok ((Chronicle.after c deeds).character, []) := by
  have spare : supply.now.Spare (0 + 1) := .inl (by decide)
  have next : supply.now.next.Legible := (Moment.next_legible shelved_legible spare).1
  have trained : (match Character.ofValue supply record with
      | .ok (c, _) => (Chronicle.after c deeds).character.record? 2
      | _ => none) = some (.ofList [(grantsKey, [])]) := by decide +kernel
  cases read : Character.ofValue supply record with
  | ok result =>
    obtain ⟨c, notices⟩ := result
    rw [read] at trained
    exact ⟨c, notices, rfl, trained, Chronicle.after_reread record_json record_plainKeys shelved_legible next
      read
      deeds_fair supply⟩
  | refused faults =>
    rw [read] at trained
    contradiction
  | broken cause =>
    rw [read] at trained
    contradiction

end Tabletop

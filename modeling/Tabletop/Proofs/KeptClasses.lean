import Tabletop.Proofs.KeptLevels

set_option autoImplicit false

namespace Tabletop

open Tabletop.Field (Entries)
open Tabletop.Json (Written MemberWritten Keeps KeepsText KeepsKey)

namespace Ruleset

open Value (Agree AgreeBy FieldsKept)

-- classes

def SlotsKept : Value → Prop
  | .map es => ∀ e ∈ es, KeepsKey e.1 ∧ Keeps e.2
  | v => Keeps v

def TableKept : Value → Prop
  | .map es => ∀ e ∈ es, KeepsKey e.1 ∧ SlotsKept e.2
  | v => Keeps v

structure ClassKept (es : Entries) : Prop where
  fields : FieldsKept ["name", "hitDie", "hit_die", "spellcastingAbility", "spellcasting_ability"] es
  progression : ProgressionKept (Value.field "progression" es)
  slots : ∀ name ∈ ["spell_slots", "spellSlots"], TableKept (Value.field name es)

section Classes

variable {classId name : String} {es fs : Entries} {v w : Value} {names : List String} {class? : Option ClassDef}

-- keys count for their texts
theorem stringifyKeys_congr
    (same : List.Forall₂ (fun e f : Value × Value => f.1.text = e.1.text ∧ f.2 = e.2) es fs) :
    stringifyKeys fs = stringifyKeys es := by
  have texts : fs.map (fun f => ((.str f.1.text : Value), f.2)) =
      es.map fun e => ((.str e.1.text : Value), e.2) := by
    induction same with
    | nil => rfl
    | cons entry _ ih => rw [List.map_cons, List.map_cons, ih, entry.1, entry.2]
  rw [stringifyKeys, texts, stringifyKeys]

theorem stringifyKeys_written (read : Value → Value) (members : List.Forall₂ MemberWritten es fs)
    (keys : ∀ e ∈ es, KeepsKey e.1) (same : ∀ e ∈ es, ∀ w, Written e.2 w → read w = read e.2) :
    stringifyKeys (fs.map fun f => (f.1, read f.2)) = stringifyKeys (es.map fun e => (e.1, read e.2)) := by
  refine stringifyKeys_congr ?_
  induction members with
  | nil => exact .nil
  | cons member _ ih =>
    rw [List.forall_mem_cons] at keys same
    have text := congrArg Value.text (keys.1.eq member)
    exact .cons ⟨text, same.1 _ member.value⟩ (ih keys.2 same.2)

theorem stringifySlots_written (kept : SlotsKept v) (written : Written v w) :
    stringifySlots w = stringifySlots v := by
  cases v with
  | map es =>
    obtain ⟨fs, members, rfl⟩ := Json.written_map.1 written
    have same := stringifyKeys_written (fun v => v) members (fun e member => (kept e member).1)
      fun e member _ => (kept e member).2.eq
    simpa [stringifySlots] using same
  | _ => rw [Keeps.eq kept written]

theorem stringifyTable_written (kept : TableKept v) (written : Written v w) :
    stringifyTable w = stringifyTable v := by
  cases v with
  | map es =>
    obtain ⟨fs, members, rfl⟩ := Json.written_map.1 written
    have same := stringifyKeys_written stringifySlots members (fun e member => (kept e member).1)
      fun e member _ => stringifySlots_written (kept e member).2
    exact congrArg Value.map same
  | _ => rw [Keeps.eq kept written]

structure ClassAgree (names : List String) (es fs : Entries) : Prop where
  plain : Agree names es fs
  tables : AgreeBy stringifyTable ["spell_slots", "spellSlots"] es fs

theorem ClassAgree.setField (agree : ClassAgree names es fs) :
    ClassAgree names (Value.setField name v es) (Value.setField name v fs) :=
  ⟨agree.plain.setField, agree.tables.setField⟩

theorem ClassAgree.dropField (agree : ClassAgree names es fs) :
    ClassAgree names (Value.dropField name es) (Value.dropField name fs) :=
  ⟨agree.plain.dropField, agree.tables.dropField⟩

theorem settleHitDie_agree (agree : ClassAgree names es fs) (first : "hitDie" ∈ names)
    (second : "hit_die" ∈ names) : ClassAgree names (settleHitDie es) (settleHitDie fs) := by
  have same : hitDieField fs = hitDieField es := by
    rw [hitDieField, agree.plain _ first, agree.plain.field second, hitDieField]
  rw [settleHitDie, settleHitDie, same]
  split
  · split
    · exact agree.setField.dropField
    · exact agree
  · exact agree

theorem field?_stringifyField (name other : String) (es : Entries) :
    Value.field? other (stringifyField name es) =
      if name = other then (Value.field? other es).map stringifyTable else Value.field? other es := by
  unfold stringifyField
  cases found : Value.field? name es with
  | none =>
    by_cases same : name = other
    · rw [if_pos same, ← same, found]
      rfl
    · rw [if_neg same]
  | some v =>
    by_cases same : name = other
    · rw [if_pos same, ← same, found, Value.field?_setField, if_pos rfl]
      rfl
    · rw [if_neg same, Value.field?_setField, if_neg same]

theorem stringify_agree (agree : ClassAgree names es fs) :
    Agree ("spell_slots" :: "spellSlots" :: names)
      (stringifyField "spell_slots" (stringifyField "spellSlots" es))
      (stringifyField "spell_slots" (stringifyField "spellSlots" fs)) := by
  have first := agree.tables "spell_slots" (by simp)
  have second := agree.tables "spellSlots" (by simp)
  intro name member
  simp only [field?_stringifyField]
  by_cases short : "spell_slots" = name
  · subst short
    simpa using first
  · by_cases long : "spellSlots" = name
    · subst long
      simpa using second
    · simp only [List.mem_cons, Ne.symm short, Ne.symm long, false_or] at member
      simpa [short, long] using agree.plain name member

theorem classEntries_of_agree
    (agree : ClassAgree ["name", "hitDie", "hit_die", "spellcastingAbility", "spellcasting_ability"] es fs) :
    Agree ["spell_slots", "spellSlots", "id", "name", "hitDie", "hit_die", "spellcastingAbility",
      "spellcasting_ability"] (classEntries classId es) (classEntries classId fs) := by
  have start : ClassAgree ["id", "name", "hitDie", "hit_die", "spellcastingAbility", "spellcasting_ability"]
      (Value.setField "id" (.str classId) (Value.dropField "progression" es))
      (Value.setField "id" (.str classId) (Value.dropField "progression" fs)) :=
    ⟨agree.plain.dropField.set _ _, agree.tables.dropField.setField⟩
  unfold classEntries
  simp only
  refine stringify_agree (settleHitDie_agree ?_ (by simp) (by simp))
  rw [start.plain.field (by simp)]
  split
  · exact start
  · exact start.setField

theorem classEntries_agree (kept : ClassKept es) (members : List.Forall₂ MemberWritten es fs) :
    Agree ["spell_slots", "spellSlots", "id", "name", "hitDie", "hit_die", "spellcastingAbility",
      "spellcasting_ability"] (classEntries classId es) (classEntries classId fs) := by
  refine classEntries_of_agree ⟨kept.fields.agree (by decide) members, ?_⟩
  exact Value.agreeBy_of_written (by decide)
    (fun name member _ => stringifyTable_written (kept.slots name member)) members

theorem classOf_written (kept : ClassKept es) (members : List.Forall₂ MemberWritten es fs)
    (read : (classOf classId es).result = .ok class?) : (classOf classId fs).result = .ok class? := by
  simp only [classOf, Noted.bind_result_ok, Noted.ofExcept_result_ok] at read ⊢
  obtain ⟨nodes, mapped, progression, levels, read⟩ := read
  obtain ⟨nodes', mapped', inner, each⟩ :=
    mapEntries_written (Json.field_written "progression" (by decide) members) kept.progression mapped
  refine ⟨nodes', mapped', progression, progressionOf_written inner each levels, ?_⟩
  rw [ClassDef.ofEntries_of_agree (classEntries_agree kept members)]
  exact read

def ClassesKept (es : Entries) : Prop :=
  ∀ e ∈ es, ∀ fields ∈ e.2.entries?, KeepsKey e.1 ∧ ClassKept fields

theorem classesOf_written {classes found : Dict String ClassDef} (kept : ClassesKept es)
    (members : List.Forall₂ MemberWritten es fs) (read : (classesOf classes es).result = .ok found) :
    (classesOf classes fs).result = .ok found := by
  induction members generalizing classes with
  | nil => exact read
  | @cons e f es fs member _ ih =>
    obtain ⟨k, v⟩ := e
    obtain ⟨l, w⟩ := f
    rw [ClassesKept, List.forall_mem_cons] at kept
    cases v with
    | map fields =>
      obtain ⟨fields', inner, same⟩ := Json.written_map.1 member.value
      obtain rfl : .map fields' = w := same
      obtain ⟨key, one⟩ := kept.1 fields rfl
      obtain rfl : l = .str k.text := key.eq member
      simp only [classesOf, Noted.bind_result_ok] at read ⊢
      obtain ⟨class?, first, read⟩ := read
      refine ⟨class?, classOf_written one inner first, ?_⟩
      cases class? with
      | none => exact ih kept.2 read
      | some c => exact ih kept.2 read
    | _ =>
      have bare := Json.isMap_written member.value
      cases w with
      | map fields => cases bare
      | _ => exact ih kept.2 read

end Classes

end Ruleset

end Tabletop

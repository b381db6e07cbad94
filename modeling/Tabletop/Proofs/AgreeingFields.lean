import Tabletop.Proofs.WrittenForm
import Tabletop.Ruleset.Reading

set_option autoImplicit false

namespace Tabletop

open Tabletop.Field (Entries Reader)
open Tabletop.Json (Written MemberWritten Keeps KeepsText KeepsKey)

namespace Field

variable {α : Type} {read : Reader α} {default : α} {name first second : String} {es fs : Entries}

theorem required_of_same (same : Value.field? name fs = Value.field? name es) :
    required name read fs = required name read es := by
  rw [required, same, required]

theorem withDefault_of_same (same : Value.field? name fs = Value.field? name es) :
    withDefault name default read fs = withDefault name default read es := by
  rw [withDefault, same, withDefault]

theorem requiredAs_of_same (same : Value.field? first fs = Value.field? first es)
    (same' : Value.field? second fs = Value.field? second es) :
    requiredAs first second read fs = requiredAs first second read es := by
  rw [requiredAs, Value.hasField, Value.hasField, same, same', required_of_same same, required_of_same same']
  rfl

theorem aliased_of_same (same : Value.field? first fs = Value.field? first es)
    (same' : Value.field? second fs = Value.field? second es) :
    aliased first second default read fs = aliased first second default read es := by
  rw [aliased, Value.hasField, same, withDefault_of_same same, withDefault_of_same same']
  rfl

end Field

namespace Value

variable {α : Type} {g : Value → α} {names : List String} {es fs : Entries} {name : String} {v : Value}

def AgreeBy (g : Value → α) (names : List String) (es fs : Entries) : Prop :=
  ∀ name ∈ names, (field? name fs).map g = (field? name es).map g

def Agree (names : List String) (es fs : Entries) : Prop :=
  ∀ name ∈ names, field? name fs = field? name es

theorem AgreeBy.setField (agree : AgreeBy g names es fs) :
    AgreeBy g names (Value.setField name v es) (Value.setField name v fs) := by
  intro other member
  rw [field?_setField, field?_setField]
  split
  · rfl
  · exact agree other member

theorem field?_dropField_of_ne {other : String} (apart : name ≠ other) :
    field? other (Value.dropField name es) = field? other es := by
  induction es with
  | nil => rfl
  | cons e es ih =>
    obtain ⟨k, v⟩ := e
    unfold Value.dropField at ih ⊢
    cases here : isKey name k with
    | false => simp [here, field?, ih]
    | true =>
      have foreign : isKey other k = false := by
        cases k <;> simp_all [isKey]
      simp [here, field?, foreign, ih]

theorem AgreeBy.dropField (agree : AgreeBy g names es fs) :
    AgreeBy g names (Value.dropField name es) (Value.dropField name fs) := by
  intro other member
  by_cases same : name = other
  · rw [← same, Character.field?_dropField, Character.field?_dropField]
  · rw [field?_dropField_of_ne same, field?_dropField_of_ne same]
    exact agree other member

theorem agreeBy_id : AgreeBy id names es fs ↔ Agree names es fs := by
  simp [AgreeBy, Agree]

theorem Agree.setField (agree : Agree names es fs) :
    Agree names (Value.setField name v es) (Value.setField name v fs) :=
  agreeBy_id.1 (AgreeBy.setField (agreeBy_id.2 agree))

theorem Agree.dropField (agree : Agree names es fs) :
    Agree names (Value.dropField name es) (Value.dropField name fs) :=
  agreeBy_id.1 (AgreeBy.dropField (agreeBy_id.2 agree))

theorem Agree.field (agree : Agree names es fs) (member : name ∈ names) :
    Value.field name fs = Value.field name es := by
  rw [Value.field, agree name member, Value.field]

-- a member that is set is the same in both
theorem Agree.set (agree : Agree names es fs) (name : String) (v : Value) :
    Agree (name :: names) (Value.setField name v es) (Value.setField name v fs) := by
  refine List.forall_mem_cons.2 ⟨?_, agree.setField⟩
  rw [field?_setField, field?_setField, if_pos rfl, if_pos rfl]

def FieldsKept (names : List String) (es : Entries) : Prop :=
  ∀ name ∈ names, Keeps (field name es)

theorem agreeBy_of_written (words : ∀ name ∈ names, Json.isWord name = true)
    (same : ∀ name ∈ names, ∀ w, Written (field name es) w → g w = g (field name es))
    (members : List.Forall₂ MemberWritten es fs) : AgreeBy g names es fs := by
  intro name member
  have found := Json.field?_written (words name member) members
  have same := same name member
  rw [Value.field] at same
  generalize field? name es = v?, field? name fs = w? at found same ⊢
  cases found with
  | none => rfl
  | some value => exact congrArg some (same _ value)

theorem FieldsKept.agree (kept : FieldsKept names es) (words : ∀ name ∈ names, Json.isWord name = true)
    (members : List.Forall₂ MemberWritten es fs) : Agree names es fs :=
  agreeBy_id.1 (agreeBy_of_written words (fun name member _ => (kept name member).eq) members)

end Value

-- what the readers look at

theorem Choice.ofEntries_of_agree {es fs : Entries}
    (agree : Value.Agree ["id", "title", "help", "from", "from_", "filter", "count"] es fs) :
    Choice.ofEntries fs = Choice.ofEntries es := by
  simp only [Value.Agree, List.forall_mem_cons] at agree
  obtain ⟨id, title, help, source, source', filter, count, -⟩ := agree
  simp only [Choice.ofEntries, Field.required_of_same id, Field.withDefault_of_same title,
    Field.withDefault_of_same help, Field.requiredAs_of_same source source', Field.withDefault_of_same filter,
    Field.withDefault_of_same count]

theorem ClassDef.ofEntries_of_agree {progression : Dict Int Node} {es fs : Entries}
    (agree : Value.Agree ["spell_slots", "spellSlots", "id", "name", "hitDie", "hit_die",
      "spellcastingAbility", "spellcasting_ability"] es fs) :
    ClassDef.ofEntries progression fs = ClassDef.ofEntries progression es := by
  simp only [Value.Agree, List.forall_mem_cons] at agree
  obtain ⟨slots, slots', id, name, die, die', casting, casting', -⟩ := agree
  simp only [ClassDef.ofEntries, Field.required_of_same id, Field.required_of_same name,
    Field.aliased_of_same die die', Field.aliased_of_same casting casting', Field.aliased_of_same slots' slots]

theorem PoolOption.ofEntries_of_agree {es fs : Entries}
    (agree : Value.Agree ["id", "name", "level", "tags", "lists", "requires", "desc", "description"] es fs) :
    PoolOption.ofEntries fs = PoolOption.ofEntries es := by
  simp only [Value.Agree, List.forall_mem_cons] at agree
  obtain ⟨id, name, level, tags, lists, requirements, text, text', -⟩ := agree
  simp only [PoolOption.ofEntries, Field.required_of_same id, Field.required_of_same name,
    Field.withDefault_of_same level, Field.withDefault_of_same tags, Field.withDefault_of_same lists,
    Field.withDefault_of_same requirements, Field.aliased_of_same text text']

theorem FeatureInfo.ofEntries_of_agree {es fs : Entries}
    (agree : Value.Agree ["name", "desc", "description"] es fs) :
    FeatureInfo.ofEntries fs = FeatureInfo.ofEntries es := by
  simp only [Value.Agree, List.forall_mem_cons] at agree
  obtain ⟨name, text, text', -⟩ := agree
  simp only [FeatureInfo.ofEntries, Field.required_of_same name, Field.aliased_of_same text text']

end Tabletop

import Tabletop.Proofs.BuiltLevels
import Tabletop.Proofs.KeptClasses

set_option autoImplicit false

namespace Tabletop

open Tabletop.Field (Entries)

namespace Value

/-- The same value, or a whole number and its text. -/
inductive Spelled : Value → Value → Prop where
  | same (v : Value) : Spelled v v
  | number (i : Int) : Spelled (.int i) (.str (toString i))

def SameOr (alike : Value → Value → Prop) (v w : Value) : Prop :=
  w = v ∨ alike v w

/-- Two lists of which the elements are the same or alike. A set stands in the order in which it is walked. -/
inductive InList (alike : Value → Value → Prop) : Value → Value → Prop where
  | list {xs ys : List Value} (items : List.Forall₂ (SameOr alike) xs ys) : InList alike (.list xs) (.list ys)
  | tuple {xs ys : List Value} (items : List.Forall₂ (SameOr alike) xs ys) : InList alike (.tuple xs) (.tuple ys)
  | set {xs ys : List Value} (items : List.Forall₂ (SameOr alike) xs ys) : InList alike (.set xs) (.set ys)

def MemberAlike (alike : Value → Value → Value → Prop) (e f : Value × Value) : Prop :=
  f.1 = e.1 ∧ SameOr (alike e.1) e.2 f.2

inductive InObject (alike : Value → Value → Value → Prop) : Value → Value → Prop where
  | map {es fs : Entries} (members : List.Forall₂ (MemberAlike alike) es fs) : InObject alike (.map es) (.map fs)

def EntryAlike (alike : Value → Value → Prop) (e f : Value × Value) : Prop :=
  Spelled e.1 f.1 ∧ SameOr alike e.2 f.2

inductive InKeys (alike : Value → Value → Prop) : Value → Value → Prop where
  | map {es fs : Entries} (entries : List.Forall₂ (EntryAlike alike) es fs) : InKeys alike (.map es) (.map fs)

section Reading

variable {α : Type} {v w : Value} {es fs : Entries} {xs ys : List Value} {names : List String}
  {each : Value → Value → Prop} {alike : Value → Value → Value → Prop}

theorem Spelled.text_eq (spelled : Spelled v w) : w.text = v.text := by
  cases spelled <;> rfl

theorem isEmpty_toString (i : Int) : (toString i).isEmpty = false := by
  rw [Bool.eq_false_iff]
  intro blank
  have empty : (toString i).toList = [] := congrArg String.toList (String.isEmpty_iff.1 blank)
  rw [Int.toString_eq_repr, Int.repr_eq_if] at empty
  split at empty
  · rw [Nat.toList_repr] at empty
    exact Nat.toDigits_ne_nil empty
  · rw [String.toList_append] at empty
    exact List.append_ne_nil_of_left_ne_nil (by decide) _ empty

-- a walk finds the same in both, if it finds the same in alike lists
theorem looped_alike {walk : List Value → α} (value : SameOr (InList each) v w)
    (same : ∀ xs ys, List.Forall₂ (SameOr each) xs ys → walk ys = walk xs) :
    w.looped.map walk = v.looped.map walk := by
  have found {xs ys : List Value} (items : List.Forall₂ (SameOr each) xs ys) :
      (looped (.list ys)).map walk = (looped (.list xs)).map walk := by
    cases items with
    | nil => rfl
    | cons item items => exact congrArg Except.ok (same _ _ (.cons item items))
  obtain rfl | items | items | items := value
  · rfl
  all_goals exact found items

theorem field?_alike (members : List.Forall₂ (MemberAlike alike) es fs) (name : String) :
    Option.Rel (SameOr (alike (.str name))) (field? name es) (field? name fs) := by
  induction members with
  | nil => exact .none
  | @cons e f es fs member _ ih =>
    obtain ⟨k, v⟩ := e
    obtain ⟨l, w⟩ := f
    obtain ⟨key, value⟩ := member
    obtain rfl : l = k := key
    rw [field?, field?]
    cases here : isKey name l with
    | false => exact ih
    | true =>
      obtain rfl := mem_of_isKey here
      exact .some value

theorem field_alike (members : List.Forall₂ (MemberAlike alike) es fs) (name : String) :
    SameOr (alike (.str name)) (field name es) (field name fs) := by
  have found := field?_alike members name
  rw [field, field]
  generalize field? name es = v?, field? name fs = w? at found ⊢
  cases found with
  | none => exact .inl rfl
  | some value => exact value

theorem hasField_alike (members : List.Forall₂ (MemberAlike alike) es fs) (name : String) :
    hasField name fs = hasField name es := by
  have found := field?_alike members name
  rw [hasField, hasField]
  generalize field? name es = v?, field? name fs = w? at found ⊢
  cases found <;> rfl

theorem agreeBy_of_alike {read : Value → α} (members : List.Forall₂ (MemberAlike alike) es fs)
    (same : ∀ name ∈ names, ∀ v w, alike (.str name) v w → read w = read v) : AgreeBy read names es fs := by
  intro name member
  have found := field?_alike members name
  generalize field? name es = v?, field? name fs = w? at found ⊢
  cases found with
  | none => rfl
  | some value =>
    obtain rfl | value := value
    · rfl
    · exact congrArg some (same name member _ _ value)

theorem agree_of_alike (members : List.Forall₂ (MemberAlike alike) es fs)
    (others : ∀ name ∈ names, ∀ v w, ¬ alike (.str name) v w) : Agree names es fs :=
  agreeBy_id.1 (agreeBy_of_alike members fun name member v w value => absurd value (others name member v w))

theorem field_same {name : String} (members : List.Forall₂ (MemberAlike alike) es fs)
    (other : ∀ v w, ¬ alike (.str name) v w) : field name fs = field name es :=
  (field_alike members name).resolve_right (other _ _)

end Reading

end Value

open Value (Spelled SameOr InList InObject InKeys MemberAlike EntryAlike Agree AgreeBy)

theorem Noted.ofExcept_map_bind {α β γ : Type} (x : Except Breakdown α) (found : α → β) (next : β → Noted γ) :
    ofExcept (x.map found) >>= next = ofExcept x >>= fun a => next (found a) := by
  cases x with
  | error cause => rfl
  | ok a =>
    change (pure (found a) >>= next) = (pure a >>= fun a => next (found a))
    rw [pure_bind, pure_bind]

namespace Ruleset

-- where numbers may be spelled out, from the grants and the choices of a level up to a class

def GrantsSpelled (v w : Value) : Prop :=
  Spelled v w ∨ InList Spelled v w ∨ InKeys (fun _ _ => False) v w

def ChoiceSpelled : Value → Value → Prop :=
  InObject fun k v w => k = .str "id" ∧ Spelled v w

def NodeSpelled : Value → Value → Prop :=
  InObject fun k v w => k = .str "grants" ∧ GrantsSpelled v w ∨ k = .str "choices" ∧ InList ChoiceSpelled v w

def SlotsSpelled : Value → Value → Prop :=
  InKeys fun _ _ => False

def TableSpelled : Value → Value → Prop :=
  InKeys SlotsSpelled

def ClassSpelled : Value → Value → Prop :=
  InObject fun k v w => k = .str "progression" ∧ InKeys NodeSpelled v w ∨
    k ∈ [.str "spellSlots", .str "spell_slots"] ∧ TableSpelled v w

section Levels

variable {classId level : String} {chosen : List Choice} {xs ys : List Value} {es fs : Entries}
  {k l v w x y : Value}

theorem lacksId_spelled (members : List.Forall₂ (MemberAlike fun k v w => k = .str "id" ∧ Spelled v w) es fs) :
    Check.lacksId (.map fs) = Check.lacksId (.map es) := by
  have id := Value.field_alike members "id"
  rw [Check.lacksId, Check.lacksId]
  generalize Value.field "id" es = v, Value.field "id" fs = w at id ⊢
  obtain rfl | ⟨-, _ | i⟩ := id
  · rfl
  · rfl
  · exact Value.isEmpty_toString i

theorem choiceId_spelled (members : List.Forall₂ (MemberAlike fun k v w => k = .str "id" ∧ Spelled v w) es fs) :
    (Value.field "id" fs).text = (Value.field "id" es).text := by
  obtain same | ⟨-, spelled⟩ := Value.field_alike members "id"
  · rw [same]
  · exact spelled.text_eq

theorem choiceOf_spelled (item : SameOr ChoiceSpelled x y) :
    choiceOf classId level y = choiceOf classId level x := by
  obtain rfl | ⟨⟨members⟩⟩ := item
  · rfl
  · have agree : Agree ["title", "help", "from", "from_", "filter", "count"] _ _ :=
      Value.agree_of_alike members (by simp)
    rw [choiceOf, choiceOf, lacksId_spelled members, choiceEntries, choiceId_spelled members, choiceEntries,
      Choice.ofEntries_of_agree (agree.set _ _)]

theorem choicesOf_spelled (items : List.Forall₂ (SameOr ChoiceSpelled) xs ys) :
    choicesOf classId level chosen ys = choicesOf classId level chosen xs := by
  induction items generalizing chosen with
  | nil => rfl
  | cons item _ ih =>
    rw [choicesOf, choicesOf, choiceOf_spelled item]
    congr 1
    funext choice?
    cases choice? with
    | none => exact ih
    | some choice => simp only [ih]

theorem texts_spelled (items : List.Forall₂ (SameOr Spelled) xs ys) : ys.map Value.text = xs.map Value.text := by
  induction items with
  | nil => rfl
  | cons item _ ih =>
    obtain rfl | spelled := item
    · rw [List.map_cons, List.map_cons, ih]
    · rw [List.map_cons, List.map_cons, ih, spelled.text_eq]

theorem keys_spelled {each : Value → Value → Prop} (entries : List.Forall₂ (EntryAlike each) es fs) :
    List.Forall₂ (SameOr Spelled) (es.map (·.1)) (fs.map (·.1)) := by
  induction entries with
  | nil => exact .nil
  | cons entry _ ih => exact .cons (.inr entry.1) ih

theorem grants_spelled (grants : SameOr GrantsSpelled v w) :
    (asList w).map (List.map Value.text) = (asList v).map (List.map Value.text) := by
  obtain rfl | (_ | i) | (items | items | items) | entries := grants
  · rfl
  · rfl
  · rfl
  · exact congrArg Except.ok (texts_spelled items)
  · exact congrArg Except.ok (texts_spelled items)
  · exact congrArg Except.ok (texts_spelled items)
  · cases entries with
    | map entries => exact congrArg Except.ok (texts_spelled (keys_spelled entries))

theorem nodeOf_eq (classId : String) (level : Int) (es : Entries) :
    nodeOf classId level es = (do
      let grants ← .ofExcept ((asList (Value.field "grants" es)).map (List.map Value.text))
      let chosen ← .ofExcept ((Value.field "choices" es).looped.map (choicesOf classId (toString level) []))
      let choices ← chosen
      return ⟨grants, choices⟩) := by
  simp only [nodeOf, Noted.ofExcept_map_bind]

theorem nodeOf_spelled {level : Int} (node : NodeSpelled (.map es) (.map fs)) :
    nodeOf classId level fs = nodeOf classId level es := by
  obtain ⟨members⟩ := node
  have grants : SameOr GrantsSpelled (Value.field "grants" es) (Value.field "grants" fs) :=
    (Value.field_alike members "grants").imp_right (by simp)
  have choices : SameOr (InList ChoiceSpelled) (Value.field "choices" es) (Value.field "choices" fs) :=
    (Value.field_alike members "choices").imp_right (by simp)
  rw [nodeOf_eq, grants_spelled grants, Value.looped_alike choices fun _ _ => choicesOf_spelled, nodeOf_eq]

theorem levelKey?_spelled (spelled : Spelled k l) : Check.levelKey? l = Check.levelKey? k := by
  rw [Check.levelKey?, spelled.text_eq, Check.levelKey?]

theorem progressionOf_spelled {nodes : Dict Int Node} (entries : List.Forall₂ (EntryAlike NodeSpelled) es fs) :
    progressionOf classId nodes fs = progressionOf classId nodes es := by
  induction entries generalizing nodes with
  | nil => rfl
  | @cons e f es fs entry _ ih =>
    obtain ⟨k, v⟩ := e
    obtain ⟨l, w⟩ := f
    obtain ⟨key, value⟩ := entry
    rw [progressionOf, progressionOf, levelKey?_spelled key]
    congr 1
    funext level?
    cases level? with
    | none => exact ih
    | some level =>
      obtain same | node := value
      · obtain rfl : w = v := same
        cases w <;> simp only [ih]
      · cases node with
        | map members => simp only [nodeOf_spelled (.map members), ih]

end Levels

section Classes

variable {classId : String} {es fs : Entries} {v w : Value}

theorem stringifyKeys_spelled {each : Value → Value → Prop} (read : Value → Value)
    (entries : List.Forall₂ (EntryAlike each) es fs) (same : ∀ v w, each v w → read w = read v) :
    stringifyKeys (fs.map fun f => (f.1, read f.2)) = stringifyKeys (es.map fun e => (e.1, read e.2)) := by
  refine stringifyKeys_congr (List.forall₂_map_left_iff.2 (List.forall₂_map_right_iff.2 (entries.imp ?_)))
  rintro e f ⟨key, value⟩
  refine ⟨key.text_eq, ?_⟩
  obtain value | value := value
  · exact congrArg read value
  · exact same _ _ value

theorem stringifySlots_spelled (slots : SlotsSpelled v w) : stringifySlots w = stringifySlots v := by
  obtain ⟨entries⟩ := slots
  simpa [stringifySlots] using stringifyKeys_spelled (fun v => v) entries fun _ _ => False.elim

theorem stringifyTable_spelled (table : TableSpelled v w) : stringifyTable w = stringifyTable v := by
  obtain ⟨entries⟩ := table
  exact congrArg Value.map (stringifyKeys_spelled _ entries fun _ _ => stringifySlots_spelled)

theorem classOf_eq (classId : String) (es : Entries) :
    classOf classId es = (do
      let found ← .ofExcept ((mapEntries (Value.field "progression" es)).map (progressionOf classId .empty))
      let progression ← found
      partOf (.invalidClass classId) (ClassDef.ofEntries progression (classEntries classId es))) := by
  simp only [classOf, Noted.ofExcept_map_bind]

theorem classOf_spelled (data : ClassSpelled (.map es) (.map fs)) : classOf classId fs = classOf classId es := by
  obtain ⟨members⟩ := data
  have agree : Value.Agree ["name", "hitDie", "hit_die", "spellcastingAbility", "spellcasting_ability"] es fs :=
    Value.agree_of_alike members (by simp)
  have tables : AgreeBy stringifyTable ["spell_slots", "spellSlots"] es fs :=
    Value.agreeBy_of_alike members (by simpa using fun _ _ => stringifyTable_spelled)
  have levels : SameOr (InKeys NodeSpelled) (Value.field "progression" es) (Value.field "progression" fs) :=
    (Value.field_alike members "progression").imp_right (by simp)
  have walked : (mapEntries (Value.field "progression" fs)).map (progressionOf classId .empty) =
      (mapEntries (Value.field "progression" es)).map (progressionOf classId .empty) := by
    obtain same | nodes := levels
    · rw [same]
    · generalize Value.field "progression" es = v, Value.field "progression" fs = w at nodes ⊢
      obtain ⟨entries⟩ := nodes
      exact congrArg Except.ok (progressionOf_spelled entries)
  rw [classOf_eq, walked, classOf_eq]
  simp only [ClassDef.ofEntries_of_agree (classEntries_of_agree ⟨agree, tables⟩)]

theorem classesOf_spelled {classes : Dict String ClassDef}
    (entries : List.Forall₂ (EntryAlike ClassSpelled) es fs) : classesOf classes fs = classesOf classes es := by
  induction entries generalizing classes with
  | nil => rfl
  | @cons e f es fs entry _ ih =>
    obtain ⟨k, v⟩ := e
    obtain ⟨l, w⟩ := f
    obtain ⟨key, value⟩ := entry
    have text : l.text = k.text := key.text_eq
    obtain same | data := value
    · obtain rfl : w = v := same
      cases w <;> simp only [classesOf, text, ih]
    · cases data with
      | map members => simp only [classesOf, text, classOf_spelled (.map members), ih]

end Classes

end Ruleset

end Tabletop

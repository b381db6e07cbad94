import Tabletop.Proofs.AgreeingFields
import Tabletop.Proofs.ParsedRuleset

set_option autoImplicit false

namespace Tabletop

open Tabletop.Field (Entries)
open Tabletop.Json (Written MemberWritten Keeps KeepsText KeepsKey)

namespace Ruleset

open Value (Agree AgreeBy FieldsKept)

-- choices

structure ChoiceKept (es : Entries) : Prop where
  id : KeepsText (Value.field "id" es)
  fields : FieldsKept ["title", "help", "from", "from_", "filter", "count"] es

def ItemsKept (kept : Entries → Prop) (xs : List Value) : Prop :=
  ∀ x ∈ xs, ∀ es ∈ x.entries?, kept es

def ChoicesKept : Value → Prop
  | .list xs => ItemsKept ChoiceKept xs
  | .tuple xs => ItemsKept ChoiceKept xs
  | .set xs => ∀ x ∈ xs, x.isMap = false
  | _ => True

section Choices

variable {classId level : String} {chosen : List Choice} {xs ys : List Value} {es fs : Entries} {v w x : Value}

theorem lacksId_written (members : List.Forall₂ MemberWritten es fs) :
    Check.lacksId (.map fs) = Check.lacksId (.map es) := by
  have id := Json.field_written "id" (by decide) members
  have filled (s : String) (written : Written (Value.field "id" es) (.str s))
      (other : Value.field "id" es ≠ .str s) : s.isEmpty = false := by
    rw [Bool.eq_false_iff]
    intro empty
    obtain rfl := String.isEmpty_iff.1 empty
    exact other (Json.blank_of_written written)
  rw [Check.lacksId, Check.lacksId]
  generalize Value.field "id" es = v, Value.field "id" fs = w at id filled ⊢
  cases v with
  | list xs =>
    obtain ⟨ys, -, rfl⟩ := Json.written_list.1 id
    rfl
  | tuple xs =>
    obtain ⟨ys, -, rfl⟩ := Json.written_tuple.1 id
    rfl
  | map es =>
    obtain ⟨fs, -, rfl⟩ := Json.written_map.1 id
    rfl
  | bytes bs =>
    cases id
    exact filled _ rfl nofun
  | date d =>
    cases id
    exact filled _ rfl nofun
  | moment m =>
    cases id
    exact filled _ rfl nofun
  | set xs =>
    cases id
    exact filled _ rfl nofun
  | _ =>
    cases id
    rfl

theorem choiceOf_written (kept : ChoiceKept es) (members : List.Forall₂ MemberWritten es fs) :
    choiceOf classId level (.map fs) = choiceOf classId level (.map es) := by
  have text := (kept.id _ (Json.field_written "id" (by decide) members)).1
  have agree := (kept.fields.agree (by decide) members).set "id" (.str (Value.field "id" es).text)
  rw [choiceOf, choiceOf, lacksId_written members, choiceEntries, text, choiceEntries, Choice.ofEntries_of_agree agree]

theorem choiceOf_bare (bare : x.isMap = false) : (choiceOf classId level x).result = .ok none := by
  cases x <;> first | rfl | cases bare

theorem choicesOf_written (items : List.Forall₂ Written xs ys) (kept : ItemsKept ChoiceKept xs) :
    (choicesOf classId level chosen ys).result = (choicesOf classId level chosen xs).result := by
  induction items generalizing chosen with
  | nil => rfl
  | @cons x y xs ys item _ ih =>
    rw [ItemsKept, List.forall_mem_cons] at kept
    have same : (choiceOf classId level y).result = (choiceOf classId level x).result := by
      cases x with
      | map es =>
        obtain ⟨fs, members, rfl⟩ := Json.written_map.1 item
        rw [choiceOf_written (kept.1 es rfl) members]
      | _ =>
        rw [choiceOf_bare (Json.isMap_written item), choiceOf_bare rfl]
    rw [choicesOf, choicesOf, Noted.result_bind, Noted.result_bind, same]
    congr 1
    funext choice?
    cases choice? with
    | none => exact ih kept.2
    | some choice =>
      simp only
      split
      · rw [Noted.result_bind, Noted.result_bind]
        congr 1
        funext _
        exact ih kept.2
      · exact ih kept.2

-- what is no object gives no choice
theorem choicesOf_bare (bare : ∀ x ∈ xs, x.isMap = false) :
    (choicesOf classId level chosen xs).result = .ok chosen := by
  induction xs with
  | nil => rfl
  | cons x xs ih =>
    rw [List.forall_mem_cons] at bare
    rw [choicesOf, Noted.result_bind, choiceOf_bare bare.1]
    exact ih bare.2

theorem named_bare (members : List.Forall₂ MemberWritten es fs) :
    (∀ k ∈ es.map (·.1), k.isMap = false) ∧ ∀ k ∈ fs.map (·.1), k.isMap = false := by
  induction members with
  | nil => simp
  | @cons e f es fs member _ ih =>
    obtain ⟨name, named, key⟩ := member.name
    have bare : e.1.isMap = false := by
      cases shape : e.1 with
      | map => simp [shape, Json.memberName?] at named
      | _ => rfl
    rw [List.map_cons, List.forall_mem_cons, List.map_cons, List.forall_mem_cons, key]
    exact ⟨⟨bare, ih.1⟩, rfl, ih.2⟩

-- a walk through the choices goes on when JSON has held them, and finds the same
theorem looped_written (classId level : String) (chosen : List Choice) (written : Written v w)
    (walked : v.looped = .ok xs) :
    ∃ ys, w.looped = .ok ys ∧ (ChoicesKept v →
      (choicesOf classId level chosen ys).result = (choicesOf classId level chosen xs).result) := by
  have list (zs : List Value) : Value.looped (.list zs) = .ok zs := by cases zs <;> rfl
  have neither {ys : List Value} (first : ∀ x ∈ xs, x.isMap = false) (second : ∀ y ∈ ys, y.isMap = false) :
      (choicesOf classId level chosen ys).result = (choicesOf classId level chosen xs).result := by
    rw [choicesOf_bare first, choicesOf_bare second]
  have text (s : String) : ∃ ys, Value.looped (.str s) = .ok ys ∧ ∀ y ∈ ys, y.isMap = false := by
    unfold Value.looped
    split
    · exact ⟨_, rfl, by simp [Value.isMap]⟩
    · exact ⟨[], rfl, by simp⟩
  cases v with
  | list zs =>
    obtain ⟨ys, items, rfl⟩ := Json.written_list.1 written
    cases (list zs).symm.trans walked
    exact ⟨ys, list ys, choicesOf_written items⟩
  | tuple zs =>
    obtain ⟨ys, items, rfl⟩ := Json.written_tuple.1 written
    have same : Value.looped (.tuple zs) = .ok zs := by cases zs <;> rfl
    cases same.symm.trans walked
    exact ⟨ys, list ys, choicesOf_written items⟩
  | map es =>
    obtain ⟨fs, members, rfl⟩ := Json.written_map.1 written
    have keys (zs : Entries) : Value.looped (.map zs) = .ok (zs.map (·.1)) := by cases zs <;> rfl
    cases (keys es).symm.trans walked
    exact ⟨_, keys fs, fun _ => neither (named_bare members).1 (named_bare members).2⟩
  | set zs =>
    cases written
    obtain ⟨ys, walks, bare⟩ := text (Value.quoted (.set zs))
    have same : Value.looped (.set zs) = .ok zs := by cases zs <;> rfl
    cases same.symm.trans walked
    exact ⟨ys, walks, fun kept => neither kept bare⟩
  | bytes bs =>
    cases written
    obtain ⟨ys, walks, bare⟩ := text (Value.quotedBytes bs)
    have same : Value.looped (.bytes bs) = .ok (bs.map fun b => .int b.toNat) := by cases bs <;> rfl
    cases same.symm.trans walked
    exact ⟨ys, walks, fun _ => neither (by simp [Value.isMap]) bare⟩
  | date d => cases walked
  | moment m => cases walked
  | _ =>
    cases written
    exact ⟨xs, walked, fun _ => rfl⟩

end Choices

-- levels

def GrantsKept : Value → Prop
  | .list xs => ∀ x ∈ xs, KeepsText x
  | .tuple xs => ∀ x ∈ xs, KeepsText x
  | .map es => ∀ e ∈ es, KeepsKey e.1
  | .bytes _ => False
  | .set _ => False
  | _ => True

structure NodeKept (es : Entries) : Prop where
  grants : GrantsKept (Value.field "grants" es)
  choices : ChoicesKept (Value.field "choices" es)

def LevelKept (key node : Value) : Prop :=
  ∀ level fields, Check.levelKey? key = .ok (some level) → node = .map fields → NodeKept fields

def ProgressionKept : Value → Prop
  | .map es => ∀ e ∈ es, LevelKept e.1 e.2
  | .bytes _ => False
  | .set _ => False
  | _ => True

section Levels

variable {classId : String} {level : Int} {xs ys : List Value} {es fs : Entries} {v w : Value}
  {node : Node} {nodes progression : Dict Int Node}

theorem texts_written (items : List.Forall₂ Written xs ys) (kept : ∀ x ∈ xs, KeepsText x) :
    ys.map Value.text = xs.map Value.text := by
  induction items with
  | nil => rfl
  | cons item _ ih =>
    rw [List.forall_mem_cons] at kept
    rw [List.map_cons, List.map_cons, (kept.1 _ item).1, ih kept.2]

theorem keys_written (members : List.Forall₂ MemberWritten es fs) (kept : ∀ e ∈ es, KeepsKey e.1) :
    fs.map (·.1) = es.map fun e => .str e.1.text := by
  induction members with
  | nil => rfl
  | cons member _ ih =>
    rw [List.forall_mem_cons] at kept
    rw [List.map_cons, List.map_cons, kept.1.eq member, ih kept.2]

theorem asList_written (written : Written v w) (kept : GrantsKept v) (listed : asList v = .ok xs) :
    ∃ ys, asList w = .ok ys ∧ ys.map Value.text = xs.map Value.text := by
  cases v with
  | list zs =>
    obtain ⟨ys, items, rfl⟩ := Json.written_list.1 written
    cases listed
    exact ⟨ys, rfl, texts_written items kept⟩
  | tuple zs =>
    obtain ⟨ys, items, rfl⟩ := Json.written_tuple.1 written
    cases listed
    exact ⟨ys, rfl, texts_written items kept⟩
  | map es =>
    obtain ⟨fs, members, rfl⟩ := Json.written_map.1 written
    cases listed
    refine ⟨_, rfl, ?_⟩
    rw [keys_written members kept, List.map_map, List.map_map]
    rfl
  | bytes bs => exact kept.elim
  | set zs => exact kept.elim
  | date d => cases listed
  | moment m => cases listed
  | _ =>
    cases written
    exact ⟨xs, listed, rfl⟩

theorem nodeOf_written (kept : NodeKept es) (members : List.Forall₂ MemberWritten es fs)
    (read : (nodeOf classId level es).result = .ok node) :
    (nodeOf classId level fs).result = .ok node := by
  simp only [nodeOf, Noted.bind_result_ok, Noted.ofExcept_result_ok] at read ⊢
  obtain ⟨grants, listed, items, walked, choices, chosen, same⟩ := read
  obtain ⟨grants', listed', texts⟩ :=
    asList_written (Json.field_written "grants" (by decide) members) kept.grants listed
  obtain ⟨items', walked', found⟩ :=
    looped_written classId (toString level) [] (Json.field_written "choices" (by decide) members) walked
  refine ⟨grants', listed', items', walked', choices, (found kept.choices).trans chosen, ?_⟩
  rw [texts]
  exact same

theorem levelKey?_of_word {k : Value} (word : Text.isDigits k.text = false) :
    Check.levelKey? k = .ok none := by
  rw [Check.levelKey?, word]
  rfl

-- truth values, infinite numbers and nothing are no level under either name
theorem levelKey?_written {k : Value} {name : String} (named : Json.memberName? k = some name) :
    Check.levelKey? (.str name) = Check.levelKey? k := by
  have neither (word : Text.isDigits name = false) (word' : Text.isDigits k.text = false) :
      Check.levelKey? (.str name) = Check.levelKey? k := by
    rw [levelKey?_of_word word', levelKey?_of_word (k := .str name) word]
  cases k with
  | null =>
    cases named
    exact neither (by decide) (by decide)
  | bool b =>
    cases named
    cases b <;> exact neither (by decide) (by decide)
  | float d =>
    cases named
    rcases d with _ | negative | ⟨negative, m, e⟩
    · exact neither (by decide) (by decide)
    · cases negative <;> exact neither (by decide) (by decide)
    · rfl
  | str s =>
    cases named
    rfl
  | int i =>
    cases named
    rfl
  | _ => cases named

theorem progressionOf_written (members : List.Forall₂ MemberWritten es fs)
    (kept : ∀ e ∈ es, LevelKept e.1 e.2) (read : (progressionOf classId nodes es).result = .ok progression) :
    (progressionOf classId nodes fs).result = .ok progression := by
  induction members generalizing nodes with
  | nil => exact read
  | @cons e f es fs member _ ih =>
    obtain ⟨k, v⟩ := e
    obtain ⟨l, w⟩ := f
    obtain ⟨⟨name, named, key⟩, value⟩ := member
    obtain rfl : l = .str name := key
    rw [List.forall_mem_cons] at kept
    simp only [progressionOf, Noted.bind_result_ok, Noted.ofExcept_result_ok] at read ⊢
    obtain ⟨level?, keyed, read⟩ := read
    refine ⟨level?, (levelKey?_written named).trans keyed, ?_⟩
    cases level? with
    | none => exact ih kept.2 read
    | some level =>
      cases v with
      | map fields =>
        obtain ⟨fields', inner, rfl⟩ := Json.written_map.1 value
        simp only [Noted.bind_result_ok] at read ⊢
        obtain ⟨node, made, read⟩ := read
        exact ⟨node, nodeOf_written (kept.1 level fields keyed rfl) inner made, ih kept.2 read⟩
      | _ =>
        have bare := Json.isMap_written value
        cases w with
        | map fields => cases bare
        | _ => exact ih kept.2 read

theorem mapEntries_written (written : Written v w) (kept : ProgressionKept v)
    (mapped : mapEntries v = .ok es) :
    ∃ fs, mapEntries w = .ok fs ∧ List.Forall₂ MemberWritten es fs ∧ ∀ e ∈ es, LevelKept e.1 e.2 := by
  cases v with
  | map es =>
    obtain ⟨fs, members, rfl⟩ := Json.written_map.1 written
    cases mapped
    exact ⟨fs, rfl, members, kept⟩
  | list zs =>
    obtain ⟨ys, items, rfl⟩ := Json.written_list.1 written
    cases items with
    | nil =>
      cases mapped
      exact ⟨[], rfl, .nil, nofun⟩
    | cons => cases mapped
  | tuple zs =>
    obtain ⟨ys, items, rfl⟩ := Json.written_tuple.1 written
    cases items with
    | nil =>
      cases mapped
      exact ⟨[], rfl, .nil, nofun⟩
    | cons => cases mapped
  | bytes bs => exact kept.elim
  | set zs => exact kept.elim
  | date d => cases mapped
  | moment m => cases mapped
  | _ =>
    cases written
    refine ⟨es, mapped, ?_⟩
    simp only [mapEntries] at mapped
    split at mapped
    · cases mapped
    · cases mapped
      exact ⟨.nil, nofun⟩

end Levels

end Ruleset

end Tabletop

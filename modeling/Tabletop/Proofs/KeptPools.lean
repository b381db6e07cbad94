import Tabletop.Proofs.KeptClasses

set_option autoImplicit false

namespace Tabletop

open Tabletop.Field (Entries)
open Tabletop.Json (Written MemberWritten Keeps KeepsText KeepsKey)

namespace Ruleset

open Value (Agree AgreeBy FieldsKept)

-- options

structure OptionKept (es : Entries) : Prop where
  texts : ∀ name ∈ ["id", "name"], KeepsText (Value.field name es)
  fields : FieldsKept ["level", "tags", "lists", "requires", "desc", "description"] es

/-- What an id or a name is read for. -/
def gist (v : Value) : Bool × Bool × String :=
  (v.isNull, v.isTruthy, v.text)

/-- What an id or a name becomes. -/
def textual (v : Value) : Value :=
  if v.isNull then .null else .str v.text

section Options

variable {pool : String} {names : List String} {es fs : Entries} {xs ys : List Value} {v w : Value}

theorem isNull_written (written : Written v w) : w.isNull = v.isNull := by
  cases v with
  | list xs =>
    obtain ⟨ys, -, rfl⟩ := Json.written_list.1 written
    rfl
  | tuple xs =>
    obtain ⟨ys, -, rfl⟩ := Json.written_tuple.1 written
    rfl
  | map es =>
    obtain ⟨fs, -, rfl⟩ := Json.written_map.1 written
    rfl
  | _ =>
    cases written
    rfl

theorem gist_written (kept : KeepsText v) (written : Written v w) : gist w = gist v := by
  obtain ⟨text, truthy⟩ := kept w written
  rw [gist, isNull_written written, truthy, text, gist]

theorem gist_field (name : String) (agree : AgreeBy gist names es fs) (member : name ∈ names) :
    gist (Value.field name fs) = gist (Value.field name es) := by
  have same := agree name member
  rw [Value.field, Value.field]
  generalize Value.field? name es = v?, Value.field? name fs = w? at same ⊢
  cases v? <;> cases w? <;> simp_all

theorem hasField_gist (name : String) (agree : AgreeBy gist names es fs) (member : name ∈ names) :
    Value.hasField name fs = Value.hasField name es := by
  have same := congrArg Option.isSome (agree name member)
  rwa [Option.isSome_map, Option.isSome_map] at same

structure OptionAgree (names : List String) (es fs : Entries) : Prop where
  plain : Agree names es fs
  gists : AgreeBy gist ["id", "name"] es fs

theorem withId_agree (agree : OptionAgree names es fs) : OptionAgree names (withId es) (withId fs) := by
  have gist := gist_field "name" agree.gists (by simp)
  simp only [Ruleset.gist, Prod.mk.injEq] at gist
  unfold withId
  simp only [hasField_gist "id" agree.gists (by simp), gist.2]
  split
  · exact ⟨agree.plain.setField, agree.gists.setField⟩
  · exact agree

theorem textual_of_gist (agree : AgreeBy gist names es fs) : AgreeBy textual names es fs := by
  intro name member
  have same := congrArg (Option.map fun g : Bool × Bool × String => if g.1 then Value.null else .str g.2.2)
    (agree name member)
  rw [Option.map_map, Option.map_map] at same
  exact same

theorem textual_of_ne_null (filled : v ≠ .null) : textual v = .str v.text := by
  cases v <;> first | rfl | exact absurd rfl filled

theorem field?_withTextId (name : String) (es : Entries) :
    Value.field? name (withTextId es) =
      if "id" = name then (Value.field? "id" es).map textual else Value.field? name es := by
  by_cases here : "id" = name
  · subst here
    unfold withTextId
    rw [if_pos rfl, Value.field]
    cases found : Value.field? "id" es with
    | none => exact found
    | some v =>
      simp only [Option.getD_some, Option.map_some]
      split
      · exact found
      · rename_i filled
        rw [Value.field?_setField, if_pos rfl, textual_of_ne_null filled]
  · unfold withTextId
    rw [if_neg here]
    split
    · rfl
    · rw [Value.field?_setField, if_neg here]

-- a name that is absent is the id
theorem field?_withName (name : String) (es : Entries) :
    Value.field? name (withName es) =
      if "name" = name then
        ((Value.field? "name" es).map textual).or ((Value.field? "id" es).map fun v => .str v.text)
      else Value.field? name es := by
  by_cases here : "name" = name
  · subst here
    unfold withName
    rw [if_pos rfl]
    cases found : Value.field? "name" es with
    | none =>
      rw [Value.hasField, Value.field]
      cases Value.field? "id" es with
      | none => exact found
      | some id => simp [Value.field?_setField]
    | some v =>
      simp only [Option.map_some, Option.some_or]
      split
      · contradiction
      · rename_i null
        cases null
        exact found
      · rename_i w filled same
        cases same
        rw [Value.field?_setField, if_pos rfl, textual_of_ne_null filled]
  · unfold withName
    rw [if_neg here]
    split
    · split
      · rw [Value.field?_setField, if_neg here]
      · rfl
    · rfl
    · rw [Value.field?_setField, if_neg here]

theorem named_agree (plain : Agree names es fs) (texts : AgreeBy textual ["id", "name"] es fs) :
    Agree ("id" :: "name" :: names) (withName (withTextId es)) (withName (withTextId fs)) := by
  have id : Value.field? "id" (withTextId fs) = Value.field? "id" (withTextId es) := by
    rw [field?_withTextId, if_pos rfl, field?_withTextId, if_pos rfl]
    exact texts "id" (by simp)
  have bare (name : String) (apart : ¬ "id" = name) (es : Entries) :
      Value.field? name (withTextId es) = Value.field? name es := by
    rw [field?_withTextId, if_neg apart]
  intro name member
  rw [field?_withName, field?_withName, id, bare "name" (by decide), bare "name" (by decide),
    texts "name" (by simp)]
  by_cases here : "name" = name
  · rw [if_pos here, if_pos here]
  · rw [if_neg here, if_neg here]
    by_cases first : "id" = name
    · rw [← first, id]
    · rw [bare name first, bare name first]
      simp only [List.mem_cons, Ne.symm first, Ne.symm here, false_or] at member
      exact plain name member

theorem withTagList_agree (agree : Agree names es fs) (member : "tags" ∈ names) :
    Agree names (withTagList es) (withTagList fs) := by
  rw [withTagList, withTagList, agree.field member]
  split
  · exact agree.setField
  · exact agree

theorem field?_withId_of_ne {name : String} (apart : "id" ≠ name) :
    Value.field? name (withId es) = Value.field? name es := by
  unfold withId
  simp only
  split
  · rw [Value.field?_setField, if_neg apart]
  · rfl

theorem optionEntries_of_agree (plain : Agree ["level", "tags", "lists", "requires", "desc", "description"] es fs)
    (texts : AgreeBy textual ["id", "name"] (withId es) (withId fs)) :
    Agree ["id", "name", "level", "tags", "lists", "requires", "desc", "description"]
      (optionEntries es) (optionEntries fs) := by
  refine withTagList_agree (named_agree (fun name member => ?_) texts) (by simp)
  have apart : "id" ≠ name := by
    rintro rfl
    simp at member
  rw [field?_withId_of_ne apart, field?_withId_of_ne apart]
  exact plain name member

theorem optionEntries_agree (kept : OptionKept es) (members : List.Forall₂ MemberWritten es fs) :
    Agree ["id", "name", "level", "tags", "lists", "requires", "desc", "description"]
      (optionEntries es) (optionEntries fs) := by
  have start : OptionAgree ["level", "tags", "lists", "requires", "desc", "description"] es fs :=
    ⟨kept.fields.agree (by decide) members,
      Value.agreeBy_of_written (by decide) (fun name member _ => gist_written (kept.texts name member)) members⟩
  exact optionEntries_of_agree start.plain (textual_of_gist (withId_agree start).gists)

theorem optionsOf_written (items : List.Forall₂ Written xs ys) (kept : ItemsKept OptionKept xs) :
    (optionsOf pool ys).result = (optionsOf pool xs).result := by
  induction items with
  | nil => rfl
  | @cons x y xs ys item _ ih =>
    rw [ItemsKept, List.forall_mem_cons] at kept
    cases x with
    | map es =>
      obtain ⟨fs, members, rfl⟩ := Json.written_map.1 item
      rw [optionsOf, optionsOf, PoolOption.ofEntries_of_agree (optionEntries_agree (kept.1 es rfl) members),
        Noted.result_bind, Noted.result_bind]
      congr 1
      funext option?
      rw [Noted.result_bind, Noted.result_bind, ih kept.2]
    | _ =>
      have bare := Json.isMap_written item
      cases y with
      | map fs => cases bare
      | _ => exact ih kept.2

end Options

-- pools

/-- A pool that reads the same when JSON has held it: JSON has no tuples, and has lists in their place. -/
def PoolKept : Value → Prop
  | .list xs => ItemsKept OptionKept xs
  | .tuple _ => False
  | _ => True

section Pools

variable {es fs : Entries} {pools : List (Value × List PoolOption)}

theorem key_of_string {k : Value} {name text : String} (named : Json.memberName? k = some name)
    (read : Field.string k = .ok text) : k = .str name := by
  cases k with
  | str s =>
    cases named
    rfl
  | bytes bs => cases named
  | _ => cases read

theorem string_of_keyed {α : Type} {es : List (Value × α)} {named : List (String × α)}
    (read : keyed es = .ok named) : ∀ e ∈ es, ∃ text, Field.string e.1 = .ok text := by
  induction es generalizing named with
  | nil => simp
  | cons e es ih =>
    obtain ⟨k, a⟩ := e
    simp only [keyed, Checked.seq_eq_ok, Checked.map_eq_ok] at read
    obtain ⟨_, rest, ⟨pair, first, -⟩, others, -⟩ := read
    obtain ⟨text, string, -⟩ := Checked.map_eq_ok.1 first
    exact List.forall_mem_cons.2
      ⟨⟨text, Checked.within_eq_ok.1 (Checked.within_eq_ok.1 string)⟩, ih others⟩

theorem string_of_standard {k : Value} (standard : isStandardKey k = true) :
    ∃ text, Field.string k = .ok text := by
  simp only [isStandardKey, List.any_eq_true] at standard
  obtain ⟨name, -, here⟩ := standard
  cases k with
  | str s => exact ⟨s, rfl⟩
  | _ => cases here

theorem result_ofChecked_ok {α : Type} {x : Checked α} {a : α} :
    (Noted.ofChecked x).result = .ok a ↔ x = .ok a := by
  cases x <;> simp [Noted.ofChecked, Failure.ofChecked, Noted.result, Noted.done, Noted.fail, Except.map]

-- the pools under the standard names go in after those that are nested
theorem declaredPools_related {kin : Value → Value → Prop} {alike : Value × Value → Value × Value → Prop}
    (nested : List.Forall₂ alike (Value.field "pools" es).entriesOrEmpty (Value.field "pools" fs).entriesOrEmpty)
    (named : ∀ key ∈ Pools.standardKeys, Option.Rel kin (Value.field? key es) (Value.field? key fs))
    (sets : ∀ key ∈ Pools.standardKeys, ∀ (ds gs : Entries) (v w : Value), List.Forall₂ alike ds gs → kin v w →
      List.Forall₂ alike (Value.setField key v ds) (Value.setField key w gs)) :
    List.Forall₂ alike (declaredPools es) (declaredPools fs) := by
  unfold declaredPools
  generalize (Value.field "pools" es).entriesOrEmpty = declared,
    (Value.field "pools" fs).entriesOrEmpty = declared', Pools.standardKeys = keys at nested named sets
  induction keys generalizing declared declared' with
  | nil => exact nested
  | cons key keys ih =>
    rw [List.forall_mem_cons] at named sets
    obtain ⟨found, others⟩ := named
    refine ih _ _ ?_ others sets.2
    simp only
    generalize Value.field? key es = v?, Value.field? key fs = w? at found ⊢
    cases found with
    | none => exact nested
    | some value => exact sets.1 _ _ _ _ nested value

theorem declaredPools_written (members : List.Forall₂ MemberWritten es fs) :
    List.Forall₂ MemberWritten (declaredPools es) (declaredPools fs) := by
  have nested := Json.entries_written (Json.field_written "pools" (by decide) members)
  have words : ∀ key ∈ Pools.standardKeys, Json.isWord key = true := by decide
  exact declaredPools_related nested (fun key member => Json.field?_written (words key member) members)
    fun key member _ _ _ _ => Json.setField_written (words key member)

theorem poolLists_written (members : List.Forall₂ MemberWritten es fs) (kept : ∀ e ∈ es, PoolKept e.2)
    (keys : ∀ p ∈ pools, ∃ text, Field.string p.1 = .ok text) (read : (poolLists es).result = .ok pools) :
    (poolLists fs).result = .ok pools := by
  induction members generalizing pools with
  | nil => exact read
  | @cons e f es fs member _ ih =>
    obtain ⟨k, v⟩ := e
    obtain ⟨l, w⟩ := f
    obtain ⟨⟨name, named, key⟩, value⟩ := member
    obtain rfl : l = .str name := key
    rw [List.forall_mem_cons] at kept
    cases v with
    | list xs =>
      obtain ⟨ys, items, rfl⟩ := Json.written_list.1 value
      simp only [poolLists, Noted.bind_result_ok] at read ⊢
      obtain ⟨options, first, rest, others, same⟩ := read
      cases same
      rw [List.forall_mem_cons] at keys
      obtain ⟨text, string⟩ := keys.1
      obtain rfl := key_of_string named string
      exact ⟨options, (optionsOf_written items kept.1).trans first, rest, ih kept.2 keys.2 others, rfl⟩
    | tuple xs => exact kept.1.elim
    | map es =>
      obtain ⟨fs, -, rfl⟩ := Json.written_map.1 value
      simp only [poolLists, Noted.bind_result_ok] at read ⊢
      obtain ⟨_, -, read⟩ := read
      exact ⟨(), rfl, ih kept.2 keys read⟩
    | _ =>
      cases value
      simp only [poolLists, Noted.bind_result_ok] at read ⊢
      obtain ⟨_, -, read⟩ := read
      exact ⟨(), rfl, ih kept.2 keys read⟩

theorem poolsOf_written {found : Pools} (members : List.Forall₂ MemberWritten es fs)
    (kept : ∀ e ∈ declaredPools es, PoolKept e.2) (read : (poolsOf es).result = .ok found) :
    (poolsOf fs).result = .ok found := by
  simp only [poolsOf, Noted.bind_result_ok] at read ⊢
  obtain ⟨pools, listed, extra, named, same⟩ := read
  refine ⟨pools, poolLists_written (declaredPools_written members) kept ?_ listed, extra, named, same⟩
  have others : Checked.within (.name "extra") (keyed (pools.filter fun p => !isStandardKey p.1)) = .ok extra :=
    result_ofChecked_ok.1 named
  intro p member
  cases standard : isStandardKey p.1 with
  | false =>
    exact string_of_keyed (Checked.within_eq_ok.1 others) p (by simp [member, standard])
  | true => exact string_of_standard standard

end Pools

-- display data

/-- Display data that reads the same when JSON has held it: nothing but a text or an object counts, and
neither dates nor bytes become one. -/
def InfoKept (key : Value) : Value → Prop
  | .str _ => KeepsKey key
  | .map es => KeepsKey key ∧ FieldsKept ["name", "desc", "description"] es
  | .bytes _ => False
  | .date _ => False
  | .moment _ => False
  | .set _ => False
  | _ => True

section Features

variable {featureId : String} {es fs : Entries} {v w : Value}

theorem featureEntries_agree (featureId : String) (kept : FieldsKept ["name", "desc", "description"] es)
    (members : List.Forall₂ MemberWritten es fs) :
    (∃ found found', featureEntries featureId (.map es) = some found ∧
      featureEntries featureId (.map fs) = some found' ∧
      Agree ["name", "desc", "description"] found found') := by
  have agree := kept.agree (by decide) members
  have named : Value.hasField "name" fs = Value.hasField "name" es := by
    rw [Value.hasField, agree "name" (by simp), Value.hasField]
  refine ⟨_, _, rfl, rfl, ?_⟩
  rw [named]
  split
  · exact agree
  · intro name member
    rw [Value.field?, Value.field?]
    split
    · rfl
    · exact agree name member

theorem featureOf_written (kept : FieldsKept ["name", "desc", "description"] es)
    (members : List.Forall₂ MemberWritten es fs) :
    featureOf featureId (.map fs) = featureOf featureId (.map es) := by
  obtain ⟨found, found', first, second, agree⟩ := featureEntries_agree featureId kept members
  rw [featureOf, second, featureOf, first]
  exact congrArg (partOf _) (FeatureInfo.ofEntries_of_agree agree)

theorem featuresOf_skips {features : Dict String FeatureInfo} {k : Value}
    (none : (featureOf k.text v).result = .ok none) :
    (featuresOf features ((k, v) :: es)).result = (featuresOf features es).result := by
  rw [featuresOf, Noted.result_bind, none]
  rfl

theorem featuresOf_same {features : Dict String FeatureInfo} {k l : Value} (key : l.text = k.text)
    (info : featureOf k.text w = featureOf k.text v)
    (rest : ∀ features, (featuresOf features fs).result = (featuresOf features es).result) :
    (featuresOf features ((l, w) :: fs)).result = (featuresOf features ((k, v) :: es)).result := by
  rw [featuresOf, featuresOf, key, info, Noted.result_bind, Noted.result_bind]
  congr 1
  funext info?
  cases info? with
  | none => exact rest features
  | some info => exact rest _

theorem featuresOf_written {features : Dict String FeatureInfo} (members : List.Forall₂ MemberWritten es fs)
    (kept : ∀ e ∈ es, InfoKept e.1 e.2) :
    (featuresOf features fs).result = (featuresOf features es).result := by
  induction members generalizing features with
  | nil => rfl
  | @cons e f es fs member _ ih =>
    obtain ⟨k, v⟩ := e
    obtain ⟨l, w⟩ := f
    rw [List.forall_mem_cons] at kept
    obtain ⟨one, others⟩ := kept
    have value : Written v w := member.value
    have rest (features : Dict String FeatureInfo) :
        (featuresOf features fs).result = (featuresOf features es).result := ih others
    cases v with
    | str s =>
      cases value
      obtain rfl : l = .str k.text := KeepsKey.eq one member
      exact featuresOf_same rfl rfl rest
    | map fields =>
      obtain ⟨fields', inner, rfl⟩ := Json.written_map.1 value
      obtain rfl : l = .str k.text := KeepsKey.eq one.1 member
      exact featuresOf_same rfl (featureOf_written one.2 inner) rest
    | list xs =>
      obtain ⟨ys, -, rfl⟩ := Json.written_list.1 value
      rw [featuresOf_skips rfl, featuresOf_skips rfl, rest]
    | tuple xs =>
      obtain ⟨ys, -, rfl⟩ := Json.written_tuple.1 value
      rw [featuresOf_skips rfl, featuresOf_skips rfl, rest]
    | bytes bs => exact one.elim
    | date d => exact one.elim
    | moment m => exact one.elim
    | set xs => exact one.elim
    | _ =>
      cases value
      rw [featuresOf_skips rfl, featuresOf_skips rfl, rest]

end Features

end Ruleset

end Tabletop

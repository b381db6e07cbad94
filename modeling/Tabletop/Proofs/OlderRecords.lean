import Tabletop.Proofs.OlderNames
import Tabletop.Proofs.Rereading
import Tabletop.Proofs.Shelf

set_option autoImplicit false

namespace Tabletop

open Tabletop.Field (Entries Reader)

namespace Character

-- the older ways of writing

/-- An ability under the key it has or, in any case, under its full name. -/
def OlderKey (k k' : Value) : Prop :=
  k' = k ∨ ∃ full, k' = .str full ∧ (Text.lower full, Ability.normalizeKey k.text) ∈ Ability.fullNames

def OlderScore (v v' : Value) : Prop :=
  v' = v ∨ v.isMap = false ∧ v' = .map [(.str "score", v)]

/-- The ways of writing the value of a field, if these temporary hit points have a field of their own. -/
inductive OlderValue (temp : Option Int) : String → Value → Value → Prop
  | same {name : String} {v : Value} (still : name = "hp" → temp = none) : OlderValue temp name v v
  | hp {t : Int} {hs : Entries} (moved : temp = some t) (held : Value.field? "temp" hs = some (.int t)) :
    OlderValue temp "hp" (.map hs) (.map (Value.dropField "temp" hs))
  | abilities {es fs : Entries} (scores : List.Forall₂ (fun e f => OlderKey e.1 f.1 ∧ OlderScore e.2 f.2) es fs) :
    OlderValue temp "abilities" (.map es) (.map fs)
  | saves {xs : List Value} {fs : Entries} (named : ∀ key : String,
      (∃ f ∈ fs, f.2.isTruthy = true ∧ f.1.text = key) ↔ ∃ x ∈ xs, x.text = key) :
    OlderValue temp "save_proficiency" (.list xs) (.map fs)
  | portrait {s : String} (filled : s ≠ "") :
    OlderValue temp "portrait_ref" (.str s) (.map [(.str "blobId", .str s)])

def OlderEntry (temp : Option Int) (e f : Value × Value) : Prop :=
  ∃ name other, e.1 = .str name ∧ f.1 = .str other ∧ (other = name ∨ (other, name) ∈ legacyNames) ∧
    OlderValue temp name e.2 f.2

def tempEntry (temp : Option Int) : Entries :=
  (temp.map fun t => (.str "tempHp", .int t)).toList

def Older (es fs : Entries) : Prop :=
  ∃ (temp : Option Int) (rewritten : Entries), (temp.isSome = true → Value.hasField "hp" es = true) ∧
    List.Forall₂ (OlderEntry temp) es rewritten ∧ fs.Perm (rewritten ++ tempEntry temp)

/-- A record in the current form: no nulls, and nothing under an older name. -/
structure Current (es : Entries) : Prop where
  members : Value.Members es
  filled : ∀ e ∈ es, e.2.isNull = false
  named : ∀ n ∈ legacyNames, Value.field? n.1 es = none
  still : Value.field? "tempHp" es = none

/-- Everything that would be given an id or a time has one. -/
structure Marked (es : Entries) : Prop where
  id : Value.hasField "id" es = true
  created : Value.hasField "created_at" es = true
  updated : Value.hasField "updated_at" es = true
  slots : ∀ name ∈ ["inventory", "features"], ∀ v ∈ Value.field? name es, ∀ xs ∈ Field.elements? v,
    ∀ fs, .map fs ∈ xs → Value.hasField "id" fs = true

-- records that read alike

def plainNames : List String :=
  ["id", "name", "ruleset_id", "class_id", "subclass_id", "level", "ac", "speed", "skill_proficiency_rank",
    "inventory", "spells", "infusions", "features", "advancement", "notes", "created_at", "updated_at"]

structure Alike (es fs : Entries) : Prop where
  fields : Value.Agree plainNames es fs
  abilities : Value.AgreeBy readAbilities ["abilities"] es fs
  saves : Value.AgreeBy readSaves ["save_proficiency"] es fs
  portrait : Value.AgreeBy portraitOf ["portrait_ref"] es fs
  hp : HitPoints.ofEntries (hpEntries fs) = HitPoints.ofEntries (hpEntries es)

section Reading

variable {α β : Type} {name : String} {es fs : Entries}

theorem withDefault_given {read : Reader α} (given : Value.hasField name es = true) (a b : α) :
    Field.withDefault name a read es = Field.withDefault name b read es := by
  obtain ⟨v, found⟩ := Option.isSome_iff_exists.1 given
  rw [Field.withDefault, Field.withDefault, found]

theorem withDefault_agreeBy {g : Value → β} (agree : Value.AgreeBy g [name] es fs) (default : α)
    (read : β → Checked α) :
    Field.withDefault name default (fun v => read (g v)) fs =
      Field.withDefault name default (fun v => read (g v)) es := by
  have same := agree name (.head _)
  rw [Field.withDefault, Field.withDefault]
  cases first : Value.field? name es <;> cases second : Value.field? name fs <;> simp_all

theorem readSlots_marked {read : String → Reader α} {v : Value}
    (marked : ∀ xs ∈ Field.elements? v, ∀ x ∈ xs, ∀ a b, read a x = read b x) (s s' : Supply) (slot : Nat) :
    readSlots read s slot v = readSlots read s' slot v := by
  have each (xs : List Value) (marked : ∀ x ∈ xs, ∀ a b, read a x = read b x) (slot i : Nat) :
      readEach read s slot i xs = readEach read s' slot i xs := by
    induction xs generalizing slot i with
    | nil => rfl
    | cons x xs ih =>
      rw [List.forall_mem_cons] at marked
      rw [readEach, readEach, marked.1 (s.freshId slot) (s'.freshId slot), ih marked.2]
  unfold readSlots
  cases elements : Field.elements? v with
  | none => rfl
  | some xs => exact each xs (marked xs elements) slot 0

theorem field?_migrate (es : Entries) : Value.field? "id" (Item.migrate es) = Value.field? "id" es := by
  unfold Item.migrate
  split
  · split
    · rfl
    · rw [Value.field?_setField, if_neg (by decide), Value.field?_dropField_of_ne (by decide)]
  · rfl

theorem Item.read_marked {v : Value} (marked : ∀ fs, v = .map fs → Value.hasField "id" fs = true) (a b : String) :
    Item.read a v = Item.read b v := by
  cases v with
  | map fs =>
    have given : Value.hasField "id" (Item.migrate fs) = true := by
      rw [Value.hasField, field?_migrate]
      exact marked fs rfl
    simp only [Item.read, Field.record, withDefault_given given a b]
  | _ => rfl

theorem Feature.read_marked {v : Value} (marked : ∀ fs, v = .map fs → Value.hasField "id" fs = true) (a b : String) :
    Feature.read a v = Feature.read b v := by
  cases v with
  | map fs => simp only [Feature.read, Field.record, withDefault_given (marked fs rfl) a b]
  | _ => rfl

theorem withDefault_slots {read : String → Reader α} (marked : ∀ v ∈ Value.field? name es, ∀ xs ∈ Field.elements? v,
      ∀ fs, .map fs ∈ xs → Value.hasField "id" fs = true)
    (each : ∀ v, (∀ fs, v = .map fs → Value.hasField "id" fs = true) → ∀ a b, read a v = read b v)
    (s s' : Supply) (slot : Nat) (default : List α) :
    Field.withDefault name default (readSlots read s slot) es =
      Field.withDefault name default (readSlots read s' slot) es := by
  rw [Field.withDefault, Field.withDefault]
  cases found : Value.field? name es with
  | none => rfl
  | some v =>
    refine congrArg (Checked.within _) (readSlots_marked (fun xs elements x member => ?_) s s' slot)
    refine each x fun fs same => marked v found xs elements fs (same ▸ member)

theorem Alike.settles (alike : Alike es fs) : settle fs = settle es := by
  have fields := alike.fields
  simp only [plainNames, Value.Agree, List.forall_mem_cons] at fields
  obtain ⟨-, -, -, -, -, level, ac, speed, -, -, -, -, -, advancement, -⟩ := fields
  simp only [settle, coercedField, Value.field, level, ac, speed, advancement]

theorem Alike.reads (alike : Alike es fs) (marked : Marked es) (s s' : Supply) (settled : Settled) :
    readFields s' fs settled = readFields s es settled := by
  have fields := alike.fields
  simp only [plainNames, Value.Agree, List.forall_mem_cons] at fields
  obtain ⟨id, name, ruleset, «class», subclass, -, -, -, ranks, inventory, spells, infusions, features, -, notes,
    created, updated, -⟩ := fields
  have items : elementCount "inventory" fs = elementCount "inventory" es := by
    rw [elementCount, inventory, elementCount]
  have named : Field.withDefault "name" defaultName Field.string
        (if (Value.field "name" fs).isTruthy then fs else Value.dropField "name" fs) =
      Field.withDefault "name" defaultName Field.string
        (if (Value.field "name" es).isTruthy then es else Value.dropField "name" es) := by
    rw [Value.field, Value.field, name]
    split
    · exact Field.withDefault_of_same name
    · exact Field.withDefault_of_same ((field?_dropField ..).trans (field?_dropField ..).symm)
  simp only [readFields, named, items, alike.hp, prepared, Field.withDefault_of_same id,
    Field.withDefault_of_same ruleset, Field.withDefault_of_same «class», Field.withDefault_of_same subclass,
    Field.withDefault_of_same ranks, Field.withDefault_of_same inventory, Field.withDefault_of_same spells,
    Field.withDefault_of_same infusions, Field.withDefault_of_same features, Field.withDefault_of_same notes,
    Field.withDefault_of_same created, Field.withDefault_of_same updated,
    withDefault_agreeBy alike.abilities defaultScores Checked.ofExcept,
    withDefault_agreeBy alike.saves IdSet.empty Checked.ofExcept,
    withDefault_agreeBy alike.portrait none (Field.optional Field.string),
    withDefault_given marked.id (s'.freshId 0) (s.freshId 0),
    withDefault_given marked.created s'.now s.now, withDefault_given marked.updated s'.now.next s.now.next,
    withDefault_slots (marked.slots "inventory" (by decide)) (fun _ => Item.read_marked) s' s,
    withDefault_slots (marked.slots "features" (by decide)) (fun _ => Feature.read_marked) s' s]

end Reading

section Older

variable {temp : Option Int} {name : String} {v w : Value} {es fs : Entries}

-- what each older way of writing means

theorem OlderKey.normalize {k k' : Value} (older : OlderKey k k') :
    Ability.normalizeKey k'.text = Ability.normalizeKey k.text := by
  obtain rfl | ⟨full, rfl, listed⟩ := older
  · rfl
  · have found : ∀ n ∈ Ability.fullNames, Ability.fullNames.lookup n.1 = some n.2 := by decide
    rw [Value.text, Ability.normalizeKey, found _ listed]
    rfl

theorem OlderScore.score (older : OlderScore v w) : scoreOf w = scoreOf v := by
  obtain rfl | ⟨flat, rfl⟩ := older
  · rfl
  · cases v <;> first | rfl | contradiction

theorem readScores_older (scores : List.Forall₂ (fun e f => OlderKey e.1 f.1 ∧ OlderScore e.2 f.2) es fs)
    (d : Dict String Int) : readScores d fs = readScores d es := by
  induction scores generalizing d with
  | nil => rfl
  | cons first rest ih => simp only [readScores, first.1.normalize, first.2.score, ih]

theorem readSaves_list (xs : List Value) :
    readSaves (.list xs) = .ok (.ofList (xs.map fun x => Ability.normalizeKey x.text)) := by
  cases xs <;> rfl

theorem OlderValue.filled (older : OlderValue temp name v w) (filled : v.isNull = false) : w.isNull = false := by
  cases older with
  | same => exact filled
  | _ => rfl

theorem OlderValue.plain (older : OlderValue temp name v w)
    (plain : name ∉ ["abilities", "save_proficiency", "portrait_ref", "hp"]) : w = v := by
  cases older with
  | same => rfl
  | _ => simp at plain

theorem OlderValue.hp_moved (older : OlderValue temp name v w) (here : name = "hp") :
    (temp = none ∧ w = v) ∨ ∃ t hs, temp = some t ∧ v = .map hs ∧ Value.field? "temp" hs = some (.int t) ∧
      w = .map (Value.dropField "temp" hs) := by
  cases older with
  | same still => exact .inl ⟨still here, rfl⟩
  | @hp t hs moved held => exact .inr ⟨t, hs, moved, rfl, held, rfl⟩
  | _ => exact absurd here (by decide)

theorem OlderValue.abilities_read (older : OlderValue temp name v w) (here : name = "abilities") :
    readAbilities w = readAbilities v := by
  cases older with
  | same => rfl
  | abilities scores => exact readScores_older scores defaultScores
  | _ => exact absurd here (by decide)

theorem OlderValue.saves_read (older : OlderValue temp name v w) (here : name = "save_proficiency") :
    readSaves w = readSaves v := by
  cases older with
  | same => rfl
  | @saves xs fs named =>
    rw [readSaves_list]
    refine congrArg Except.ok (IdSet.eq_of_mem fun key => ?_)
    simp only [IdSet.mem_ofList, List.mem_map, List.mem_filter]
    constructor
    · rintro ⟨f, ⟨member, given⟩, rfl⟩
      obtain ⟨x, listed, same⟩ := (named f.1.text).1 ⟨f, member, given, rfl⟩
      exact ⟨x, listed, congrArg Ability.normalizeKey same⟩
    · rintro ⟨x, listed, rfl⟩
      obtain ⟨f, member, given, same⟩ := (named x.text).2 ⟨x, listed, rfl⟩
      exact ⟨f, ⟨member, given⟩, congrArg Ability.normalizeKey same⟩
  | _ => exact absurd here (by decide)

theorem OlderValue.portrait_read (older : OlderValue temp name v w) (here : name = "portrait_ref") :
    portraitOf w = portraitOf v := by
  cases older with
  | same => rfl
  | @portrait s filled =>
    have given : (Value.str s).isTruthy = true := by
      rw [Value.isTruthy, Bool.not_eq_true', ← Bool.not_eq_true, String.isEmpty_iff]
      exact filled
    exact if_pos given
  | _ => exact absurd here (by decide)

-- temporary hit points

theorem nonNull_append (es fs : Entries) : nonNull (es ++ fs) = nonNull es ++ nonNull fs :=
  List.filter_append es fs

theorem nonNull_dropField (name : String) (es : Entries) :
    nonNull (Value.dropField name es) = Value.dropField name (nonNull es) :=
  List.filter_comm ..

theorem HitPoints.ofEntries_temp {hs : Entries} {t : Int} (held : Value.field? "temp" hs = some (.int t)) :
    HitPoints.ofEntries (Value.dropField "temp" hs ++ [(.str "temp", .int t)]) = HitPoints.ofEntries hs := by
  have agree : ∀ name, Value.field? name (nonNull (Value.dropField "temp" hs ++ [(.str "temp", .int t)])) =
      Value.field? name (nonNull hs) := by
    intro name
    rw [nonNull_append, nonNull_dropField, Value.field?_append]
    by_cases own : "temp" = name
    · subst own
      rw [field?_dropField, field?_nonNull held rfl]
      rfl
    · have apart : Value.field? name (nonNull [(.str "temp", .int t)]) = none := by
        simp [nonNull, Value.field?, Value.isKey, Value.isNull, own]
      rw [Value.field?_dropField_of_ne own, apart, Option.or_none]
  simp only [HitPoints.ofEntries, coercedField, agree]

-- where an older record keeps a field

theorem exists_left {α β : Type} {R : α → β → Prop} {as : List α} {bs : List β} (pairs : List.Forall₂ R as bs)
    {b : β} (member : b ∈ bs) : ∃ a ∈ as, R a b := by
  induction pairs with
  | nil => contradiction
  | @cons a b' as bs first rest ih =>
    rcases List.mem_cons.1 member with rfl | later
    · exact ⟨a, .head _, first⟩
    · obtain ⟨a, member, related⟩ := ih later
      exact ⟨a, .tail _ member, related⟩

theorem legacyNames_functional : ∀ n ∈ legacyNames, ∀ m ∈ legacyNames, n.1 = m.1 → n.2 = m.2 := by
  decide

def IsCurrentName (name : String) : Prop :=
  name ≠ "tempHp" ∧ ∀ n ∈ legacyNames, name ≠ n.1

instance (name : String) : Decidable (IsCurrentName name) :=
  inferInstanceAs (Decidable (_ ∧ _))

theorem not_legacy (current : Current es) {old new : String} (legacy : (old, new) ∈ legacyNames) {u : Value} :
    (.str old, u) ∉ es := fun member => by
  have found := current.members.field?_iff.2 member
  rw [current.named _ legacy] at found
  cases found

-- an entry under any of the names of a field comes from that field
theorem written_of_named (current : Current es) {rewritten : Entries} (own : IsCurrentName name)
    (pairs : List.Forall₂ (OlderEntry temp) es rewritten) (perm : fs.Perm (rewritten ++ tempEntry temp))
    {other : String} (named : other ∈ name :: olderNames legacyNames name) (member : (.str other, w) ∈ fs) :
    ∃ v, (.str name, v) ∈ es ∧ OlderValue temp name v w := by
  have known : (.str other, w) ∈ rewritten := by
    refine (List.mem_append.1 (perm.mem_iff.1 member)).resolve_right fun moved => ?_
    have other : other = "tempHp" := by
      cases temp <;> simp_all [tempEntry]
    rcases List.mem_cons.1 named with rfl | older
    · exact own.1 other
    · have apart : ∀ n ∈ legacyNames, n.1 ≠ "tempHp" := by decide
      exact apart _ (mem_olderNames.1 older) other
  obtain ⟨⟨k, v⟩, given, first, second, rfl, same, step, value⟩ := exists_left pairs known
  cases same
  have origin : first = name := by
    rw [List.mem_cons, mem_olderNames] at named
    rcases named with rfl | older <;> rcases step with rfl | step
    · rfl
    · exact absurd rfl (own.2 _ step)
    · exact absurd given (not_legacy current older)
    · exact legacyNames_functional _ step _ older rfl
  subst origin
  exact ⟨v, given, value⟩

theorem filled_of_pairs (current : Current es) {rewritten : Entries}
    (pairs : List.Forall₂ (OlderEntry temp) es rewritten) (perm : fs.Perm (rewritten ++ tempEntry temp)) :
    nonNull fs = fs := by
  refine List.filter_eq_self.2 fun f member => ?_
  rcases List.mem_append.1 (perm.mem_iff.1 member) with known | moved
  · obtain ⟨e, given, name, other, -, -, -, value⟩ := exists_left pairs known
    rw [value.filled (current.filled e given)]
    rfl
  · cases temp <;> simp_all [tempEntry, Value.isNull]

theorem field?_older (current : Current es) {rewritten : Entries} (own : IsCurrentName name)
    (pairs : List.Forall₂ (OlderEntry temp) es rewritten) (perm : fs.Perm (rewritten ++ tempEntry temp)) :
    Option.Rel (OlderValue temp name) (Value.field? name es) (Value.field? name (currentNames (nonNull fs))) := by
  rw [filled_of_pairs current pairs perm, currentNames,
    field?_foldl_renameField (by decide) (by decide) own.2]
  cases read : (name :: olderNames legacyNames name).findSome? (Value.field? · fs) with
  | some w =>
    obtain ⟨other, named, found⟩ := List.exists_of_findSome?_eq_some read
    obtain ⟨v, given, value⟩ := written_of_named current own pairs perm named (mem_of_field? found)
    rw [current.members.field?_iff.2 given]
    exact .some value
  | none =>
    cases found : Value.field? name es with
    | none => exact .none
    | some v =>
      obtain ⟨⟨k, w⟩, listed, first, other, same, rfl, step, -⟩ := exists_left pairs.flip (mem_of_field? found)
      cases same
      have member : (.str other, w) ∈ fs := perm.mem_iff.2 (List.mem_append_left _ listed)
      have named : other ∈ name :: olderNames legacyNames name := by
        rw [List.mem_cons, mem_olderNames]
        exact step
      have absent := List.findSome?_eq_none_iff.1 read other named
      rw [Value.field?_eq_find?, Dict.find?_eq_none_iff] at absent
      exact absurd (List.mem_map_of_mem member) absent

theorem tempHp_of_mem (current : Current es) {rewritten : Entries}
    (pairs : List.Forall₂ (OlderEntry temp) es rewritten) : (.str "tempHp", w) ∉ rewritten := fun listed => by
  obtain ⟨⟨k, v⟩, given, first, other, rfl, same, step, -⟩ := exists_left pairs listed
  cases same
  rcases step with rfl | legacy
  · have found := current.members.field?_iff.2 given
    rw [current.still] at found
    cases found
  · have apart : ∀ n ∈ legacyNames, n.1 ≠ "tempHp" := by decide
    exact apart _ legacy rfl

theorem field?_tempHp (current : Current es) {rewritten : Entries}
    (pairs : List.Forall₂ (OlderEntry temp) es rewritten) (perm : fs.Perm (rewritten ++ tempEntry temp)) :
    Value.field? "tempHp" (currentNames (nonNull fs)) = temp.map .int := by
  have only : olderNames legacyNames "tempHp" = [] := by decide
  have read : Value.field? "tempHp" (currentNames (nonNull fs)) = Value.field? "tempHp" fs := by
    rw [filled_of_pairs current pairs perm, currentNames,
      field?_foldl_renameField (by decide) (by decide) (by decide), only, List.findSome?_singleton]
  have held (u : Value) : (.str "tempHp", u) ∈ fs ↔ temp.map .int = some u := by
    rw [perm.mem_iff, List.mem_append, or_iff_right (tempHp_of_mem current pairs)]
    cases temp <;> simp [tempEntry, eq_comm]
  rw [read]
  cases found : Value.field? "tempHp" fs with
  | some u => exact ((held u).1 (mem_of_field? found)).symm
  | none =>
    cases moved : temp.map Value.int with
    | none => rfl
    | some u =>
      rw [Value.field?_eq_find?, Dict.find?_eq_none_iff] at found
      exact absurd (List.mem_map_of_mem ((held u).2 moved)) found

theorem hp_older (current : Current es) {rewritten : Entries}
    (given : temp.isSome = true → Value.hasField "hp" es = true)
    (pairs : List.Forall₂ (OlderEntry temp) es rewritten) (perm : fs.Perm (rewritten ++ tempEntry temp)) :
    HitPoints.ofEntries (hpEntries (currentNames (nonNull fs))) = HitPoints.ofEntries (hpEntries es) := by
  have own : IsCurrentName "hp" := by decide
  have found := field?_older current own pairs perm
  have moved := field?_tempHp current pairs perm
  generalize currentNames (nonNull fs) = read at found moved
  have plain : hpEntries es = ((Value.field? "hp" es).bind Value.entries?).getD [] := by
    rw [hpEntries, current.still]
  rw [plain, hpEntries, moved]
  rw [Value.hasField] at given
  generalize Value.field? "hp" es = before, Value.field? "hp" read = after at found given
  cases found with
  | none =>
    cases temp with
    | none => rfl
    | some t => exact absurd (given rfl) (by decide)
  | @some v w value =>
    cases temp with
    | none =>
      obtain ⟨-, rfl⟩ | ⟨t, hs, moved, -⟩ := value.hp_moved rfl
      · rfl
      · cases moved
    | some t =>
      obtain ⟨unmoved, -⟩ | ⟨t, hs, moved, rfl, held, rfl⟩ := value.hp_moved rfl
      · cases unmoved
      · cases moved
        have zero : (if (Value.int t).isTruthy then Value.int t else .int 0) = .int t := by
          by_cases zero : t = 0 <;> simp [zero, Value.isTruthy]
        have gone : Value.hasField "temp" (Value.dropField "temp" hs) = false := by
          rw [Value.hasField, field?_dropField, Option.isSome_none]
        simp only [Option.map_some, Option.bind_some, Value.entries?, Option.getD_some, gone, zero]
        exact HitPoints.ofEntries_temp held

theorem agreeBy_older (current : Current es) {rewritten : Entries} (own : IsCurrentName name)
    (pairs : List.Forall₂ (OlderEntry temp) es rewritten) (perm : fs.Perm (rewritten ++ tempEntry temp))
    {α : Type} {g : Value → α} (same : ∀ v w, OlderValue temp name v w → g w = g v) :
    Value.AgreeBy g [name] es (currentNames (nonNull fs)) := by
  intro other member
  rw [List.mem_singleton.1 member]
  have found := field?_older current own pairs perm
  generalize Value.field? name es = before, Value.field? name (currentNames (nonNull fs)) = after at found
  cases found with
  | none => rfl
  | some value => exact congrArg some (same _ _ value)

theorem Older.alike (current : Current es) (older : Older es fs) : Alike es (currentNames (nonNull fs)) := by
  obtain ⟨temp, rewritten, given, pairs, perm⟩ := older
  have plain : ∀ name ∈ plainNames, IsCurrentName name ∧
      name ∉ ["abilities", "save_proficiency", "portrait_ref", "hp"] := by
    decide
  exact {
    fields name member :=
      Value.agreeBy_id.1 (agreeBy_older current (plain name member).1 pairs perm
        fun _ _ value => congrArg _ (value.plain (plain name member).2)) name (.head _)
    abilities := agreeBy_older current (by decide) pairs perm fun _ _ value => value.abilities_read rfl
    saves := agreeBy_older current (by decide) pairs perm fun _ _ value => value.saves_read rfl
    portrait := agreeBy_older current (by decide) pairs perm fun _ _ value => value.portrait_read rfl
    hp := hp_older current given pairs perm }

end Older

theorem currentNames_current {es : Entries} (current : Current es) : currentNames (nonNull es) = es := by
  have filled : nonNull es = es := List.filter_eq_self.2 fun e member => by rw [current.filled e member]; rfl
  rw [filled, currentNames, foldl_renameField current.named]

/-- A record reads the same, whichever of its older forms it has. -/
theorem ofValue_older {es fs : Entries} (current : Current es) (marked : Marked es) (older : Older es fs)
    (s s' : Supply) : ofValue s' (.map fs) = ofValue s (.map es) := by
  have alike := older.alike current
  have given : Value.hasField "id" (currentNames (nonNull fs)) = true := by
    rw [Value.hasField, alike.fields "id" (by decide)]
    exact marked.id
  have filled : (Value.map es).isTruthy = true := by
    cases es with
    | nil => cases marked.id
    | cons => rfl
  have rest : (Value.map fs).isTruthy = true := by
    cases fs with
    | nil => exact absurd given (by decide)
    | cons => rfl
  rw [ofValue, if_pos rest, ofValue, if_pos filled, Field.record, Field.record, ofEntries, ofEntries,
    currentNames_current current, alike.settles]
  simp only [alike.reads marked s s']

end Character

namespace Veteran

open Character

def record : Entries :=
  [(.str "id", .str "veteran"), (.str "class_id", .str "wizard"),
    (.str "abilities", .map [(.str "STR", .int 18), (.str "LUCK", .int 7)]),
    (.str "hp", .map [(.str "max", .int 12), (.str "temp", .int 3)]),
    (.str "save_proficiency", .list [.str "DEX"]), (.str "portrait_ref", .str "face"),
    (.str "inventory", .list [.map [(.str "id", .str "rope"), (.str "name", .str "Rope")]]),
    (.str "created_at", .str "2020-01-01T00:00:00"), (.str "updated_at", .str "2020-01-02T00:00:00")]

def olderRecord : Entries :=
  [(.str "id", .str "veteran"), (.str "classId", .str "wizard"),
    (.str "abilities", .map [(.str "StrengTH", .map [(.str "score", .int 18)]), (.str "LUCK", .int 7)]),
    (.str "hp", .map [(.str "max", .int 12)]),
    (.str "saveProfs", .map [(.str "DEX", .bool true), (.str "CON", .bool false)]),
    (.str "portrait", .map [(.str "blobId", .str "face")]),
    (.str "inventory", .list [.map [(.str "id", .str "rope"), (.str "name", .str "Rope")]]),
    (.str "createdAt", .str "2020-01-01T00:00:00"), (.str "updatedAt", .str "2020-01-02T00:00:00"),
    (.str "tempHp", .int 3)]

theorem record_current : Current record where
  members := .of_names ["id", "class_id", "abilities", "hp", "save_proficiency", "portrait_ref", "inventory",
    "created_at", "updated_at"] rfl (by decide)
  filled := by decide
  named := by decide
  still := rfl

theorem record_marked : Marked record where
  id := rfl
  created := rfl
  updated := rfl
  slots := by
    intro name named v found xs elements fs member
    simp only [List.mem_cons, List.not_mem_nil, or_false] at named
    rcases named with rfl | rfl <;> cases found
    cases elements
    cases List.mem_singleton.1 member
    rfl

theorem older_record : Older record olderRecord := by
  have still {name : String} {v : Value} (other : name ≠ "hp") : OlderValue (some 3) name v v :=
    .same fun here => absurd here other
  have renamed {name other : String} {v : Value} (legacy : (other, name) ∈ legacyNames) (apart : name ≠ "hp") :
      OlderEntry (some 3) (.str name, v) (.str other, v) :=
    ⟨_, _, rfl, rfl, .inr legacy, still apart⟩
  have kept {name : String} {v : Value} (other : name ≠ "hp") : OlderEntry (some 3) (.str name, v) (.str name, v) :=
    ⟨_, _, rfl, rfl, .inl rfl, still other⟩
  refine ⟨some 3, olderRecord.dropLast, fun _ => rfl, ?_, .of_eq rfl⟩
  refine .cons (kept (by decide)) <| .cons (renamed (by decide) (by decide)) <|
    .cons ⟨_, _, rfl, rfl, .inl rfl, .abilities ?_⟩ <| .cons ⟨_, _, rfl, rfl, .inl rfl, .hp rfl rfl⟩ <|
    .cons ⟨_, _, rfl, rfl, .inr (by decide), .saves ?_⟩ <|
    .cons ⟨_, _, rfl, rfl, .inr (by decide), .portrait (by decide)⟩ <| .cons (kept (by decide)) <|
    .cons (renamed (by decide) (by decide)) <| .cons (renamed (by decide) (by decide)) .nil
  · exact .cons ⟨.inr ⟨_, rfl, by decide +kernel⟩, .inr ⟨rfl, rfl⟩⟩ (.cons ⟨.inl rfl, .inl rfl⟩ .nil)
  · intro key
    simp [Value.isTruthy, Value.text]

theorem ofValue_older_veteran : ∃ c notices,
    ofValue Recruit.supply (.map record) = .ok (c, notices) ∧
      ofValue ⟨7, Recruit.supply.now⟩ (.map olderRecord) = .ok (c, notices) := by
  have read := Recruit.ok_of_ofChecked
    (ok_of_get (x := Failure.ofChecked (ofValue Recruit.supply (.map record))) (by decide +kernel))
  have same := ofValue_older record_current record_marked older_record Recruit.supply ⟨7, Recruit.supply.now⟩
  exact ⟨_, _, read, same.trans read⟩

end Veteran

end Tabletop

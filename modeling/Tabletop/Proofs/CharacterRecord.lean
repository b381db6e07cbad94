import Tabletop.Character.Writing
import Tabletop.Character.Reading
import Tabletop.Proofs.Calendar
import Tabletop.Proofs.Dict
import Tabletop.Proofs.Document
import Tabletop.Proofs.LevelText

set_option autoImplicit false

namespace Tabletop

open Tabletop.Field (Entries)

-- fields of a record

theorem field?_nonNull {name : String} {v : Value} {es : Entries}
    (found : Value.field? name es = some v) (given : v.isNull = false) :
    Value.field? name (nonNull es) = some v := by
  induction es with
  | nil => contradiction
  | cons e es ih =>
    obtain ⟨k, w⟩ := e
    by_cases here : Value.isKey name k
    · simp only [Value.field?, here, if_true, Option.some.injEq] at found
      subst found
      simp [nonNull, given, Value.field?, here]
    · simp only [Value.field?, here] at found
      have rest := ih found
      unfold nonNull at rest ⊢
      rw [List.filter_cons]
      split
      · simpa [Value.field?, here] using rest
      · exact rest

theorem field?_nonNull_none {name : String} {es : Entries}
    (null : ∀ e ∈ es, Value.isKey name e.1 → e.2.isNull) :
    Value.field? name (nonNull es) = none := by
  induction es with
  | nil => rfl
  | cons e es ih =>
    obtain ⟨k, w⟩ := e
    rw [List.forall_mem_cons] at null
    have rest := ih null.2
    unfold nonNull at rest ⊢
    rw [List.filter_cons]
    split
    · rename_i given
      cases here : Value.isKey name k with
      | false => simpa [Value.field?, here] using rest
      | true => simp [null.1 here] at given
    · exact rest

theorem mem_of_isKey {name : String} {k : Value} (key : Value.isKey name k = true) :
    k = .str name := by
  cases k <;> simp_all [Value.isKey]

theorem mem_of_field? {name : String} {v : Value} {es : Entries}
    (found : Value.field? name es = some v) : (.str name, v) ∈ es := by
  induction es with
  | nil => contradiction
  | cons e es ih =>
    obtain ⟨k, w⟩ := e
    simp only [Value.field?] at found
    split at found
    · rename_i here
      cases found
      rw [mem_of_isKey here]
      exact List.mem_cons_self ..
    · exact List.mem_cons_of_mem _ (ih found)

theorem Value.Members.unique {es : Entries} (members : Value.Members es) {k v w : Value}
    (first : (k, v) ∈ es) (second : (k, w) ∈ es) : v = w := by
  have one := Dict.find?_of_mem members.distinct first
  rw [Dict.find?_of_mem members.distinct second] at one
  exact (Option.some.inj one).symm

theorem Value.Members.eq_of_text {es : Entries} (members : Value.Members es) {e f : Value × Value} (first : e ∈ es)
    (second : f ∈ es) (same : e.1.text = f.1.text) : e = f := by
  obtain ⟨k, v⟩ := e
  obtain ⟨k', v'⟩ := f
  obtain ⟨name, rfl⟩ : ∃ name, k = .str name := members.text _ first
  obtain ⟨name', rfl⟩ : ∃ name, k' = .str name := members.text _ second
  obtain rfl : name = name' := same
  rw [members.unique first second]

theorem withDefault_text? {o : Option String} {name : String} {es : Entries}
    {read : Field.Reader (Option String)} (reads : ∀ s, read (.str s) = .ok (some s))
    (members : Value.Members es) (found : Value.field? name es = some (.ofText? o)) :
    Field.withDefault name none read (nonNull es) = .ok o := by
  cases o with
  | none =>
    have null : Value.field? name (nonNull es) = none := by
      refine field?_nonNull_none fun e member key => ?_
      obtain ⟨k, v⟩ := e
      obtain rfl : k = .str name := mem_of_isKey key
      rw [members.unique member (mem_of_field? found)]
      rfl
    rw [Field.withDefault, null]
  | some s =>
    rw [Field.withDefault, field?_nonNull found rfl]
    simp only [Value.ofText?, reads]
    rfl

namespace Field

variable {α : Type}

theorem withDefault_ok {name : String} {default a : α} {read : Reader α} {es : Entries} {v : Value}
    (found : Value.field? name es = some v) (reads : read v = .ok a) :
    withDefault name default read es = .ok a := by
  rw [withDefault, found]
  simp [reads, Checked.within]

theorem all_ok {β : Type} {read : Value → Checked β} {write : β → Value} {ys : List β}
    (reads : ∀ y ∈ ys, read (write y) = .ok y) (i : Nat) :
    Checked.all read i (ys.map write) = .ok ys := by
  induction ys generalizing i with
  | nil => rfl
  | cons y ys ih =>
    rw [List.forall_mem_cons] at reads
    rw [List.map_cons, Checked.all, reads.1, ih reads.2]
    rfl

theorem listOf_string (kind : FaultKind) (ss : List String) :
    listOf kind string (.ofStrings ss) = .ok ss :=
  @all_ok String string .str ss (fun _ _ => rfl) 0

end Field

theorem readSlots_ok {β : Type} {read : String → Field.Reader β} {write : β → Value}
    {supply : Supply} {ys : List β} (reads : ∀ fresh, ∀ y ∈ ys, read fresh (write y) = .ok y)
    (slot : Nat) : readSlots read supply slot (.list (ys.map write)) = .ok ys := by
  have each (ys : List β) (reads : ∀ fresh, ∀ y ∈ ys, read fresh (write y) = .ok y) (slot i : Nat) :
      readEach read supply slot i (ys.map write) = .ok ys := by
    induction ys generalizing slot i with
    | nil => rfl
    | cons y ys ih =>
      have first (fresh : String) := reads fresh y (List.mem_cons_self ..)
      have rest (fresh : String) (z : β) (member : z ∈ ys) :=
        reads fresh z (List.mem_cons_of_mem _ member)
      rw [List.map_cons, readEach, first, ih rest]
      rfl
  exact each ys reads slot 0

-- the parts of a character

theorem IdSet.place_last {id : String} {xs : List String} (below : ∀ x ∈ xs, x < id) :
    place id xs = xs ++ [id] := by
  induction xs with
  | nil => rfl
  | cons x xs ih =>
    rw [List.forall_mem_cons] at below
    have above : ¬ id < x := fun above => Std.lt_irrefl (Std.lt_trans above below.1)
    have apart : id ≠ x := by
      rintro rfl
      exact Std.lt_irrefl below.1
    simp [place, above, apart, ih below.2]

theorem IdSet.union_ids {xs : List String} {s : IdSet} (above : (s.ids ++ xs).Pairwise (· < ·)) :
    (s.union xs).ids = s.ids ++ xs := by
  induction xs generalizing s with
  | nil => simp [union]
  | cons x xs ih =>
    have below : ∀ y ∈ s.ids, y < x := fun y member =>
      (List.pairwise_append.1 above).2.2 y member x (List.mem_cons_self ..)
    have placed : (s.insert x).ids = s.ids ++ [x] := place_last below
    have rest := ih (s := s.insert x) (by simpa [placed] using above)
    rw [placed, List.append_assoc, List.singleton_append] at rest
    exact rest

theorem IdSet.ext {s t : IdSet} (same : s.ids = t.ids) : s = t := by
  cases s
  cases t
  simp_all

@[simp] theorem IdSet.ofList_ids (s : IdSet) : IdSet.ofList s.ids = s :=
  IdSet.ext (IdSet.union_ids (s := empty) s.ascending)

@[simp] theorem IdSet.not_mem_empty (id : String) : id ∉ IdSet.empty :=
  List.not_mem_nil

theorem IdSet.mem_ofList {ids : List String} {id : String} : id ∈ IdSet.ofList ids ↔ id ∈ ids := by
  rw [ofList, mem_union, or_iff_left (not_mem_empty id)]

theorem readIds_ids (s : IdSet) : readIds s.toValue = .ok s := by
  simp [readIds, IdSet.toValue, Field.listOf_string, Checked.map]

theorem SpellBook.read_toValue (b : SpellBook) : SpellBook.read b.toValue = .ok b := by
  let es : Entries := [(.str "cantrips", b.cantrips.toValue), (.str "known", b.known.toValue)]
  have cantrips : Field.withDefault "cantrips" .empty readIdsOrNull es = .ok b.cantrips :=
    Field.withDefault_ok rfl (readIds_ids _)
  have known : Field.withDefault "known" .empty readIdsOrNull es = .ok b.known :=
    Field.withDefault_ok rfl (readIds_ids _)
  change SpellBook.mk <$> Field.withDefault "cantrips" .empty readIdsOrNull es
    <*> Field.withDefault "known" .empty readIdsOrNull es = _
  rw [cantrips, known]
  rfl

theorem readInfusions_toValue (s : IdSet) : readInfusions (infusionsToValue s) = .ok s := by
  let es : Entries := [(.str "learned", s.toValue)]
  have learned : Field.withDefault "learned" .empty readIds es = .ok s :=
    Field.withDefault_ok rfl (readIds_ids s)
  exact learned

theorem HitPoints.ofEntries_toValue {h : HitPoints} (most : 1 ≤ h.max) (temp : 0 ≤ h.temp) :
    HitPoints.ofEntries (Value.entriesOrEmpty h.toValue) = .ok h := by
  have most : Max.max 1 h.max = h.max := by omega
  have temp : Max.max 0 h.temp = h.temp := by omega
  simp [HitPoints.ofEntries, HitPoints.toValue, Value.entriesOrEmpty, nonNull, Value.isNull,
    coercedField, Value.field?, Value.isKey, coerceInt, bind, Except.bind, pure, Except.pure, most,
    temp]

theorem Item.read_toValue {i : Item} (some : 1 ≤ i.quantity) (fresh : String) :
    Item.read fresh i.toValue = .ok i := by
  let es : Entries := [(.str "id", .str i.id), (.str "name", .str i.name),
    (.str "quantity", .int i.quantity), (.str "note", .str i.note),
    (.str "weight", i.weight.elim .null .float)]
  have id : Field.withDefault "id" fresh Field.string es = .ok i.id :=
    Field.withDefault_ok rfl rfl
  have name : Field.required "name" Field.string es = .ok i.name := rfl
  have quantity : Field.withDefault "quantity" 1 (Field.integerFrom 1) es = .ok i.quantity := by
    refine Field.withDefault_ok rfl ?_
    simp [Field.integerFrom, Field.integer, Checked.andThen]
    omega
  have note : Field.withDefault "note" "" Field.string es = .ok i.note :=
    Field.withDefault_ok rfl rfl
  have weight : Field.withDefault "weight" none (Field.optional Field.float) es = .ok i.weight := by
    refine Field.withDefault_ok rfl ?_
    cases i.weight <;> rfl
  change Item.mk <$> Field.withDefault "id" fresh Field.string es
    <*> Field.required "name" Field.string es
    <*> Field.withDefault "quantity" 1 (Field.integerFrom 1) es
    <*> Field.withDefault "note" "" Field.string es
    <*> Field.withDefault "weight" none (Field.optional Field.float) es = _
  rw [id, name, quantity, note, weight]
  rfl

theorem FeatureTags.read_names (t : FeatureTags) :
    FeatureTags.read (.ofStrings t.names) = .ok t := by
  obtain ⟨grant, choice, manual⟩ := t
  cases grant <;> cases choice <;> cases manual <;> rfl

theorem Feature.read_toValue (f : Feature) (fresh : String) :
    Feature.read fresh f.toValue = .ok f := by
  let es : Entries := [(.str "id", .str f.id), (.str "name", .str f.name),
    (.str "level", .int f.level), (.str "text", .str f.text), (.str "tags", .ofStrings f.tags.names)]
  have id : Field.withDefault "id" fresh Field.string es = .ok f.id :=
    Field.withDefault_ok rfl rfl
  have name : Field.required "name" Field.string es = .ok f.name := rfl
  have level : Field.withDefault "level" 1 Field.integer es = .ok f.level :=
    Field.withDefault_ok rfl rfl
  have text : Field.withDefault "text" "" Field.string es = .ok f.text :=
    Field.withDefault_ok rfl rfl
  have tags : Field.withDefault "tags" FeatureTags.manualOnly FeatureTags.read es = .ok f.tags :=
    Field.withDefault_ok rfl (FeatureTags.read_names f.tags)
  change Feature.mk <$> Field.withDefault "id" fresh Field.string es
    <*> Field.required "name" Field.string es
    <*> Field.withDefault "level" 1 Field.integer es
    <*> Field.withDefault "text" "" Field.string es
    <*> Field.withDefault "tags" FeatureTags.manualOnly FeatureTags.read es = _
  rw [id, name, level, text, tags]
  rfl

namespace Ledger

theorem levelRecord_toValue (r : LevelRecord) :
    levelRecord (r.entries.map fun e => (.str e.1, .ofStrings e.2)) = r := by
  have texts (ids : List String) : idList (.ofStrings ids) = ids := by
    simp [Value.ofStrings, idList, Value.text, Function.comp_def]
  rw [levelRecord, List.map_map]
  simpa [Function.comp_def, Value.text, texts] using Dict.ofList_entries r

theorem sortEntries_toValue {es : List (String × LevelRecord)}
    (levels : ∀ e ∈ es, IsLevelKey e.1 ∧ e.2.isEmpty = false) (l : Ledger) (flat : LevelRecord) :
    sortEntries ⟨l, flat⟩ (es.map fun e => (.str e.1, LevelRecord.toValue e.2)) =
      .ok ⟨es.foldl (fun l e => l.insert e.1 e.2) l, flat⟩ := by
  induction es generalizing l with
  | nil => rfl
  | cons e es ih =>
    obtain ⟨k, r⟩ := e
    rw [List.forall_mem_cons] at levels
    obtain ⟨⟨⟨digits, n, read, same⟩, filled⟩, rest⟩ := levels
    have first : sortEntry ⟨l, flat⟩ k (LevelRecord.toValue r) = .ok ⟨l.insert k r, flat⟩ := by
      have some : (r.entries.map fun e => ((.str e.1 : Value), Value.ofStrings e.2)).isEmpty
          = false := by simpa [Dict.isEmpty] using filled
      simp only [sortEntry, digits, LevelRecord.toValue, Dict.toValue, some, read, bind,
        Except.bind, same, levelRecord_toValue, pure, Except.pure]
      rfl
    have text : Value.text (.str k) = k := rfl
    simp only [List.map_cons, sortEntries, text, first, bind, Except.bind, List.foldl_cons]
    exact ih rest _

theorem ofValue_toValue {l : Ledger}
    (levels : ∀ e ∈ l.entries, IsLevelKey e.1 ∧ e.2.isEmpty = false) (level : Int) :
    Ledger.ofValue level l.toValue = .ok (l, []) := by
  have sorts := sortEntries_toValue levels .empty .empty
  have whole : l.entries.foldl (fun l e => l.insert e.1 e.2) .empty = l := Dict.ofList_entries l
  rw [whole] at sorts
  simp only [Ledger.ofValue, toValue, Dict.toValue, sorts, bind, Except.bind]
  rfl

end Ledger

namespace Character

def rescored (scores : Dict String Int) : Dict String Int :=
  scores.entries.foldl (fun d e => d.insert (Ability.normalizeKey e.1) (clamp e.2 1 30)) defaultScores

def resaved (saves : IdSet) : IdSet :=
  .ofList (saves.ids.map Ability.normalizeKey)

theorem mem_resaved {saves : IdSet} {key : String} :
    key ∈ resaved saves ↔ ∃ old ∈ saves, Ability.normalizeKey old = key := by
  rw [resaved, IdSet.mem_ofList, List.mem_map]
  rfl

theorem readScores_toValue (es : List (String × Int)) (d : Dict String Int) :
    readScores d (es.map fun e => (.str e.1, .int e.2)) =
      .ok (es.foldl (fun d e => d.insert (Ability.normalizeKey e.1) (clamp e.2 1 30)) d) := by
  induction es generalizing d with
  | nil => rfl
  | cons e es ih =>
    have text : Value.text (.str e.1) = e.1 := rfl
    simp only [List.map_cons, readScores, scoreOf, coerceInt, text, bind, Except.bind, ih,
      List.foldl_cons]

theorem readAbilities_toValue (scores : Dict String Int) :
    readAbilities (scores.toValue .int) = .ok (rescored scores) :=
  readScores_toValue scores.entries defaultScores

theorem readRankEntries_toValue {es : List (String × Int)} (ranks : ∀ e ∈ es, 0 ≤ e.2 ∧ e.2 ≤ 2)
    (d : Dict String Int) :
    readRankEntries d (es.map fun e => (.str e.1, .int e.2)) =
      .ok (es.foldl (fun d e => d.insert e.1 e.2) d) := by
  induction es generalizing d with
  | nil => rfl
  | cons e es ih =>
    rw [List.forall_mem_cons] at ranks
    have text : Value.text (.str e.1) = e.1 := rfl
    simp only [List.map_cons, readRankEntries, coerceInt, text, bind, Except.bind, ih ranks.2,
      clamp_of_mem ranks.1.1 ranks.1.2, List.foldl_cons]

theorem readRanks_toValue {d : Dict String Int} (ranks : ∀ e ∈ d.entries, 0 ≤ e.2 ∧ e.2 ≤ 2) :
    readRanks (d.toValue .int) = .ok d := by
  have read := readRankEntries_toValue ranks .empty
  have whole : d.entries.foldl (fun d e => d.insert e.1 e.2) .empty = d := Dict.ofList_entries d
  rw [whole] at read
  exact read

theorem readSaves_toValue (saves : IdSet) : readSaves saves.toValue = .ok (resaved saves) := by
  unfold IdSet.toValue Value.ofStrings readSaves resaved
  cases saves.ids with
  | nil => rfl
  | cons id ids =>
    simp [Value.isTruthy, Value.members, bind, Except.bind, pure, Except.pure, Value.text,
      Function.comp_def]

structure Legible (c : Character) : Prop where
  name : c.name.isEmpty = false
  level : 1 ≤ c.level ∧ c.level ≤ 20
  most : 1 ≤ c.hp.max
  temp : 0 ≤ c.hp.temp
  ranks : ∀ e ∈ c.skillRanks.entries, 0 ≤ e.2 ∧ e.2 ≤ 2
  quantities : ∀ i ∈ c.inventory, 1 ≤ i.quantity
  ledger : ∀ e ∈ c.advancement.entries, IsLevelKey e.1 ∧ e.2.isEmpty = false
  created : c.createdAt.Legible
  updated : c.updatedAt.Legible

/-- The character as its own record reads. -/
def settled (c : Character) : Character :=
  { c with abilities := rescored c.abilities, saves := resaved c.saves }

def entries (c : Character) : Entries :=
  Value.entriesOrEmpty c.toValue

def recordNames : List String :=
  ["id", "name", "ruleset_id", "class_id", "subclass_id", "level", "abilities", "hp", "ac", "speed",
    "skill_proficiency_rank", "save_proficiency", "inventory", "spells", "infusions", "features",
    "advancement", "notes", "portrait_ref", "created_at", "updated_at"]

theorem entries_names (c : Character) : c.entries.map (·.1) = recordNames.map .str := rfl

theorem entries_members (c : Character) : Value.Members c.entries :=
  .of_names recordNames c.entries_names (by decide)

theorem field?_entries_none {c : Character} {name : String} (absent : name ∉ recordNames) :
    Value.field? name (nonNull c.entries) = none := by
  refine field?_nonNull_none fun e member key => absurd ?_ absent
  have there : e.1 ∈ c.entries.map (·.1) := List.mem_map_of_mem member
  rw [entries_names, mem_of_isKey key] at there
  simpa using there

theorem foldl_renameField {es : Entries} {names : List (String × String)}
    (absent : ∀ n ∈ names, Value.field? n.1 es = none) : names.foldl renameField es = es := by
  induction names with
  | nil => rfl
  | cons n names ih =>
    rw [List.forall_mem_cons] at absent
    have first : renameField es n = es := by rw [renameField, absent.1]
    rw [List.foldl_cons, first, ih absent.2]

theorem currentNames_entries (c : Character) :
    currentNames (nonNull c.entries) = nonNull c.entries := by
  refine foldl_renameField fun n member => field?_entries_none ?_
  have apart : ∀ n ∈ legacyNames, n.1 ∉ recordNames := by decide
  exact apart n member

theorem settle_entries {c : Character} (legible : c.Legible) :
    settle (nonNull c.entries) = .ok ⟨c.level, c.ac, c.speed, c.advancement, []⟩ := by
  have level : coercedField "level" 1 (nonNull c.entries) = .ok c.level := by
    rw [coercedField, field?_nonNull (v := .int c.level) rfl rfl]
    rfl
  have ac : coercedField "ac" 10 (nonNull c.entries) = .ok c.ac := by
    rw [coercedField, field?_nonNull (v := .int c.ac) rfl rfl]
    rfl
  have speed : coercedField "speed" 30 (nonNull c.entries) = .ok c.speed := by
    rw [coercedField, field?_nonNull (v := .int c.speed) rfl rfl]
    rfl
  have ledger : Value.field "advancement" (nonNull c.entries) = Ledger.toValue c.advancement := by
    rw [Value.field, field?_nonNull (v := Ledger.toValue c.advancement) rfl rfl]
    rfl
  simp only [settle, level, ac, speed, ledger, bind, Except.bind,
    clamp_of_mem legible.level.1 legible.level.2, Ledger.ofValue_toValue legible.ledger]
  rfl

theorem abilities_entries (c : Character) :
    prepared "abilities" defaultScores readAbilities (nonNull c.entries) = .ok (rescored c.abilities) := by
  refine Field.withDefault_ok (field?_nonNull rfl rfl) ?_
  rw [readAbilities_toValue]
  rfl

theorem saves_entries (c : Character) :
    prepared "save_proficiency" .empty readSaves (nonNull c.entries) = .ok (resaved c.saves) := by
  refine Field.withDefault_ok (field?_nonNull rfl rfl) ?_
  rw [readSaves_toValue]
  rfl

theorem readFields_entries {c : Character} (legible : c.Legible) (supply : Supply)
    (notices : List Notice) :
    readFields supply (nonNull c.entries) ⟨c.level, c.ac, c.speed, c.advancement, notices⟩ =
      .ok c.settled := by
  let es := nonNull c.entries
  have members := entries_members c
  have named : (Value.field "name" es).isTruthy = true := by
    rw [Value.field, field?_nonNull (v := .str c.name) rfl rfl]
    simp [Value.isTruthy, legible.name]
  have id : Field.withDefault "id" (supply.freshId 0) Field.string es = .ok c.id :=
    Field.withDefault_ok (field?_nonNull rfl rfl) rfl
  have name : Field.withDefault "name" defaultName Field.string es = .ok c.name :=
    Field.withDefault_ok (field?_nonNull rfl rfl) rfl
  have ruleset : Field.withDefault "ruleset_id" none (Field.optional Field.string) es
      = .ok c.rulesetId := withDefault_text? (fun _ => rfl) members rfl
  have cls : Field.withDefault "class_id" none (Field.optional Field.string) es
      = .ok c.classId := withDefault_text? (fun _ => rfl) members rfl
  have subclass : Field.withDefault "subclass_id" none (Field.optional Field.string) es
      = .ok c.subclassId := withDefault_text? (fun _ => rfl) members rfl
  have abilities : prepared "abilities" defaultScores readAbilities es
      = .ok (rescored c.abilities) := abilities_entries c
  have ranks : prepared "skill_proficiency_rank" .empty readRanks es = .ok c.skillRanks := by
    refine Field.withDefault_ok (field?_nonNull rfl rfl) ?_
    rw [readRanks_toValue legible.ranks]
    rfl
  have saves : prepared "save_proficiency" .empty readSaves es = .ok (resaved c.saves) :=
    saves_entries c
  have hp : (Checked.ofExcept (HitPoints.ofEntries (hpEntries es))).within (.name "hp") = .ok c.hp := by
    have found : Value.field? "hp" es = some c.hp.toValue := field?_nonNull rfl rfl
    have old : Value.field? "tempHp" es = none := field?_entries_none (by decide)
    have own : hpEntries es = Value.entriesOrEmpty c.hp.toValue := by
      rw [hpEntries, found, old]
      rfl
    rw [own, HitPoints.ofEntries_toValue legible.most legible.temp]
    rfl
  have inventory : Field.withDefault "inventory" [] (readSlots Item.read supply 1) es
      = .ok c.inventory := by
    refine Field.withDefault_ok (field?_nonNull rfl rfl) (readSlots_ok ?_ 1)
    exact fun fresh i member => Item.read_toValue (legible.quantities i member) fresh
  have spells : Field.withDefault "spells" ⟨.empty, .empty⟩ SpellBook.read es = .ok c.spells :=
    Field.withDefault_ok (field?_nonNull rfl rfl) c.spells.read_toValue
  have infusions : Field.withDefault "infusions" .empty readInfusions es = .ok c.infusions :=
    Field.withDefault_ok (field?_nonNull rfl rfl) (readInfusions_toValue _)
  have features (slot : Nat) :
      Field.withDefault "features" [] (readSlots Feature.read supply slot) es = .ok c.features := by
    refine Field.withDefault_ok (field?_nonNull rfl rfl) (readSlots_ok ?_ slot)
    exact fun fresh f _ => f.read_toValue fresh
  have notes : Field.withDefault "notes" "" Field.string es = .ok c.notes :=
    Field.withDefault_ok (field?_nonNull rfl rfl) rfl
  have portrait : Field.withDefault "portrait_ref" none
      (fun v => Field.optional Field.string (portraitOf v)) es = .ok c.portrait :=
    withDefault_text? (fun _ => rfl) members rfl
  have created : Field.withDefault "created_at" supply.now Field.moment es = .ok c.createdAt := by
    refine Field.withDefault_ok (field?_nonNull rfl rfl) ?_
    rw [Field.moment, legible.created.ofText_recordText]
    rfl
  have updated : Field.withDefault "updated_at" supply.now.next Field.moment es
      = .ok c.updatedAt := by
    refine Field.withDefault_ok (field?_nonNull rfl rfl) ?_
    rw [Field.moment, legible.updated.ofText_recordText]
    rfl
  unfold readFields
  simp only [es] at *
  rw [if_pos named]
  simp only [id, name, ruleset, cls, subclass, abilities, hp, ranks, saves, inventory, spells, infusions,
    features, notes, portrait, created, updated]
  rfl

theorem ofValue_toValue {c : Character} (legible : c.Legible) (supply : Supply) :
    ofValue supply c.toValue = .ok (c.settled, []) := by
  have whole : c.toValue = .map c.entries := rfl
  have some : (Value.map c.entries).isTruthy = true := rfl
  rw [whole, ofValue, if_pos some]
  simp only [Field.record, ofEntries, currentNames_entries, settle_entries legible,
    Checked.ofExcept, Checked.andThen, readFields_entries legible, Checked.map]

end Character

end Tabletop

import Tabletop.Proofs.AbilityKeys

set_option autoImplicit false

namespace Tabletop

open Tabletop.Field (Entries)

theorem bind_eq_ok {ε α β : Type} {x : Except ε α} {f : α → Except ε β} {b : β} :
    (x >>= f) = .ok b ↔ ∃ a, x = .ok a ∧ f a = .ok b := by
  cases x <;> simp [bind, Except.bind]

theorem ok_of_get {ε α : Type} {x : Except ε α} (some : x.toOption.isSome = true) :
    x = .ok (x.toOption.get some) := by
  cases x with
  | error e => contradiction
  | ok a => rfl

theorem pure_eq_ok {ε α : Type} {a b : α} : (pure a : Except ε α) = .ok b ↔ a = b := by
  simp [pure, Except.pure]

namespace Checked

variable {α β : Type}

theorem seq_eq_ok {f : Checked (α → β)} {x : Checked α} {b : β} :
    f <*> x = .ok b ↔ ∃ g a, f = .ok g ∧ x = .ok a ∧ g a = b := by
  change seq f x = .ok b ↔ _
  cases f <;> cases x <;> simp [seq]

theorem map_eq_ok {f : α → β} {x : Checked α} {b : β} :
    f <$> x = .ok b ↔ ∃ a, x = .ok a ∧ f a = b := by
  change map f x = .ok b ↔ _
  cases x <;> simp [map]

theorem pure_eq_ok {a b : α} : (pure a : Checked α) = .ok b ↔ a = b := by
  change Checked.ok a = .ok b ↔ _
  simp

theorem within_eq_ok {step : Step} {x : Checked α} {a : α} :
    x.within step = .ok a ↔ x = .ok a := by
  cases x <;> simp [within]

theorem andThen_eq_ok {x : Checked α} {f : α → Checked β} {b : β} :
    x.andThen f = .ok b ↔ ∃ a, x = .ok a ∧ f a = .ok b := by
  cases x <;> simp [andThen]

theorem ofExcept_eq_ok {x : Except Breakdown α} {a : α} :
    Checked.ofExcept x = .ok a ↔ x = .ok a := by
  cases x with
  | ok b => simp [ofExcept]
  | error e => cases e <;> simp [ofExcept, fault]

theorem ofOption_eq_ok {kind : FaultKind} {o : Option α} {a : α} :
    ofOption kind o = .ok a ↔ o = some a := by
  cases o <;> simp [ofOption, fault]

end Checked

theorem Field.withDefault_eq_ok {α : Type} {name : String} {default a : α} {read : Reader α}
    {es : Entries} (reads : withDefault name default read es = .ok a) :
    Value.field? name es = none ∧ a = default ∨
      ∃ v, Value.field? name es = some v ∧ read v = .ok a := by
  unfold withDefault at reads
  split at reads
  · rename_i v found
    exact .inr ⟨v, found, Checked.within_eq_ok.1 reads⟩
  · rename_i absent
    cases reads
    exact .inl ⟨absent, rfl⟩

-- what is JSON stays JSON while fields are renamed

def AllPlain (es : Entries) : Prop :=
  ∀ e ∈ es, Json.plain e.2 = .ok e.2

theorem allPlain_of_map {es : Entries} (json : Json.plain (.map es) = .ok (.map es)) :
    AllPlain es := by
  have entries : Json.plainEntries es = .ok es := by
    rw [Json.plain, bind_eq_ok] at json
    obtain ⟨fs, entries, same⟩ := json
    rw [pure_eq_ok, Value.map.injEq] at same
    rwa [same] at entries
  clear json
  induction es with
  | nil => simp [AllPlain]
  | cons e es ih =>
    obtain ⟨k, v⟩ := e
    rw [Json.plainEntries] at entries
    split at entries
    · contradiction
    · simp only [bind_eq_ok, pure_eq_ok, List.cons.injEq, Prod.mk.injEq] at entries
      obtain ⟨w, plain, fs, rest, ⟨-, rfl⟩, rfl⟩ := entries
      exact List.forall_mem_cons.2 ⟨plain, ih rest⟩

theorem allPlain_field? {es : Entries} (all : AllPlain es) {name : String} {v : Value}
    (found : Value.field? name es = some v) : Json.plain v = .ok v :=
  all _ (mem_of_field? found)

namespace Character

theorem forall_currentNames {p : Value → Prop} {es : Entries} (all : ∀ e ∈ es, p e.2) :
    ∀ e ∈ currentNames (nonNull es), p e.2 := by
  have renamed (names : List (String × String)) (es : Entries) (all : ∀ e ∈ es, p e.2) :
      ∀ e ∈ names.foldl renameField es, p e.2 := by
    induction names generalizing es with
    | nil => exact all
    | cons n names ih =>
      refine ih _ ?_
      unfold renameField
      split
      · rename_i v found
        split
        · exact all
        · intro e member
          rcases List.mem_append.1 member with old | new
          · exact all e (List.mem_filter.1 old).1
          · rw [List.mem_singleton.1 new]
            exact all (.str n.1, v) (mem_of_field? found)
      · exact all
  exact renamed _ _ fun e member => all e (List.mem_filter.1 member).1

end Character

-- the parts of what is read

theorem moment_legible {v : Value} {m : Moment} (json : Json.plain v = .ok v)
    (reads : Field.moment v = .ok m) : m.Legible := by
  unfold Field.moment at reads
  generalize Moment.Stamp.maxUnix = most at reads
  split at reads
  · exact Moment.Stamp.ofText_legible (Checked.ofOption_eq_ok.1 reads)
  · have found := Checked.ofOption_eq_ok.1 reads
    split at found
    · exact Moment.Stamp.ofUnix_legible found
    · contradiction
  · have found := Checked.ofOption_eq_ok.1 reads
    rw [Option.bind_eq_some_iff] at found
    obtain ⟨r, -, found⟩ := found
    unfold Moment.Stamp.ofUnixRatio at found
    exact Moment.Stamp.ofUnix_legible found
  · simp [Json.plain] at json
  · simp [Json.plain] at json
  · contradiction

theorem string_filled {v : Value} {s : String} (json : Json.plain v = .ok v)
    (some : v.isTruthy = true) (reads : Field.string v = .ok s) : s.isEmpty = false := by
  unfold Field.string at reads
  split at reads
  · cases reads
    simpa [Value.isTruthy] using some
  · simp [Json.plain] at json
  · contradiction

theorem HitPoints.ofEntries_bounds {es : Entries} {h : HitPoints}
    (reads : HitPoints.ofEntries es = .ok h) : 1 ≤ h.max ∧ 0 ≤ h.temp := by
  simp only [HitPoints.ofEntries, bind_eq_ok, pure_eq_ok] at reads
  obtain ⟨current, -, most, -, temp, -, rfl⟩ := reads
  exact ⟨by simp only; omega, by simp only; omega⟩

theorem Field.integerFrom_le {least i : Int} {v : Value} (reads : integerFrom least v = .ok i) :
    least ≤ i := by
  obtain ⟨j, -, bounded⟩ := Checked.andThen_eq_ok.1 reads
  split at bounded
  · contradiction
  · cases bounded
    omega

theorem Item.read_quantity {fresh : String} {v : Value} {i : Item}
    (reads : Item.read fresh v = .ok i) : 1 ≤ i.quantity := by
  unfold Item.read Field.record at reads
  split at reads
  · simp only [Checked.seq_eq_ok, Checked.map_eq_ok] at reads
    obtain ⟨_, _, ⟨_, _, ⟨_, quantity, ⟨_, _, ⟨_, _, rfl⟩, _, rfl⟩, held, rfl⟩, _, rfl⟩, _, rfl⟩ :=
      reads
    change 1 ≤ quantity
    rcases Field.withDefault_eq_ok held with ⟨-, rfl⟩ | ⟨v, -, reads⟩
    · decide
    · exact Field.integerFrom_le reads
  · contradiction

theorem readEach_forall {α : Type} {read : String → Field.Reader α} {p : α → Prop}
    (each : ∀ fresh v a, read fresh v = .ok a → p a) {supply : Supply} {vs : List Value}
    {slot i : Nat} {as : List α} (reads : readEach read supply slot i vs = .ok as) :
    ∀ a ∈ as, p a := by
  induction vs generalizing slot i as with
  | nil =>
    cases reads
    simp
  | cons v vs ih =>
    simp only [readEach, Checked.seq_eq_ok, Checked.map_eq_ok, Checked.within_eq_ok] at reads
    obtain ⟨_, rest, ⟨a, first, rfl⟩, more, rfl⟩ := reads
    exact List.forall_mem_cons.2 ⟨each _ _ _ first, ih more⟩

theorem readSlots_forall {α : Type} {read : String → Field.Reader α} {p : α → Prop}
    (each : ∀ fresh v a, read fresh v = .ok a → p a) {supply : Supply} {slot : Nat} {v : Value}
    {as : List α} (reads : readSlots read supply slot v = .ok as) : ∀ a ∈ as, p a := by
  unfold readSlots at reads
  split at reads
  · exact readEach_forall each reads
  · contradiction

namespace Ledger

def Keyed (l : Ledger) : Prop :=
  ∀ e ∈ l.entries, IsLevelKey e.1 ∧ e.2.isEmpty = false

theorem Keyed.empty : Keyed .empty := by
  simp [Keyed, Dict.empty]

theorem Keyed.insert {l : Ledger} {record : LevelRecord} (keyed : l.Keyed) (level : Int)
    (bounds : 0 ≤ level ∧ level < 100) (filled : record.isEmpty = false) :
    Keyed (l.insert (toString level) record) :=
  Dict.forall_insert keyed ⟨isLevelKey_of_level bounds.1 bounds.2, filled⟩

theorem addAll_filled (r : LevelRecord) {more : LevelRecord} (filled : more.isEmpty = false) :
    (addAll r more).isEmpty = false := by
  unfold addAll
  unfold Dict.isEmpty at filled
  cases entries : more.entries with
  | nil => simp [entries] at filled
  | cons e es => exact Dict.isEmpty_foldl_insert es (by simp)

theorem sortEntry_keyed {s t : Sorted} {key : String} {v : Value} (keyed : Keyed s.nested)
    (sorts : sortEntry s key v = .ok t) : Keyed t.nested := by
  unfold sortEntry at sorts
  split at sorts
  · rename_i es digits
    split at sorts
    · cases sorts
      exact keyed
    · rename_i some
      simp only [bind_eq_ok, pure_eq_ok] at sorts
      obtain ⟨level, read, rfl⟩ := sorts
      refine Dict.forall_insert keyed ⟨isLevelKey_of_read digits read, ?_⟩
      simpa [levelRecord] using some
  · cases sorts
    exact keyed

theorem sortEntries_keyed {es : Entries} {s t : Sorted} (keyed : Keyed s.nested)
    (sorts : sortEntries s es = .ok t) : Keyed t.nested := by
  induction es generalizing s with
  | nil =>
    cases sorts
    exact keyed
  | cons e es ih =>
    obtain ⟨k, v⟩ := e
    simp only [sortEntries, bind_eq_ok] at sorts
    obtain ⟨u, first, rest⟩ := sorts
    exact ih (sortEntry_keyed keyed first) rest

theorem ofValue_keyed {level : Int} {v : Value} {l : Ledger} {notices : List Notice}
    (reads : Ledger.ofValue level v = .ok (l, notices)) : Keyed l := by
  unfold Ledger.ofValue at reads
  split at reads
  · simp only [bind_eq_ok] at reads
    obtain ⟨s, sorts, reads⟩ := reads
    have keyed := sortEntries_keyed .empty sorts
    split at reads
    · cases reads
      exact keyed
    · rename_i flat
      cases reads
      have target : 1 ≤ clamp level 1 20 ∧ clamp level 1 20 ≤ 20 := clamp_mem (by decide)
      exact keyed.insert _ ⟨by omega, by omega⟩ (addAll_filled _ (by simpa using flat))
  · cases reads
    exact .empty

end Ledger

namespace Character

theorem readRankEntries_bounds {es : Entries} {ranks read : Dict String Int}
    (bounds : ∀ e ∈ ranks.entries, 0 ≤ e.2 ∧ e.2 ≤ 2)
    (reads : readRankEntries ranks es = .ok read) : ∀ e ∈ read.entries, 0 ≤ e.2 ∧ e.2 ≤ 2 := by
  induction es generalizing ranks with
  | nil =>
    cases reads
    exact bounds
  | cons e es ih =>
    obtain ⟨k, v⟩ := e
    simp only [readRankEntries, bind_eq_ok] at reads
    obtain ⟨rank, -, rest⟩ := reads
    exact ih (Dict.forall_insert bounds (clamp_mem (by decide))) rest

theorem readRanks_bounds {v : Value} {ranks : Dict String Int} (reads : readRanks v = .ok ranks) :
    ∀ e ∈ ranks.entries, 0 ≤ e.2 ∧ e.2 ≤ 2 := by
  unfold readRanks at reads
  split at reads
  · exact readRankEntries_bounds (by simp [Dict.empty]) reads
  · cases reads
    simp [Dict.empty]

theorem settle_bounds {es : Entries} {s : Settled} (settles : settle es = .ok s) :
    (1 ≤ s.level ∧ s.level ≤ 20) ∧ Ledger.Keyed s.ledger := by
  simp only [settle, bind_eq_ok, pure_eq_ok] at settles
  obtain ⟨level, -, ac, -, speed, -, ⟨ledger, notices⟩, reads, rfl⟩ := settles
  exact ⟨clamp_mem (by decide), Ledger.ofValue_keyed reads⟩

theorem field?_dropField (name : String) (es : Entries) :
    Value.field? name (Value.dropField name es) = none := by
  induction es with
  | nil => rfl
  | cons e es ih =>
    obtain ⟨k, v⟩ := e
    unfold Value.dropField at ih ⊢
    cases here : Value.isKey name k with
    | true => simpa [here] using ih
    | false => simpa [here, Value.field?] using ih

theorem name_filled {es : Entries} {name : String} (all : AllPlain es)
    (reads : Field.withDefault "name" defaultName Field.string
      (if (Value.field "name" es).isTruthy then es else Value.dropField "name" es) = .ok name) :
    name.isEmpty = false := by
  rcases Field.withDefault_eq_ok reads with ⟨-, rfl⟩ | ⟨v, found, reads⟩
  · decide
  · split at found
    · rename_i given
      rw [Value.field, found] at given
      exact string_filled (allPlain_field? all found) given reads
    · rw [field?_dropField] at found
      contradiction

-- what holds of the scores at first and is kept by every score that is read holds in the end
theorem readScores_keeps {p : Dict String Int → Prop} {es : Entries} {scores read : Dict String Int}
    (start : p scores)
    (step : ∀ e ∈ es, ∀ scores score, p scores →
      p (scores.insert (Ability.normalizeKey e.1.text) (clamp score 1 30)))
    (reads : readScores scores es = .ok read) : p read := by
  induction es generalizing scores with
  | nil =>
    cases reads
    exact start
  | cons e es ih =>
    obtain ⟨k, v⟩ := e
    rw [List.forall_mem_cons] at step
    simp only [readScores, bind_eq_ok] at reads
    obtain ⟨score, -, rest⟩ := reads
    exact ih (step.1 scores score start) step.2 rest

theorem abilities_keep {p : Dict String Int → Prop} {es : Entries} {scores : Dict String Int}
    (reads : prepared "abilities" defaultScores readAbilities es = .ok scores)
    (start : p defaultScores)
    (step : ∀ e ∈ Value.entriesOrEmpty (Value.field "abilities" es), ∀ scores score, p scores →
      p (scores.insert (Ability.normalizeKey e.1.text) (clamp score 1 30))) : p scores := by
  rcases Field.withDefault_eq_ok reads with ⟨-, rfl⟩ | ⟨v, found, reads⟩
  · exact start
  · rw [Checked.ofExcept_eq_ok] at reads
    rw [Value.field, found] at step
    unfold readAbilities at reads
    split at reads
    · exact readScores_keeps start step reads
    · cases reads
      exact start

structure FieldsRead (supply : Supply) (es : Entries) (s : Settled) (c : Character) : Prop where
  name : Field.withDefault "name" defaultName Field.string
    (if (Value.field "name" es).isTruthy then es else Value.dropField "name" es) = .ok c.name
  level : c.level = s.level
  abilities : prepared "abilities" defaultScores readAbilities es = .ok c.abilities
  hp : HitPoints.ofEntries (hpEntries es) = .ok c.hp
  ranks : prepared "skill_proficiency_rank" .empty readRanks es = .ok c.skillRanks
  saves : prepared "save_proficiency" .empty readSaves es = .ok c.saves
  inventory : Field.withDefault "inventory" [] (readSlots Item.read supply 1) es = .ok c.inventory
  ledger : c.advancement = s.ledger
  created : Field.withDefault "created_at" supply.now Field.moment es = .ok c.createdAt
  updated : Field.withDefault "updated_at" supply.now.next Field.moment es = .ok c.updatedAt

theorem readFields_eq_ok {supply : Supply} {es : Entries} {s : Settled} {c : Character}
    (reads : readFields supply es s = .ok c) : FieldsRead supply es s c := by
  unfold readFields at reads
  simp only [Checked.seq_eq_ok, Checked.map_eq_ok, Checked.pure_eq_ok] at reads
  obtain ⟨_, updated, ⟨_, created, ⟨_, portrait, ⟨_, notes, ⟨_, _, ⟨_, features, ⟨_, infusions,
    ⟨_, spells, read, -, rfl⟩, -, rfl⟩, -, rfl⟩, rfl, rfl⟩, -, rfl⟩, -, rfl⟩, made, rfl⟩, changed,
    rfl⟩ := reads
  obtain ⟨_, inventory, ⟨_, saves, ⟨_, ranks, ⟨_, _, ⟨_, _, ⟨_, hp, read, points, rfl⟩, rfl, rfl⟩,
    rfl, rfl⟩, ranked, rfl⟩, saved, rfl⟩, listed, rfl⟩ := read
  obtain ⟨_, abilities, ⟨_, _, ⟨_, subclass, ⟨_, cls, ⟨_, ruleset, ⟨_, name, ⟨id, -, rfl⟩, named, rfl⟩,
    -, rfl⟩, -, rfl⟩, -, rfl⟩, rfl, rfl⟩, scores, rfl⟩ := read
  rw [Checked.within_eq_ok, Checked.ofExcept_eq_ok] at points
  exact ⟨named, rfl, scores, points, ranked, saved, listed, rfl, made, changed⟩

structure InRange (c : Character) : Prop where
  level : 1 ≤ c.level ∧ c.level ≤ 20
  six : Ability.keys <+: c.abilities.keys
  scores : ∀ e ∈ c.abilities.entries, 1 ≤ e.2 ∧ e.2 ≤ 30
  most : 1 ≤ c.hp.max
  temp : 0 ≤ c.hp.temp
  ranks : ∀ e ∈ c.skillRanks.entries, 0 ≤ e.2 ∧ e.2 ≤ 2
  quantities : ∀ i ∈ c.inventory, 1 ≤ i.quantity
  ledger : Ledger.Keyed c.advancement

theorem FieldsRead.inRange {supply : Supply} {es : Entries} {s : Settled} {c : Character}
    (fields : FieldsRead supply es s c) (level : 1 ≤ s.level ∧ s.level ≤ 20)
    (ledger : Ledger.Keyed s.ledger) : c.InRange where
  level := fields.level ▸ level
  six := abilities_keep (p := fun scores => Ability.keys <+: scores.keys) fields.abilities
    usual_default.six fun _ _ _ _ six => keys_prefix_insert six
  scores := abilities_keep (p := fun scores => ∀ e ∈ scores.entries, 1 ≤ e.2 ∧ e.2 ≤ 30)
    fields.abilities (fun e member => (usual_default.stable e member).2)
    fun _ _ _ _ bounds => Dict.forall_insert bounds (clamp_mem (by decide))
  most := (HitPoints.ofEntries_bounds fields.hp).1
  temp := (HitPoints.ofEntries_bounds fields.hp).2
  ranks := by
    rcases Field.withDefault_eq_ok fields.ranks with ⟨-, same⟩ | ⟨v, -, reads⟩
    · simp [same, Dict.empty]
    · exact readRanks_bounds (Checked.ofExcept_eq_ok.1 reads)
  quantities := by
    rcases Field.withDefault_eq_ok fields.inventory with ⟨-, same⟩ | ⟨v, -, reads⟩
    · simp [same]
    · exact readSlots_forall (fun _ _ _ => Item.read_quantity) reads
  ledger := fields.ledger ▸ ledger

theorem FieldsRead.legible {supply : Supply} {es : Entries} {s : Settled} {c : Character}
    (fields : FieldsRead supply es s c) (inRange : c.InRange) (all : AllPlain es)
    (now : supply.now.Legible) (next : supply.now.next.Legible) : c.Legible := by
  have moment {name : String} {default m : Moment} (fallback : default.Legible)
      (reads : Field.withDefault name default Field.moment es = .ok m) : m.Legible := by
    rcases Field.withDefault_eq_ok reads with ⟨-, rfl⟩ | ⟨v, found, reads⟩
    · exact fallback
    · exact moment_legible (allPlain_field? all found) reads
  exact
    { inRange with
      name := name_filled all fields.name
      created := moment now fields.created
      updated := moment next fields.updated }

-- the entries of a record that count, under their current names
def givenEntries (v : Value) : Entries :=
  currentNames (nonNull v.entriesOrEmpty)

theorem ofValue_fields {supply : Supply} {v : Value} {c : Character} {notices : List Notice}
    (reads : ofValue supply v = .ok (c, notices)) :
    ∃ s, settle (givenEntries v) = .ok s ∧ readFields supply (givenEntries v) s = .ok c := by
  have entries : ofEntries supply v.entriesOrEmpty = .ok (c, notices) := by
    unfold ofValue at reads
    split at reads
    · cases v with
      | map es => exact reads
      | _ => cases reads
    · rename_i empty
      cases v with
      | map es =>
        have none : es = [] := by simpa [Value.isTruthy] using empty
        rwa [none]
      | _ => exact reads
  unfold ofEntries at entries
  obtain ⟨s, settles, entries⟩ := Checked.andThen_eq_ok.1 entries
  refine ⟨s, Checked.ofExcept_eq_ok.1 settles, ?_⟩
  change (fun c => (c, s.notices)) <$> readFields supply (givenEntries v) s = _ at entries
  obtain ⟨d, fields, same⟩ := Checked.map_eq_ok.1 entries
  cases same
  exact fields

theorem ofValue_inRange {supply : Supply} {v : Value} {c : Character} {notices : List Notice}
    (reads : ofValue supply v = .ok (c, notices)) : c.InRange := by
  obtain ⟨s, settles, fields⟩ := ofValue_fields reads
  obtain ⟨level, ledger⟩ := settle_bounds settles
  exact (readFields_eq_ok fields).inRange level ledger

theorem ofValue_bounds {supply : Supply} {v : Value} {c : Character} {notices : List Notice}
    (reads : ofValue supply v = .ok (c, notices)) :
    (1 ≤ c.level ∧ c.level ≤ 20) ∧ Ledger.Keyed c.advancement :=
  ⟨(ofValue_inRange reads).level, (ofValue_inRange reads).ledger⟩

-- the fields that count are JSON if the record is
theorem allPlain_givenEntries {v : Value} (json : Json.plain v = .ok v) : AllPlain (givenEntries v) := by
  apply forall_currentNames (p := fun w => Json.plain w = .ok w)
  cases v with
  | map es => exact allPlain_of_map json
  | _ => simp [Value.entriesOrEmpty]

theorem ofValue_legible {supply : Supply} {v : Value} {c : Character} {notices : List Notice}
    (json : Json.plain v = .ok v) (now : supply.now.Legible) (next : supply.now.next.Legible)
    (reads : ofValue supply v = .ok (c, notices)) :
    c.Legible ∧ Ability.keys <+: c.abilities.keys := by
  have inRange := ofValue_inRange reads
  obtain ⟨s, -, fields⟩ := ofValue_fields reads
  have all := allPlain_givenEntries json
  exact ⟨(readFields_eq_ok fields).legible inRange all now next, inRange.six⟩

end Character

end Tabletop

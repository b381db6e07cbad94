import Tabletop.Proofs.DocumentCheck
import Tabletop.Proofs.FieldReaders
import Tabletop.Proofs.Rereading

set_option autoImplicit false

namespace Tabletop

open Tabletop.Field (Entries Reader)
open Checked (Settles settles_ok settles_fault settles_ofOption)

def Value.IsBounded (v : Value) : Prop :=
  ∀ negative, v ≠ .float (.infinite negative)

-- steps that settle

namespace Checked

variable {α β : Type} {x : Except Breakdown α}

theorem settles_ofExcept_ok (a : α) : (ofExcept (.ok a)).Settles :=
  settles_ok a

theorem ofExcept_bind_settles {f : α → Except Breakdown β} (first : (ofExcept x).Settles)
    (next : ∀ a, (ofExcept (f a)).Settles) : (ofExcept (x >>= f)).Settles := by
  cases x with
  | ok a => exact next a
  | error cause =>
    cases cause with
    | badValue message => exact settles_fault .valueError
    | _ => exact absurd rfl (first _)

end Checked

theorem coerceInt_completes (default : Int) (v : Value) :
    Completes (coerceInt default v) ↔ v.IsBounded := by
  unfold coerceInt Value.IsBounded
  split <;> simp_all

theorem coerceInt_error {default : Int} {v : Value} {cause : Breakdown}
    (fails : coerceInt default v = .error cause) : cause = .infiniteNumber := by
  unfold coerceInt at fails
  split at fails <;> simp_all

theorem coerceInt_bind_settles {α : Type} {default : Int} {v : Value} {f : Int → Except Breakdown α}
    {p : Prop} (next : ∀ i, (Checked.ofExcept (f i)).Settles ↔ p) :
    (Checked.ofExcept (coerceInt default v >>= f)).Settles ↔ v.IsBounded ∧ p := by
  rw [← coerceInt_completes default v]
  cases read : coerceInt default v with
  | ok i => simpa using next i
  | error cause =>
    rw [coerceInt_error read]
    simp [Checked.ofExcept, Settles]

def BoundedField (name : String) (es : Entries) : Prop :=
  ∀ v, Value.field? name es = some v → v.IsBounded

theorem coercedField_bind_settles {α : Type} {name : String} {default : Int} {es : Entries}
    {f : Int → Except Breakdown α} {p : Prop} (next : ∀ i, (Checked.ofExcept (f i)).Settles ↔ p) :
    (Checked.ofExcept (coercedField name default es >>= f)).Settles ↔ BoundedField name es ∧ p := by
  unfold coercedField BoundedField
  cases Value.field? name es with
  | none => simpa using next default
  | some v => simpa using coerceInt_bind_settles next

theorem coercedField_completes (name : String) (default : Int) (es : Entries) :
    Completes (coercedField name default es) ↔ BoundedField name es := by
  unfold coercedField BoundedField
  cases Value.field? name es with
  | none => simp
  | some v => simpa using coerceInt_completes default v

-- the ledger

namespace Ledger

/-- Digits that are the key of a filled entry are a numeral. -/
def IsTold (ledger : Value) : Prop :=
  ∀ e ∈ ledger.entriesOrEmpty, ∀ picks ∈ e.2.entries?, picks ≠ [] →
    Text.isDigits e.1.text = true → Text.IsNumeral e.1.text

theorem sortEntry_completes (s : Sorted) (key : String) (entry : Value) :
    Completes (sortEntry s key entry) ↔ ∀ picks ∈ entry.entries?, picks ≠ [] →
      Text.isDigits key = true → Text.IsNumeral key := by
  cases digits : Text.isDigits key with
  | false => simp [sortEntry, digits]
  | true =>
    cases entry with
    | map picks =>
      simp only [sortEntry, digits, Value.entries?, Option.mem_some_iff, forall_eq', true_imp_iff]
      split
      · rename_i empty
        simp [List.isEmpty_iff.1 empty]
      · rename_i filled
        have some : picks ≠ [] := by simpa using filled
        rw [completes_bind_pure, Completes, integerOf_digits_iff digits]
        simp [some]
    | _ => simp [sortEntry, digits, Value.entries?]

theorem sortEntries_completes (s : Sorted) (es : Entries) :
    Completes (sortEntries s es) ↔ ∀ e ∈ es, ∀ picks ∈ e.2.entries?, picks ≠ [] →
      Text.isDigits e.1.text = true → Text.IsNumeral e.1.text := by
  induction es generalizing s with
  | nil => simp [sortEntries]
  | cons e es ih =>
    rw [List.forall_mem_cons, ← sortEntry_completes s e.1.text e.2]
    exact completes_bind fun s => ih s

theorem ofValue_completes (level : Int) (v : Value) : Completes (Ledger.ofValue level v) ↔ IsTold v := by
  cases v with
  | map es =>
    rw [IsTold, Value.entriesOrEmpty, ← sortEntries_completes ⟨.empty, .empty⟩ es]
    simp only [Ledger.ofValue]
    rw [completes_bind (p := True), and_true]
    intro s
    split
    · simp
    · simp
  | _ => simp [Ledger.ofValue, IsTold, Value.entriesOrEmpty]

theorem sortEntry_error {s : Sorted} {key : String} {entry : Value} {cause : Breakdown}
    (fails : sortEntry s key entry = .error cause) : ∃ message, cause = .badValue message := by
  unfold sortEntry integerOf at fails
  split at fails
  · split at fails
    · cases fails
    · split at fails
      · cases fails
      · cases fails
        exact ⟨_, rfl⟩
  · cases fails

theorem sortEntries_error {s : Sorted} {es : Entries} {cause : Breakdown}
    (fails : sortEntries s es = .error cause) : ∃ message, cause = .badValue message := by
  induction es generalizing s with
  | nil => cases fails
  | cons e es ih =>
    obtain ⟨k, v⟩ := e
    unfold sortEntries at fails
    cases sorts : sortEntry s k.text v with
    | ok t =>
      rw [sorts] at fails
      exact ih fails
    | error other =>
      rw [sorts] at fails
      cases fails
      exact sortEntry_error sorts

-- digits that are no numeral are a fault of the record
theorem ofValue_settles (level : Int) (v : Value) : (Checked.ofExcept (Ledger.ofValue level v)).Settles := by
  cases v with
  | map es =>
    simp only [Ledger.ofValue]
    cases sorts : sortEntries ⟨.empty, .empty⟩ es with
    | ok s =>
      rw [ok_bind]
      split
      · exact settles_ok _
      · exact settles_ok _
    | error cause =>
      obtain ⟨message, rfl⟩ := sortEntries_error sorts
      exact settles_fault .valueError
  | _ => exact settles_ok _

end Ledger

-- readers of the parts of a character

open Tabletop.Field in
theorem Item.read_settles (fresh : String) (v : Value) : (Item.read fresh v).Settles := by
  refine record_settles (fun es => ?_) v
  have id := withDefault_settles string_settles "id" fresh (Item.migrate es)
  have name := required_settles string_settles "name" (Item.migrate es)
  have quantity := withDefault_settles (integerFrom_settles 1) "quantity" 1 (Item.migrate es)
  have note := withDefault_settles string_settles "note" "" (Item.migrate es)
  have weight := withDefault_settles (optional_settles float_settles) "weight" none (Item.migrate es)
  exact ((((id.map _).seq name).seq quantity).seq note).seq weight

theorem FeatureTags.tagName_settles (v : Value) : (FeatureTags.tagName v).Settles := by
  unfold FeatureTags.tagName
  split
  · split
    · exact settles_ok _
    · exact settles_fault _
  · exact settles_fault _

open Tabletop.Field in
theorem Feature.read_settles (fresh : String) (v : Value) : (Feature.read fresh v).Settles := by
  have tags (v : Value) : (FeatureTags.read v).Settles :=
    (listOf_settles FeatureTags.tagName_settles _ v).map _
  refine record_settles (fun es => ?_) v
  have id := withDefault_settles string_settles "id" fresh es
  have name := required_settles string_settles "name" es
  have level := withDefault_settles integer_settles "level" 1 es
  have text := withDefault_settles string_settles "text" "" es
  have tagged := withDefault_settles tags "tags" .manualOnly es
  exact ((((id.map _).seq name).seq level).seq text).seq tagged

theorem readIds_settles (v : Value) : (readIds v).Settles :=
  (Field.listOf_settles Field.string_settles _ v).map _

open Tabletop.Field in
theorem SpellBook.read_settles (v : Value) : (SpellBook.read v).Settles := by
  have ids (v : Value) : (readIdsOrNull v).Settles := by
    unfold readIdsOrNull
    split
    · exact settles_ok _
    · exact readIds_settles _
  refine record_settles (fun es => ?_) v
  exact ((withDefault_settles ids "cantrips" .empty es).map _).seq
    (withDefault_settles ids "known" .empty es)

open Tabletop.Field in
theorem readInfusions_settles (v : Value) : (readInfusions v).Settles :=
  record_settles (fun es => withDefault_settles readIds_settles "learned" .empty es) v

theorem readEach_settles {α : Type} {read : String → Reader α}
    (settles : ∀ fresh v, (read fresh v).Settles) (supply : Supply) (slot i : Nat) (vs : List Value) :
    (readEach read supply slot i vs).Settles := by
  induction vs generalizing slot i with
  | nil => exact settles_ok []
  | cons v vs ih => exact (((settles _ v).within _).map _).seq (ih (slot + 1) (i + 1))

theorem readSlots_settles {α : Type} {read : String → Reader α}
    (settles : ∀ fresh v, (read fresh v).Settles) (supply : Supply) (slot : Nat) (v : Value) :
    (readSlots read supply slot v).Settles := by
  unfold readSlots
  split
  · exact readEach_settles settles supply slot 0 _
  · exact settles_fault _

namespace Character

theorem readScores_settles (scores : Dict String Int) (es : Entries) :
    (Checked.ofExcept (readScores scores es)).Settles ↔ ∀ e ∈ es, (scoreOf e.2).IsBounded := by
  induction es generalizing scores with
  | nil => simp [readScores, Checked.settles_ofExcept_ok]
  | cons e es ih =>
    rw [List.forall_mem_cons]
    exact coerceInt_bind_settles fun score => ih _

theorem readRankEntries_settles (ranks : Dict String Int) (es : Entries) :
    (Checked.ofExcept (readRankEntries ranks es)).Settles ↔ ∀ e ∈ es, e.2.IsBounded := by
  induction es generalizing ranks with
  | nil => simp [readRankEntries, Checked.settles_ofExcept_ok]
  | cons e es ih =>
    rw [List.forall_mem_cons]
    exact coerceInt_bind_settles fun rank => ih _

theorem readAbilities_settles (v : Value) :
    (Checked.ofExcept (readAbilities v)).Settles ↔ ∀ e ∈ v.entriesOrEmpty, (scoreOf e.2).IsBounded := by
  cases v with
  | map es => exact readScores_settles defaultScores es
  | _ => simp [readAbilities, Value.entriesOrEmpty, Checked.settles_ofExcept_ok]

theorem readRanks_settles (v : Value) :
    (Checked.ofExcept (readRanks v)).Settles ↔ ∀ e ∈ v.entriesOrEmpty, e.2.IsBounded := by
  cases v with
  | map es => exact readRankEntries_settles .empty es
  | _ => simp [readRanks, Value.entriesOrEmpty, Checked.settles_ofExcept_ok]

-- saves that are no object are walked through
theorem readSaves_looped {v : Value} (listed : v.isMap = false) :
    readSaves v = (fun keys => .ofList (keys.map fun k => Ability.normalizeKey k.text)) <$> v.looped := by
  unfold readSaves Value.looped
  split
  · contradiction
  · cases v.isTruthy with
    | false => rfl
    | true => rfl

theorem looped_error {v : Value} {cause : Breakdown} (fails : v.looped = .error cause) :
    cause = .notIterable := by
  unfold Value.looped at fails
  split at fails
  · cases v <;> simp_all [Value.members]
  · cases fails

theorem readSaves_settles {v : Value} (json : v.IsJson) :
    (Checked.ofExcept (readSaves v)).Settles ↔ v.IsWalkable := by
  cases map : v.isMap with
  | true =>
    cases v with
    | map es => exact iff_of_true (settles_ok _) trivial
    | _ => contradiction
  | false =>
    rw [readSaves_looped map, ← Value.looped_completes json]
    cases walk : v.looped with
    | ok keys => exact iff_of_true (settles_ok _) (completes_ok keys)
    | error cause =>
      rw [looped_error walk]
      exact iff_of_false (fun settles => settles _ rfl) (completes_error _)

theorem hitPoints_settles (es : Entries) : (Checked.ofExcept (HitPoints.ofEntries es)).Settles ↔
    BoundedField "current" (nonNull es) ∧ BoundedField "max" (nonNull es) ∧
      BoundedField "temp" (nonNull es) := by
  unfold HitPoints.ofEntries
  refine coercedField_bind_settles fun current => coercedField_bind_settles fun most => ?_
  rw [← and_true (BoundedField "temp" (nonNull es))]
  exact coercedField_bind_settles fun temp => iff_of_true (settles_ok _) trivial

structure NumbersAdmit (es : Entries) : Prop where
  level : BoundedField "level" es
  ac : BoundedField "ac" es
  speed : BoundedField "speed" es

structure FieldsAdmit (es : Entries) : Prop where
  current : BoundedField "current" (nonNull (hpEntries es))
  most : BoundedField "max" (nonNull (hpEntries es))
  temp : BoundedField "temp" (nonNull (hpEntries es))
  scores : ∀ e ∈ Value.entriesOrEmpty (Value.field "abilities" es), (scoreOf e.2).IsBounded
  ranks : ∀ e ∈ Value.entriesOrEmpty (Value.field "skill_proficiency_rank" es), e.2.IsBounded
  saves : (Value.field "save_proficiency" es).IsWalkable

theorem settle_settles (es : Entries) : (Checked.ofExcept (settle es)).Settles ↔ NumbersAdmit es := by
  have parts : (Checked.ofExcept (settle es)).Settles ↔
      BoundedField "level" es ∧ BoundedField "ac" es ∧ BoundedField "speed" es ∧ True := by
    unfold settle
    refine coercedField_bind_settles fun level => coercedField_bind_settles fun ac => ?_
    refine coercedField_bind_settles fun speed => iff_of_true ?_ trivial
    exact Checked.ofExcept_bind_settles (Ledger.ofValue_settles _ _) fun _ => settles_ok _
  rw [parts]
  exact ⟨fun ⟨level, ac, speed, _⟩ => ⟨level, ac, speed⟩,
    fun ⟨level, ac, speed⟩ => ⟨level, ac, speed, trivial⟩⟩

theorem settle_completes (es : Entries) :
    Completes (settle es) ↔ NumbersAdmit es ∧ Ledger.IsTold (Value.field "advancement" es) := by
  have parts : Completes (settle es) ↔ BoundedField "level" es ∧ BoundedField "ac" es ∧
      BoundedField "speed" es ∧ Ledger.IsTold (Value.field "advancement" es) := by
    simp only [← coercedField_completes "level" 1, ← coercedField_completes "ac" 10,
      ← coercedField_completes "speed" 30]
    unfold settle
    refine completes_bind fun level => completes_bind fun ac => completes_bind fun speed => ?_
    rw [← Ledger.ofValue_completes (clamp level 1 20)]
    exact completes_bind_pure
  rw [parts]
  exact ⟨fun ⟨level, ac, speed, told⟩ => ⟨⟨level, ac, speed⟩, told⟩,
    fun ⟨⟨level, ac, speed⟩, told⟩ => ⟨level, ac, speed, told⟩⟩

theorem prepared_settles {α : Type} (read : Value → Except Breakdown α) (null : Completes (read .null))
    {name : String} {default : α} {es : Entries} :
    (prepared name default read es).Settles ↔ (Checked.ofExcept (read (Value.field name es))).Settles := by
  rw [prepared, Field.withDefault_settles_iff, Value.field]
  obtain ⟨a, reads⟩ := null
  cases Value.field? name es with
  | none => simp [reads, Checked.settles_ofExcept_ok]
  | some v => simp

theorem abilities_settles (es : Entries) : (prepared "abilities" defaultScores readAbilities es).Settles ↔
    ∀ e ∈ Value.entriesOrEmpty (Value.field "abilities" es), (scoreOf e.2).IsBounded :=
  (prepared_settles readAbilities ⟨_, rfl⟩).trans (readAbilities_settles _)

theorem ranks_settles (es : Entries) : (prepared "skill_proficiency_rank" .empty readRanks es).Settles ↔
    ∀ e ∈ Value.entriesOrEmpty (Value.field "skill_proficiency_rank" es), e.2.IsBounded :=
  (prepared_settles readRanks ⟨_, rfl⟩).trans (readRanks_settles _)

theorem saves_settles {es : Entries} (json : (Value.field "save_proficiency" es).IsJson) :
    (prepared "save_proficiency" .empty readSaves es).Settles ↔
      (Value.field "save_proficiency" es).IsWalkable :=
  (prepared_settles readSaves ⟨_, rfl⟩).trans (readSaves_settles json)

open Tabletop.Field in
theorem readFields_settles {es : Entries} (json : (Value.field "save_proficiency" es).IsJson)
    (supply : Supply) (s : Settled) : (readFields supply es s).Settles ↔ FieldsAdmit es := by
  have text := withDefault_settles string_settles (α := String)
  have name := withDefault_settles (optional_settles string_settles)
  have portrait := withDefault_settles fun v => optional_settles string_settles (portraitOf v)
  have items := withDefault_settles (readSlots_settles Item.read_settles supply 1)
  have features (slot : Nat) := withDefault_settles (readSlots_settles Feature.read_settles supply slot)
  have spells := withDefault_settles SpellBook.read_settles
  have infusions := withDefault_settles readInfusions_settles
  have moments := withDefault_settles moment_settles
  unfold readFields
  simp only [Checked.settles_seq_iff, Checked.settles_map_iff, Checked.settles_within_iff,
    Checked.settles_pure, text, name, portrait, items, features, spells, infusions, moments,
    abilities_settles, hitPoints_settles, ranks_settles, saves_settles json, true_and, and_true]
  constructor
  · rintro ⟨⟨⟨scores, current, most, temp⟩, ranks⟩, saves⟩
    exact ⟨current, most, temp, scores, ranks, saves⟩
  · intro fields
    exact ⟨⟨⟨fields.scores, fields.current, fields.most, fields.temp⟩, fields.ranks⟩, fields.saves⟩

/-- The values of a record that could stop the reading do not: the numbers are not infinite, and the saves
have members. Where the ledger is refused, the fields are not read. -/
structure Admits (es : Entries) : Prop where
  numbers : NumbersAdmit es
  fields : Ledger.IsTold (Value.field "advancement" es) → FieldsAdmit es

theorem ofEntries_settles {es : Entries}
    (json : (Value.field "save_proficiency" (currentNames (nonNull es))).IsJson) (supply : Supply) :
    (ofEntries supply es).Settles ↔ Admits (currentNames (nonNull es)) := by
  unfold ofEntries
  rw [Checked.settles_andThen_iff, settle_settles]
  have reads (s : Settled) : ((readFields supply _ s).map fun c => (c, s.notices)).Settles ↔ _ :=
    Checked.settles_map_iff.trans (readFields_settles json supply s)
  constructor
  · rintro ⟨numbers, settles⟩
    refine ⟨numbers, fun told => ?_⟩
    obtain ⟨s, found⟩ := (settle_completes _).2 ⟨numbers, told⟩
    exact (reads s).1 (settles s (Checked.ofExcept_eq_ok.2 found))
  · rintro ⟨numbers, fields⟩
    refine ⟨numbers, fun s found => ?_⟩
    obtain ⟨-, told⟩ := (settle_completes _).1 ⟨s, Checked.ofExcept_eq_ok.1 found⟩
    exact (reads s).2 (fields told)

theorem givenEntries_json {v : Value} (json : v.IsJson) (name : String) :
    (Value.field name (givenEntries v)).IsJson := by
  have all : ∀ e ∈ givenEntries v, e.2.IsJson :=
    forall_currentNames fun e => (Value.entriesOrEmpty_json json).of_mem
  unfold Value.field
  cases found : Value.field? name (givenEntries v) with
  | none => exact .null
  | some w => exact all _ (mem_of_field? found)

theorem ofValue_settles {v : Value} (json : v.IsJson) (supply : Supply) :
    (ofValue supply v).Settles ↔ Admits (givenEntries v) := by
  have saves := givenEntries_json json "save_proficiency"
  have entries := ofEntries_settles saves supply
  unfold ofValue
  cases v with
  | map es =>
    cases es with
    | nil => exact entries
    | cons e es => exact entries
  | _ =>
    have new : (ofEntries supply []).Settles := settles_ok _
    refine iff_of_true ?_ (entries.1 new)
    split
    · exact settles_fault .modelType
    · exact new

/-- A JSON record is read or refused exactly if it admits being read, and a character that is read from it
has a name, all its numbers in their ranges, and a ledger of levels that each hold something. -/
theorem ofValue_admits {v : Value} (json : v.IsJson) (supply : Supply) :
    match ofValue supply v with
    | .ok (c, _) => Admits (givenEntries v) ∧ c.InRange ∧ c.name.isEmpty = false ∧
        ∀ e ∈ c.advancement.entries, (∃ n : Nat, e.1 = n.repr) ∧ e.2.isEmpty = false
    | .refused _ => Admits (givenEntries v)
    | .broken _ => ¬ Admits (givenEntries v) := by
  rw [← ofValue_settles json supply]
  cases reads : ofValue supply v with
  | ok result =>
    obtain ⟨c, notices⟩ := result
    have inRange := ofValue_inRange reads
    obtain ⟨s, -, fields⟩ := ofValue_fields reads
    have named := name_filled (allPlain_givenEntries json.proper.plain) (readFields_eq_ok fields).name
    refine ⟨settles_ok _, inRange, named, fun e member => ?_⟩
    obtain ⟨key, filled⟩ := inRange.ledger e member
    exact ⟨key.eq_repr, filled⟩
  | refused faults => exact Checked.settles_refused faults
  | broken cause => exact fun settles => settles cause rfl

open Recruit in
theorem ofValue_admits_recruit :
    record.IsJson ∧ ∃ notices, ofValue supply record = .ok (hero, notices) ∧
      Admits (givenEntries record) ∧ hero.InRange := by
  obtain ⟨notices, reads⟩ := hero_read
  have admits := ofValue_admits record_json supply
  rw [reads] at admits
  exact ⟨record_json, notices, reads, admits.1, admits.2.1⟩

open Recruit Ruleset.Primer in
/-- An infinite level and saves that are a number stop the reading. -/
theorem unadmitted_recruit :
    (single "level" (.float (.infinite false))).IsJson ∧
      ofValue supply (single "level" (.float (.infinite false))) = .broken .infiniteNumber ∧
      (single "save_proficiency" (.int 5)).IsJson ∧
      ofValue supply (single "save_proficiency" (.int 5)) = .broken .notIterable :=
  ⟨single_json _ (.float _), rfl, single_json _ (.int 5), rfl⟩

end Character

end Tabletop

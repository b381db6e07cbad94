import Tabletop.Sheet
import Tabletop.Proofs.CleanLedger
import Tabletop.Proofs.LevelTables
import Tabletop.Proofs.Rereading

set_option autoImplicit false

namespace Tabletop

theorem completes_mapM {ε α β : Type} {f : α → Except ε β} {xs : List α} :
    Completes (xs.mapM f) ↔ ∀ x ∈ xs, Completes (f x) := by
  induction xs with
  | nil => simp
  | cons x xs ih =>
    rw [List.mapM_cons, List.forall_mem_cons, ← ih]
    apply completes_bind
    intro y
    exact completes_map

namespace Stats

def slotTable (c : Character) (ruleset? : Option Ruleset) : Dict String (Dict String Int) :=
  ((ruleset?.bind fun r => r.class? c.classId).map ClassDef.spellSlots).getD .empty

def IsNumbered (table : Dict String (Dict String Int)) : Prop :=
  ∀ key ∈ table.keys, Text.isDigits key = true → Text.IsNumeral key

def countAt (table : Dict String (Dict String Int)) (level : Nat) (slot : String) : Option Int :=
  (table.get? level.repr).bind fun slots => slots.get? slot

theorem slotsOf_eq (c : Character) (ruleset? : Option Ruleset) (level : Int) :
    slotsOf (ruleset?.bind fun r => r.class? c.classId) level =
      slotsAt typedChunk (slotTable c ruleset?).entries level := by
  unfold slotTable
  cases ruleset?.bind fun r => r.class? c.classId with
  | none => simp [slotsOf, slotsAt, levelKeys, sortedKeys, mergeChunks, Dict.empty]
  | some class_ => rfl

theorem typedChunk_completes {table : List (String × Dict String Int)} :
    ∀ e ∈ table, Completes (typedChunk e.2) :=
  fun e _ => completes_ok e.2.entries

theorem given_typed (table : Dict String (Dict String Int)) (slot : String) (n : Nat) :
    given typedChunk table.entries slot n = countAt table n slot := by
  rw [given, countAt, entryAt_entries]
  cases table.get? n.repr with
  | none => rfl
  | some slots =>
    change (Dict.ofList slots.entries).get? slot = slots.get? slot
    rw [Dict.ofList_entries]

theorem derive_eq_ok {c : Character} {ruleset? : Option Ruleset} {stats : DerivedStats}
    (derives : derive c ruleset? = .ok stats) :
    slotsAt typedChunk (slotTable c ruleset?).entries (clamp c.level 1 20) = .ok stats.spellSlots ∧
      stats.modifiers.map (·.1) = Ability.keys ∧ stats.saves.map (·.1) = Ability.keys ∧
      stats.skills.map (·.1) = skills.map (·.1) := by
  simp only [derive, slotsOf_eq, bind_eq_ok, pure_eq_ok] at derives
  obtain ⟨slots, merged, rfl⟩ := derives
  exact ⟨merged, rfl, rfl, rfl⟩

theorem derive_completes (c : Character) (ruleset? : Option Ruleset) :
    Completes (derive c ruleset?) ↔ IsNumbered (slotTable c ruleset?) := by
  simp only [derive, slotsOf_eq]
  exact completes_map.trans (slotsAt_completes typedChunk_completes _)

theorem mem_slots {table : Dict String (Dict String Int)} {level : Int} {slots : Dict String Int}
    (merged : slotsAt typedChunk table.entries level = .ok slots) {slot : String} {count : Int} :
    (slot, count) ∈ slots.entries ↔ ∃ n : Nat, (n : Int) ≤ level ∧ countAt table n slot = some count ∧
      ∀ m : Nat, (m : Int) ≤ level → (countAt table m slot).isSome = true → m ≤ n := by
  have held : (slot, count) ∈ slots.entries ↔ slots.get? slot = some count :=
    ⟨Dict.find?_of_mem slots.distinct, Dict.mem_of_get?⟩
  rw [held, (slotsAt_get? typedChunk_completes merged slot).1]
  simp only [given_typed]

theorem mem_slots_names {table : Dict String (Dict String Int)} {level : Int} {slots : Dict String Int}
    (merged : slotsAt typedChunk table.entries level = .ok slots) (slot : String) :
    slot ∈ slots.keys ↔ ∃ n : Nat, (n : Int) ≤ level ∧ (countAt table n slot).isSome = true := by
  have absent := (slotsAt_get? typedChunk_completes merged slot).2
  simp only [given_typed] at absent
  rw [← Dict.contains_iff, Dict.contains, Option.isSome_iff_ne_none, Ne, absent]
  simp [Option.isSome_iff_ne_none]

end Stats

namespace Sheet

structure IsWritable (c : Character) : Prop where
  current : IsWritten c.hp.current
  most : IsWritten c.hp.max
  temp : IsWritten c.hp.temp
  ac : IsWritten c.ac
  speed : IsWritten c.speed
  features : ∀ f ∈ c.features, IsWritten f.level

/-- Every slot that the level gives has a number for a name, and its count can be written out. -/
structure ShowsSlots (table : Dict String (Dict String Int)) (level : Int) : Prop where
  names : ∀ (n : Nat) slot, (n : Int) ≤ level → (Stats.countAt table n slot).isSome = true →
    ∃ i, integerOf slot = .ok i
  counts : ∀ (n : Nat) slot count, (n : Int) ≤ level → Stats.countAt table n slot = some count →
    (∀ m : Nat, (m : Int) ≤ level → (Stats.countAt table m slot).isSome = true → m ≤ n) →
    IsWritten count

theorem written_completes (n : Int) : Completes (written n) ↔ IsWritten n := by
  by_cases short : IsWritten n
  · simp [short, short.text]
  · simp [short, written_fails short]

theorem valueOf_completes {key : String} {table : List (String × Int)} (named : key ∈ table.map (·.1)) :
    ∃ n, valueOf key table = .ok n ∧ (key, n) ∈ table := by
  unfold valueOf
  cases found : table.lookup key with
  | none =>
    rw [List.lookup_eq_none_iff] at found
    obtain ⟨e, member, rfl⟩ := List.mem_map.1 named
    simpa using found e member
  | some n =>
    obtain ⟨before, after, rfl, -⟩ := List.lookup_eq_some_iff.1 found
    exact ⟨n, rfl, by simp⟩

theorem headLines_completes {c : Character} (inRange : c.InRange) (stats : DerivedStats) :
    Completes (headLines c stats) ↔ IsWritten c.hp.current ∧ IsWritten c.hp.max ∧
      IsWritten c.hp.temp ∧ IsWritten c.ac ∧ IsWritten c.speed := by
  have level : Completes (written c.level) := by
    rw [written_completes]
    exact isWritten_of_bounds (by have := inRange.level; omega) (by have := inRange.level; omega)
  simp only [← written_completes]
  refine Iff.trans ?_ (and_iff_right level)
  unfold headLines
  refine completes_bind fun _ => completes_bind fun _ => completes_bind fun _ => ?_
  exact completes_bind fun _ => completes_bind fun _ => completes_bind_pure

theorem abilityLine_completes {c : Character} (inRange : c.InRange) {stats : DerivedStats} {key : String}
    (ability : key ∈ Ability.keys) (modifiers : key ∈ stats.modifiers.map (·.1))
    (saves : key ∈ stats.saves.map (·.1)) : Completes (abilityLine c stats key) := by
  obtain ⟨score, found, member⟩ := valueOf_completes (inRange.six.subset ability)
  have bounds := inRange.scores _ member
  obtain ⟨text, writes⟩ := (written_completes score).2 (isWritten_of_bounds (by omega) bounds.2)
  obtain ⟨modifier, first, -⟩ := valueOf_completes modifiers
  obtain ⟨save, second, -⟩ := valueOf_completes saves
  unfold abilityLine
  rw [found, ok_bind, writes, ok_bind, first, ok_bind, second]
  exact completes_ok _

theorem skillLine_completes (c : Character) {stats : DerivedStats} {skill : String} (title : String)
    (skills : skill ∈ stats.skills.map (·.1)) : Completes (skillLine c stats skill title) := by
  obtain ⟨total, found, -⟩ := valueOf_completes skills
  unfold skillLine
  rw [found]
  exact completes_ok _

theorem numberSlots_completes (es : List (String × Int)) :
    Completes (numberSlots es) ↔ ∀ e ∈ es, Completes (integerOf e.1) := by
  induction es with
  | nil => simp [numberSlots]
  | cons e es ih =>
    rw [List.forall_mem_cons, ← ih]
    exact completes_bind fun _ => completes_map

theorem numberSlots_eq_ok {es : List (String × Int)} {slots : List (Int × String × Int)}
    (numbers : numberSlots es = .ok slots) : slots.map (·.2) = es := by
  induction es generalizing slots with
  | nil =>
    cases numbers
    rfl
  | cons e es ih =>
    simp only [numberSlots, bind_eq_ok, pure_eq_ok] at numbers
    obtain ⟨i, -, rest, others, rfl⟩ := numbers
    rw [List.map_cons, ih others]

theorem slotText_completes (e : Int × String × Int) : Completes (slotText e) ↔ IsWritten e.2.2 := by
  rw [slotText, completes_bind_pure, written_completes]

theorem slotLines_completes (stats : DerivedStats) : Completes (slotLines stats) ↔
    ∀ e ∈ stats.spellSlots.entries, Completes (integerOf e.1) ∧ IsWritten e.2 := by
  unfold slotLines
  split
  · rename_i empty
    have none : stats.spellSlots.entries = [] := List.isEmpty_iff.1 empty
    simp [none]
  · rw [forall₂_and, ← numberSlots_completes]
    apply completes_bind_of_ok
    intro slots numbers
    rw [completes_bind_pure, completes_mapM, ← numberSlots_eq_ok numbers, List.forall_mem_map]
    simp only [List.mem_mergeSort, slotText_completes]

theorem featureLines_completes (c : Character) :
    Completes (featureLines c) ↔ ∀ f ∈ c.features, IsWritten f.level := by
  unfold featureLines
  split
  · rename_i empty
    simp [List.isEmpty_iff.1 empty]
  · rw [completes_bind_pure, completes_mapM]
    simp only [List.mem_mergeSort, featureLine, completes_bind_pure, written_completes]

theorem auditLines_completes {c : Character} (inRange : c.InRange) (ruleset? : Option Ruleset) :
    Completes (auditLines c ruleset?) := by
  cases ruleset? with
  | none => exact completes_ok _
  | some r =>
    apply completes_map.2
    unfold Character.audit
    cases r.class? c.classId with
    | none => exact completes_ok _
    | some class_ =>
      obtain ⟨levels, applied, -⟩ := Character.appliedLevels_eq_ok inRange.ledger
      rw [applied]
      exact completes_ok _

theorem showsSlots_iff {table : Dict String (Dict String Int)} {level : Int} {slots : Dict String Int}
    (merged : Stats.slotsAt Stats.typedChunk table.entries level = .ok slots) :
    (∀ e ∈ slots.entries, Completes (integerOf e.1) ∧ IsWritten e.2) ↔ ShowsSlots table level := by
  constructor
  · intro all
    constructor
    · intro n slot below gives
      have named := (Stats.mem_slots_names merged slot).2 ⟨n, below, gives⟩
      obtain ⟨e, member, rfl⟩ := List.mem_map.1 named
      exact (all e member).1
    · intro n slot count below gives highest
      have member := (Stats.mem_slots merged).2 ⟨n, below, gives, highest⟩
      exact (all _ member).2
  · rintro shows ⟨slot, count⟩ member
    obtain ⟨n, below, gives, highest⟩ := (Stats.mem_slots merged).1 member
    exact ⟨shows.names n slot below (by rw [gives]; rfl), shows.counts n slot count below gives highest⟩

/-- The numbers of a character can be derived if the digits among the keys of its class's slot table are
numerals, and its sheet can be shown if, beyond that, the slots have numbers for names and no number has
too many digits. Nothing else in the record or the ruleset stands in the way. -/
theorem render_completes {supply : Supply} {v : Value} {c : Character} {notices : List Notice}
    (reads : Character.ofValue supply v = .ok (c, notices)) (ruleset? : Option Ruleset) :
    ((∃ stats, Stats.derive c ruleset? = .ok stats) ↔ Stats.IsNumbered (Stats.slotTable c ruleset?)) ∧
      ((∃ text, render c ruleset? = .ok text) ↔ Stats.IsNumbered (Stats.slotTable c ruleset?) ∧
        IsWritable c ∧ ShowsSlots (Stats.slotTable c ruleset?) c.level) := by
  have inRange := Character.ofValue_inRange reads
  have derives := Stats.derive_completes c ruleset?
  refine ⟨derives, ?_⟩
  rw [← derives]
  apply completes_bind_of_ok
  intro stats found
  obtain ⟨merged, modifiers, saves, skills⟩ := Stats.derive_eq_ok found
  rw [clamp_of_mem inRange.level.1 inRange.level.2] at merged
  have abilities : Completes (Ability.keys.mapM (abilityLine c stats)) := by
    apply completes_mapM.2
    intro key ability
    exact abilityLine_completes inRange ability (modifiers ▸ ability) (saves ▸ ability)
  have totals : Completes (Stats.skills.mapM fun k => skillLine c stats k.1 k.2.2) := by
    apply completes_mapM.2
    intro k member
    exact skillLine_completes c k.2.2 (skills ▸ List.mem_map_of_mem member)
  have audited := auditLines_completes inRange ruleset?
  refine (completes_bind fun _ => completes_bind fun _ => completes_bind fun _ => completes_bind fun _ =>
    completes_bind fun _ => completes_bind_pure).trans ?_
  rw [headLines_completes inRange, slotLines_completes, showsSlots_iff merged, featureLines_completes]
  constructor
  · rintro ⟨⟨current, most, temp, ac, speed⟩, -, -, slots, features, -⟩
    exact ⟨⟨current, most, temp, ac, speed, features⟩, slots⟩
  · intro ⟨writable, slots⟩
    have ⟨current, most, temp, ac, speed, features⟩ := writable
    exact ⟨⟨current, most, temp, ac, speed⟩, abilities, totals, slots, features, audited⟩

end Sheet

-- a character and the slots of its class

namespace Recruit

open Ruleset.Primer (shelved single)

def castingPrimer (slots : Value) : Value :=
  .map [(.str "meta", single "id" (.str "r")),
    (.str "classes", single "wizard" (single "spellSlots" slots))]

def castingRules (slots : Value) : Except Failure Ruleset :=
  (Ruleset.ofDocument shelved (castingPrimer slots)).result

theorem hero_writable : Sheet.IsWritable hero := by
  refine ⟨?_, ?_, ?_, ?_, ?_, ?_⟩ <;> unfold IsWritten <;> decide +kernel

def firstSlots : Dict String (Dict String Int) :=
  .ofList [("1", .ofList [("1", 2)])]

theorem firstSlots_numbered : Stats.IsNumbered firstSlots := by
  unfold Stats.IsNumbered
  decide +kernel

theorem firstSlots_shown (level : Int) : Sheet.ShowsSlots firstSlots level := by
  have counted {n : Nat} {slot : String} {count : Int}
      (gives : Stats.countAt firstSlots n slot = some count) : slot = "1" ∧ count = 2 := by
    obtain ⟨slots, there, given⟩ := Option.bind_eq_some_iff.1 gives
    have only := Dict.mem_of_mem_ofList (Dict.mem_of_get? there)
    simp only [List.mem_singleton, Prod.mk.injEq] at only
    rw [only.2] at given
    simpa using Dict.mem_of_mem_ofList (Dict.mem_of_get? given)
  constructor
  · intro n slot _ gives
    obtain ⟨count, gives⟩ := Option.isSome_iff_exists.1 gives
    exact ⟨1, by rw [(counted gives).1]; decide +kernel⟩
  · intro n slot count _ gives _
    rw [(counted gives).2]
    exact isWritten_of_bounds (by decide) (by decide)

end Recruit

open Recruit Ruleset.Primer in
theorem Sheet.render_completes_recruit :
    (∃ notices, Character.ofValue supply record = .ok (hero, notices)) ∧
      ∃ r, castingRules (single "1" (single "1" (.int 2))) = .ok r ∧
        (∃ stats, Stats.derive hero (some r) = .ok stats) ∧
        ∃ text, Sheet.render hero (some r) = .ok text := by
  obtain ⟨notices, reads⟩ := hero_read
  refine ⟨⟨notices, reads⟩, _, ok_of_get (by decide +kernel), ?_⟩
  generalize known : (castingRules (single "1" (single "1" (.int 2)))).toOption.get _ = r
  have table : Stats.slotTable hero (some r) = firstSlots := by
    rw [← known]
    decide +kernel
  obtain ⟨derives, renders⟩ := Sheet.render_completes reads (some r)
  rw [table] at derives renders
  exact ⟨derives.2 firstSlots_numbered, renders.2 ⟨firstSlots_numbered, hero_writable, firstSlots_shown _⟩⟩

open Recruit Ruleset.Primer in
/-- With a superscript among the levels of the table nothing is derived, and with a slot that has a word for
its name there is no sheet. -/
theorem Sheet.unrendered_recruit :
    (∃ notices, Character.ofValue supply record = .ok (hero, notices)) ∧
      (∃ r, castingRules (single "²" (single "1" (.int 2))) = .ok r ∧
        ¬ ∃ stats, Stats.derive hero (some r) = .ok stats) ∧
      ∃ r, castingRules (single "1" (single "pact" (.int 2))) = .ok r ∧
        (∃ stats, Stats.derive hero (some r) = .ok stats) ∧
        ¬ ∃ text, Sheet.render hero (some r) = .ok text := by
  have absent {ε α : Type} {x : Except ε α} (none : x.toOption.isSome = false) : ¬ ∃ a, x = .ok a := by
    rintro ⟨a, rfl⟩
    contradiction
  refine ⟨hero_read, ⟨_, ok_of_get (by decide +kernel), absent (by decide +kernel)⟩, ?_⟩
  refine ⟨_, ok_of_get (by decide +kernel), ⟨_, ok_of_get (by decide +kernel)⟩, absent ?_⟩
  decide +kernel

end Tabletop

import Tabletop.Proofs.PoolKeys

set_option autoImplicit false

namespace Tabletop

theorem IdSet.contains_iff {s : IdSet} {id : String} : s.contains id = true ↔ id ∈ s := by
  rw [contains, List.contains_iff_mem, mem_def]

def PoolOption.IsOpen (o : PoolOption) : Prop :=
  o.requirements.bind (·.classId) = none ∧ o.lists = []

namespace ChoiceFilter

/-- The class that options are wanted for: the one that the filter names, or else the character's. -/
def Wants (f : ChoiceFilter) (classId : Option String) (id : String) : Prop :=
  f.classId = some id ∧ id ≠ "" ∨ (∀ named, f.classId = some named → named = "") ∧ classId = some id

/-- What a filter asks of an option, and the option of a character. What is absent asks for nothing, and
neither does an empty text; an option that names no level asks for level 0. -/
structure Qualifies (f : ChoiceFilter) (classId subclassId : Option String) (level : Int) (o : PoolOption) :
    Prop where
  ofClass : o.IsOpen ∨
    ∃ id, f.Wants classId id ∧ (o.requirements.bind (·.classId) = some id ∨ id ∈ o.lists)
  reached : (o.requirements.bind (·.minLevel)).getD 0 ≤ level
  aboveFloor : ∀ floor own, f.minLevel = some floor → o.level = some own → floor ≤ own
  tagged : ∀ tag, f.tag = some tag → tag ≠ "" → tag ∈ o.tags
  anyTag : f.tagsAny ≠ [] → ∃ tag ∈ f.tagsAny, tag ∈ o.tags
  allTags : ∀ tag ∈ f.tagsAll, tag ∈ o.tags
  ofSubclass : ∀ wanted own, o.requirements.bind (·.subclass) = some wanted → subclassId = some own →
    wanted ≠ "" → own ≠ "" → wanted = own

variable {f : ChoiceFilter} {classId subclassId : Option String} {a b level : Int} {o : PoolOption}
  {pool : List PoolOption}

-- each test of an option, and what it asks

theorem wantedClass_eq_some {id : String} : f.wantedClass classId = some id ↔ f.Wants classId id := by
  unfold wantedClass Wants
  cases f.classId with
  | none => simp [given]
  | some named =>
    by_cases blank : named = ""
    · simp [given, blank]
    · simp [given, blank]
      grind

theorem matchesClass_iff : o.matchesClass (f.wantedClass classId) = true ↔
    o.IsOpen ∨ ∃ id, f.Wants classId id ∧ (o.requirements.bind (·.classId) = some id ∨ id ∈ o.lists) := by
  simp only [← wantedClass_eq_some, PoolOption.IsOpen]
  change _ ↔ o.requiredClass = none ∧ o.lists = [] ∨ ∃ id, _ ∧ (o.requiredClass = some id ∨ id ∈ o.lists)
  cases f.wantedClass classId <;> simp [PoolOption.matchesClass, or_assoc]

theorem aboveFloor_iff : o.aboveFloor f.minLevel = true ↔
    ∀ floor own, f.minLevel = some floor → o.level = some own → floor ≤ own := by
  unfold PoolOption.aboveFloor
  cases f.minLevel <;> cases o.level <;> simp

theorem matchesTags_iff : f.matchesTags o = true ↔
    (∀ tag, f.tag = some tag → tag ≠ "" → tag ∈ o.tags) ∧
      (f.tagsAny ≠ [] → ∃ tag ∈ f.tagsAny, tag ∈ o.tags) ∧ ∀ tag ∈ f.tagsAll, tag ∈ o.tags := by
  have some : (f.tagsAny.isEmpty || f.tagsAny.any o.tags.contains) = true ↔
      (f.tagsAny ≠ [] → ∃ tag ∈ f.tagsAny, tag ∈ o.tags) := by
    cases f.tagsAny <;> simp [IdSet.contains_iff]
  have all : f.tagsAll.all o.tags.contains = true ↔ ∀ tag ∈ f.tagsAll, tag ∈ o.tags := by
    simp [IdSet.contains_iff]
  rw [matchesTags, Bool.and_eq_true, Bool.and_eq_true, some, all, and_assoc]
  refine and_congr_left fun _ => ?_
  cases f.tag with
  | none => simp [given]
  | some tag => by_cases blank : tag = "" <;> simp [given, blank, IdSet.contains_iff]

theorem matchesSubclass_iff : o.matchesSubclass subclassId = true ↔
    ∀ wanted own, o.requirements.bind (·.subclass) = some wanted → subclassId = some own →
      wanted ≠ "" → own ≠ "" → wanted = own := by
  unfold PoolOption.matchesSubclass
  cases o.requirements.bind (·.subclass) <;> cases subclassId <;> simp [or_iff_not_imp_left]

theorem admits_iff : f.admits classId subclassId level o = true ↔ f.Qualifies classId subclassId level o := by
  have reached : decide (o.requiredLevel ≤ level) = true ↔ (o.requirements.bind (·.minLevel)).getD 0 ≤ level :=
    decide_eq_true_iff
  simp only [admits, Bool.and_eq_true, matchesClass_iff, reached, aboveFloor_iff, matchesTags_iff,
    matchesSubclass_iff]
  constructor
  · rintro ⟨⟨⟨⟨ofClass, reached⟩, aboveFloor⟩, tagged, anyTag, allTags⟩, ofSubclass⟩
    exact ⟨ofClass, reached, aboveFloor, tagged, anyTag, allTags, ofSubclass⟩
  · rintro ⟨ofClass, reached, aboveFloor, tagged, anyTag, allTags, ofSubclass⟩
    exact ⟨⟨⟨⟨ofClass, reached⟩, aboveFloor⟩, tagged, anyTag, allTags⟩, ofSubclass⟩

theorem mem_apply : o ∈ f.apply classId subclassId level pool ↔
    o ∈ pool ∧ f.Qualifies classId subclassId level o := by
  rw [apply, List.mem_filter, admits_iff]

-- who qualifies at one level does so at any higher one, and without a subclass

theorem Qualifies.raised (qualifies : f.Qualifies classId subclassId a o) (higher : a ≤ b) :
    f.Qualifies classId subclassId b o :=
  { qualifies with reached := le_trans qualifies.reached higher }

theorem Qualifies.unbound (qualifies : f.Qualifies classId subclassId level o) :
    f.Qualifies classId none level o :=
  { qualifies with ofSubclass := nofun }

theorem apply_sublist {other : Option String}
    (implies : ∀ o, f.Qualifies classId subclassId a o → f.Qualifies classId other b o) :
    (f.apply classId subclassId a pool).Sublist (f.apply classId other b pool) := by
  refine List.monotone_filter_right pool fun o admitted => ?_
  rw [admits_iff] at admitted ⊢
  exact implies o admitted

theorem apply_apply : f.apply classId subclassId level (f.apply classId subclassId level pool) =
    f.apply classId subclassId level pool := by
  rw [apply, List.filter_eq_self]
  exact fun o offered => (List.mem_filter.1 offered).2

end ChoiceFilter

namespace Ruleset

open ChoiceFilter (Qualifies)

variable {r : Ruleset} {choice : Choice} {pool : List PoolOption}

/-- If the key of a choice names a pool, then the options that qualify are offered from it, whatever the level,
the class and the subclass, and in the order of the pool. None is lost on the way to a higher level, none is
gained by a subclass, and to narrow them again changes nothing. -/
theorem optionsFor_qualified (resolved : r.resolvePool choice.source = .ok pool) (classId : Option String) :
    ∃ offered : Option String → Int → List PoolOption,
      (∀ subclassId level, r.optionsFor classId choice level subclassId = .ok (offered subclassId level)) ∧
      (∀ subclassId a b, a ≤ b → (offered subclassId a).Sublist (offered subclassId b) ∧
        (offered subclassId b).Sublist pool) ∧
      (∀ subclassId level, (offered subclassId level).Sublist (offered none level)) ∧
      (∀ subclassId level, choice.filter.apply classId subclassId level (offered subclassId level) =
        offered subclassId level) ∧
      ∀ subclassId level o, o ∈ offered subclassId level ↔
        o ∈ pool ∧ Qualifies choice.filter classId subclassId level o := by
  refine ⟨fun subclassId level => choice.filter.apply classId subclassId level pool, ?_, ?_, ?_, ?_, ?_⟩
  · intro subclassId level
    rw [optionsFor, resolved]
    rfl
  · intro subclassId a b higher
    exact ⟨ChoiceFilter.apply_sublist fun o qualifies => qualifies.raised higher, List.filter_sublist⟩
  · exact fun subclassId level => ChoiceFilter.apply_sublist fun o qualifies => qualifies.unbound
  · exact fun subclassId level => ChoiceFilter.apply_apply
  · exact fun subclassId level o => ChoiceFilter.mem_apply

-- spells of which two can be had as wards: one from level 3 on, the other by evokers only

namespace Primer

def spell (id : String) (level : Int) (fields : List (String × Value)) : Value :=
  .map ([(.str "id", .str id), (.str "level", .int level)] ++ fields.map fun e => (.str e.1, e.2))

def armoryBook : Value :=
  .map [(.str "meta", single "id" (.str "r")), (.str "classes", .map []), (.str "spells", .list [
    spell "light" 0 [],
    spell "shell" 1 [("tags", .list [.str "ward"]), ("lists", .list [.str "wizard"]),
      ("requires", single "minLevel" (.int 3))],
    spell "blaze" 2 [("tags", .list [.str "ward", .str "fire"]),
      ("requires", .map [(.str "class", .str "wizard"), (.str "subclass", .str "evoker")])],
    spell "hymn" 1 [("tags", .list [.str "ward"]), ("lists", .list [.str "cleric"])]])]

def armory : Ruleset :=
  (ofDocument shelved armoryBook).result.toOption.get (by decide +kernel)

def wards : Choice := ⟨"w", "", "", "spells", ⟨none, some 1, some "", ["ward", "wall"], []⟩, 1⟩

end Primer

open Primer in
theorem optionsFor_qualified_armory :
    armory.resolvePool wards.source = .ok armory.pools.spells ∧
      ∃ offered : Option String → Int → List PoolOption,
        (∀ subclassId level,
          armory.optionsFor (some "wizard") wards level subclassId = .ok (offered subclassId level)) ∧
        (∀ subclassId a b, a ≤ b → (offered subclassId a).Sublist (offered subclassId b) ∧
          (offered subclassId b).Sublist armory.pools.spells) ∧
        (∀ subclassId level, (offered subclassId level).Sublist (offered none level)) ∧
        (∀ subclassId level, wards.filter.apply (some "wizard") subclassId level (offered subclassId level) =
          offered subclassId level) ∧
        (∀ subclassId level o, o ∈ offered subclassId level ↔
          o ∈ armory.pools.spells ∧ Qualifies wards.filter (some "wizard") subclassId level o) ∧
        (offered none 2).map (·.id) = ["blaze"] ∧ (offered none 3).map (·.id) = ["shell", "blaze"] ∧
        (offered (some "abjurer") 3).map (·.id) = ["shell"] := by
  have resolved : armory.resolvePool wards.source = .ok armory.pools.spells := by decide +kernel
  obtain ⟨offered, offers, rest⟩ := optionsFor_qualified resolved (some "wizard")
  have named {subclassId : Option String} {level : Int} {ids : List String}
      (found : (armory.optionsFor (some "wizard") wards level subclassId).map (·.map (·.id)) = .ok ids) :
      (offered subclassId level).map (·.id) = ids := by
    rw [offers] at found
    exact Except.ok.inj found
  exact ⟨resolved, offered, offers, rest.1, rest.2.1, rest.2.2.1, rest.2.2.2, named (by decide +kernel),
    named (by decide +kernel), named (by decide +kernel)⟩

end Ruleset

end Tabletop

import Tabletop.Advancement.Audit
import Tabletop.Proofs.Ascent

set_option autoImplicit false

namespace Tabletop

open Character (committed)

namespace Ledger

variable {l : Ledger}

theorem Keyed.toDigits (keyed : l.Keyed) :
    (l.entries.filter fun e => Text.isDigits e.1 && !e.2.isEmpty) = l.entries := by
  apply List.filter_eq_self.2
  intro e member
  obtain ⟨⟨digits, -⟩, filled⟩ := keyed e member
  simp [digits, filled]

end Ledger

namespace Character

variable {c : Character}

theorem integersOf_keys {keys : List String} (all : ∀ key ∈ keys, IsLevelKey key) :
    ∃ ns, integersOf keys = .ok ns ∧ ns.map toString = keys := by
  induction keys with
  | nil => exact ⟨[], rfl, rfl⟩
  | cons key keys ih =>
    rw [List.forall_mem_cons] at all
    obtain ⟨⟨-, n, read, text⟩, rest⟩ := all
    obtain ⟨ns, reads, texts⟩ := ih rest
    refine ⟨n :: ns, ?_, by rw [List.map_cons, text, texts]⟩
    simp [integersOf, read, reads, bind, Except.bind, pure, Except.pure]

theorem isApplied_iff (keyed : Ledger.Keyed c.advancement) (level : Int) :
    c.isApplied level = true ↔ toString level ∈ c.advancement.keys := by
  unfold isApplied record?
  cases found : c.advancement.get? (toString level) with
  | none => simpa using Dict.get?_eq_none_iff.1 found
  | some record =>
    have member := Dict.mem_of_get? found
    have filled : record.isEmpty = false := (keyed _ member).2
    have key : toString level ∈ c.advancement.keys := List.mem_map_of_mem (f := (·.1)) member
    simpa [filled] using key

-- the keys of the ledger, read as the levels that they stand for
theorem appliedLevels_keys (keyed : Ledger.Keyed c.advancement) :
    ∃ ns : List Int, ns.map toString = c.advancement.keys ∧
      c.appliedLevels = .ok (ns.mergeSort fun a b => decide (a ≤ b)) := by
  have keys : c.appliedKeys = c.advancement.keys := by
    rw [appliedKeys, Ledger.Keyed.toDigits keyed]
    rfl
  have all : ∀ key ∈ c.advancement.keys, IsLevelKey key := by
    intro key member
    obtain ⟨e, there, rfl⟩ := List.mem_map.1 member
    exact (keyed e there).1
  obtain ⟨ns, read, texts⟩ := integersOf_keys all
  exact ⟨ns, texts, by rw [appliedLevels, keys, read]; rfl⟩

theorem appliedLevels_eq_ok (keyed : Ledger.Keyed c.advancement) :
    ∃ ns, c.appliedLevels = .ok ns ∧ ∀ level, level ∈ ns ↔ c.isApplied level = true := by
  obtain ⟨ns, texts, listed⟩ := appliedLevels_keys keyed
  refine ⟨_, listed, fun level => ?_⟩
  rw [List.mem_mergeSort, isApplied_iff keyed, ← texts, List.mem_map]
  constructor
  · exact fun member => ⟨level, member, rfl⟩
  · rintro ⟨n, member, same⟩
    rwa [← levelText_injective same]

/-- Checking the character against the ruleset finds nothing to report. -/
def Clean (r : Ruleset) (c : Character) : Prop :=
  (audit r c).map Report.issues = .ok []

/-- The ledger is as the class has it: no level is left out, none is above the character's, and every record
is one of the choices of its level. -/
structure Complies (class_ : ClassDef) (c : Character) : Prop where
  filled : ∀ level ∈ class_.levels, 1 < level → level ≤ c.level → c.isApplied level = true
  below : ∀ level, c.isApplied level = true → level ≤ c.level
  declared : ∀ level, c.isApplied level = true → staleChoices class_ c level = []

variable {r : Ruleset} {class_ : ClassDef} {applied : List Int}

theorem report_nil_iff {α β : Type} (found : List α) (issue : β) :
    (if found.isEmpty then [] else [issue]) = [] ↔ found = [] := by
  cases found <;> simp

theorem pendingIssues_nil_iff : pendingIssues class_ c applied = [] ↔
    ∀ level ∈ class_.levels, 1 < level → level ≤ c.level → level ∈ applied := by
  apply (report_nil_iff ..).trans
  simp [List.filter_eq_nil_iff]

theorem aboveIssues_nil_iff : aboveIssues c applied = [] ↔ ∀ level ∈ applied, level ≤ c.level := by
  apply (report_nil_iff ..).trans
  simp [List.filter_eq_nil_iff]

theorem staleIssues_nil_iff {level : Int} :
    staleIssues class_ c level = [] ↔ staleChoices class_ c level = [] :=
  report_nil_iff ..

theorem clean_iff (keyed : Ledger.Keyed c.advancement) :
    c.Clean r ↔ ∃ class_, r.class? c.classId = some class_ ∧ Complies class_ c := by
  obtain ⟨ns, listed, applied⟩ := appliedLevels_eq_ok keyed
  unfold Clean audit
  cases found : r.class? c.classId with
  | none => simp [Except.map]
  | some class_ =>
    have each (level : Int) : level ∈ appliedSet ns ↔ c.isApplied level = true := by
      rw [appliedSet, List.mem_eraseDups, applied]
    simp only [listed, bind, Except.bind, pure, Except.pure, Except.map, Except.ok.injEq,
      List.append_eq_nil_iff, List.flatMap_eq_nil_iff, pendingIssues_nil_iff, aboveIssues_nil_iff,
      staleIssues_nil_iff, each, Option.some.injEq, exists_eq_left']
    constructor
    · rintro ⟨⟨filled, below⟩, declared⟩
      exact ⟨filled, below, declared⟩
    · rintro ⟨filled, below, declared⟩
      exact ⟨⟨filled, below⟩, declared⟩

theorem Clean.known (clean : c.Clean r) : ∃ class_, r.class? c.classId = some class_ := by
  unfold Clean audit at clean
  cases found : r.class? c.classId with
  | none =>
    rw [found] at clean
    cases clean
  | some class_ => exact ⟨class_, rfl⟩

theorem clean_touch (now : Moment) : (c.touch now).Clean r ↔ c.Clean r :=
  Iff.rfl

-- the record that a level leaves names nothing but the choices of its node
theorem declared_of_recorded {node : Node} {made : List Made} {level : Int}
    (recorded : c.record? level = some (recordOf node made))
    (found : class_.progression.get? level = some node)
    (choices : made.map Made.choice = node.choices) : staleChoices class_ c level = [] := by
  unfold staleChoices
  rw [get?_of_record? recorded, found, List.filter_eq_nil_iff]
  intro id listed
  obtain ⟨e, member, rfl⟩ := List.mem_map.1 listed
  rcases mem_recordOf member with rfl | ⟨m, of, rfl⟩
  · simp
  · have declared : m.choice ∈ node.choices := choices ▸ List.mem_map_of_mem of
    simpa using fun _ => ⟨m.choice, declared, rfl⟩

-- and the records of other levels stay as they are
theorem staleChoices_risen {level l : Int} (bare : c.isApplied level = false) (other : l ≠ level)
    (r : Ruleset) (node : Node) (made : List Made) :
    staleChoices class_ (Journey.risen r node level made c) l = staleChoices class_ c l := by
  have kept : (Journey.risen r node level made c).advancement.get? (toString l) =
      c.advancement.get? (toString l) := by
    rw [Journey.risen_ledger bare, Dict.get?_insert, if_neg (mt levelText_injective other)]
  simp only [staleChoices, kept]

namespace Complies

-- nothing stands in the way of the levels ahead
theorem bare (complies : Complies class_ c) {level : Int} (above : c.level < level) :
    c.isApplied level = false := by
  rw [← Bool.not_eq_true]
  intro applied
  have below := complies.below level applied
  omega

theorem risen {node : Node} {s : Selections} {made : List Made} (complies : Complies class_ c)
    (found : class_.progression.get? (c.level + 1) = some node) (chosen : node.made r s = .ok made) :
    Complies class_ (Journey.risen r node (c.level + 1) made c) := by
  let d := Journey.risen r node (c.level + 1) made c
  have applied (l : Int) : d.isApplied l = if l = c.level + 1 then true else c.isApplied l :=
    Journey.risen_applied r node (c.level + 1) made c l
  refine ⟨?filled, ?below, ?declared⟩
  case filled =>
    intro level listed first last
    change d.isApplied level = true
    rw [applied]
    split
    · rfl
    · change level ≤ c.level + 1 at last
      exact complies.filled level listed first (by omega)
  case below =>
    intro level there
    change d.isApplied level = true at there
    change level ≤ c.level + 1
    rw [applied] at there
    split at there
    · omega
    · exact Int.le_add_one (complies.below level there)
  case declared =>
    intro level there
    change d.isApplied level = true at there
    change staleChoices class_ d level = []
    rw [applied] at there
    split at there
    · rename_i here
      subst here
      have recorded : d.record? (c.level + 1) = some (recordOf node made) := by
        rw [Journey.risen_record?, if_pos rfl]
      exact declared_of_recorded recorded found (made_choices chosen)
    · rename_i other
      have same : staleChoices class_ d level = staleChoices class_ c level :=
        staleChoices_risen (complies.bare (Int.lt_succ c.level)) other r node made
      rw [same]
      exact complies.declared level there

end Complies

theorem Clean.risen {node : Node} {s : Selections} {made : List Made} (clean : c.Clean r)
    (legible : c.Legible) (room : c.level < 20) (found : r.node? c.classId (c.level + 1) = some node)
    (chosen : node.made r s = .ok made) : (Journey.risen r node (c.level + 1) made c).Clean r := by
  obtain ⟨class_, known, complies⟩ := (clean_iff legible.ledger).1 clean
  have bounds : 1 ≤ c.level + 1 ∧ c.level + 1 ≤ 20 := by
    have first := legible.level.1
    omega
  have keyed : Ledger.Keyed (Journey.risen r node (c.level + 1) made c).advancement :=
    (Journey.risen_legible legible r node made bounds legible.updated).ledger
  have same : (Journey.risen r node (c.level + 1) made c).classId = c.classId := by
    obtain ⟨_, _, _, _, whole⟩ := Journey.risen_frame r node (c.level + 1) made c
    rw [whole]
  rw [Ruleset.node?, known, Option.bind_some] at found
  rw [clean_iff keyed, same]
  exact ⟨class_, known, complies.risen found chosen⟩

theorem Clean.bare (clean : c.Clean r) (keyed : Ledger.Keyed c.advancement) {level : Int}
    (above : c.level < level) : c.isApplied level = false := by
  obtain ⟨class_, -, complies⟩ := (clean_iff keyed).1 clean
  exact complies.bare above

end Character

end Tabletop

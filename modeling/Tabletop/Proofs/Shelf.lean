import Mathlib.Data.List.Induction
import Mathlib.Data.List.Sort
import Tabletop.Proofs.Chronicle

set_option autoImplicit false

namespace Tabletop

open Character (committed withdrawn pickedIds addSpell isCantripPick)

inductive Shelf where
  | cantrips
  | known
  | learned
deriving DecidableEq, Repr

instance (id : String) (s : IdSet) : Decidable (id ∈ s) :=
  inferInstanceAs (Decidable (id ∈ s.ids))

namespace Shelf

def of (c : Character) : Shelf → IdSet
  | cantrips => c.spells.cantrips
  | known => c.spells.known
  | learned => c.infusions

-- where an option goes that is picked for a choice
def receives (r : Ruleset) (m : Made) (id : String) : Shelf → Bool
  | cantrips => m.feedsSpells && isCantripPick r (Text.lower m.choice.source) id
  | known => m.feedsSpells && !isCantripPick r (Text.lower m.choice.source) id
  | learned => !m.feedsSpells && m.feedsInfusions

end Shelf

theorem IdSet.eq_of_mem {s t : IdSet} (same : ∀ id, id ∈ s ↔ id ∈ t) : s = t := by
  have ids : s.ids = t.ids := s.ascending.eq_of_mem_iff t.ascending same
  cases s
  cases t
  simp_all

namespace Shelf

-- characters with the same options on every shelf have the same collections
theorem same_of_mem {c d : Character} (same : ∀ shelf id, id ∈ Shelf.of c shelf ↔ id ∈ Shelf.of d shelf) :
    c.spells = d.spells ∧ c.infusions = d.infusions := by
  have cantrips : c.spells.cantrips = d.spells.cantrips := IdSet.eq_of_mem (same .cantrips)
  have known : c.spells.known = d.spells.known := IdSet.eq_of_mem (same .known)
  refine ⟨?_, IdSet.eq_of_mem (same .learned)⟩
  cases cs : c.spells
  cases ds : d.spells
  simp_all

end Shelf

namespace SpellBook

theorem mem_foldl_addSpell (r : Ruleset) (key : String) (ids : List String) (b : SpellBook)
    (id : String) :
    (id ∈ (ids.foldl (addSpell r key) b).cantrips ↔
        id ∈ b.cantrips ∨ id ∈ ids ∧ isCantripPick r key id = true) ∧
      (id ∈ (ids.foldl (addSpell r key) b).known ↔
        id ∈ b.known ∨ id ∈ ids ∧ isCantripPick r key id = false) := by
  induction ids generalizing b with
  | nil => simp
  | cons first ids ih =>
    rw [List.foldl_cons, (ih _).1, (ih _).2]
    cases cantrip : isCantripPick r key first with
    | true =>
      simp only [addSpell, cantrip, if_true, IdSet.mem_insert, List.mem_cons]
      grind
    | false =>
      simp only [addSpell, cantrip, Bool.false_eq_true, if_false, IdSet.mem_insert, List.mem_cons]
      grind

theorem mem_spellsWith (r : Ruleset) (b : SpellBook) (m : Made) (id : String) :
    (id ∈ (m.spellsWith r b).cantrips ↔
        id ∈ b.cantrips ∨ id ∈ m.picks ∧ Shelf.cantrips.receives r m id = true) ∧
      (id ∈ (m.spellsWith r b).known ↔
        id ∈ b.known ∨ id ∈ m.picks ∧ Shelf.known.receives r m id = true) := by
  unfold Made.spellsWith
  split
  · rename_i spells
    simpa [Shelf.receives, spells] using mem_foldl_addSpell r _ m.picks b id
  · rename_i others
    simp [Shelf.receives, others]

theorem mem_foldl_spellsWith (r : Ruleset) (made : List Made) (b : SpellBook) (id : String) :
    (id ∈ (made.foldl (Made.spellsWith r) b).cantrips ↔
        id ∈ b.cantrips ∨ ∃ m ∈ made, id ∈ m.picks ∧ Shelf.cantrips.receives r m id = true) ∧
      (id ∈ (made.foldl (Made.spellsWith r) b).known ↔
        id ∈ b.known ∨ ∃ m ∈ made, id ∈ m.picks ∧ Shelf.known.receives r m id = true) := by
  induction made generalizing b with
  | nil => simp
  | cons m made ih =>
    rw [List.foldl_cons, (ih _).1, (ih _).2, (mem_spellsWith r b m id).1,
      (mem_spellsWith r b m id).2]
    simp only [List.mem_cons, or_and_right, exists_or, exists_eq_left, or_assoc, and_self]

end SpellBook

theorem mem_foldl_infusionsWith (r : Ruleset) (made : List Made) (s : IdSet) (id : String) :
    id ∈ made.foldl Made.infusionsWith s ↔
      id ∈ s ∨ ∃ m ∈ made, id ∈ m.picks ∧ Shelf.learned.receives r m id = true := by
  induction made generalizing s with
  | nil => simp
  | cons m made ih =>
    have first : id ∈ m.infusionsWith s ↔
        id ∈ s ∨ id ∈ m.picks ∧ Shelf.learned.receives r m id = true := by
      unfold Made.infusionsWith
      cases spells : m.feedsSpells with
      | true => simp [Shelf.receives, spells]
      | false =>
        cases infusions : m.feedsInfusions with
        | true => simp [Shelf.receives, spells, infusions, or_comm]
        | false => simp [Shelf.receives, infusions]
    rw [List.foldl_cons, ih, first]
    simp only [List.mem_cons, or_and_right, exists_or, exists_eq_left, or_assoc]

-- committing a level puts its picks onto the shelves, and takes nothing off but what reverting it
-- does
theorem mem_committed (r : Ruleset) (node : Node) (level : Int) (made : List Made) (now : Moment)
    (c : Character) (shelf : Shelf) (id : String) :
    id ∈ shelf.of (committed r node level made now c) ↔
      id ∈ shelf.of (c.revert level).1 ∨
        ∃ m ∈ made, id ∈ m.picks ∧ shelf.receives r m id = true := by
  have parts := Character.fold_eq r node level made (c.revert level).1
  cases shelf with
  | cantrips =>
    simp only [Shelf.of, committed, parts]
    exact (SpellBook.mem_foldl_spellsWith r made _ id).1
  | known =>
    simp only [Shelf.of, committed, parts]
    exact (SpellBook.mem_foldl_spellsWith r made _ id).2
  | learned =>
    simp only [Shelf.of, committed, parts]
    exact mem_foldl_infusionsWith r made _ id

theorem mem_pickedIds {record : LevelRecord} {id : String} :
    id ∈ pickedIds record ↔ ∃ e ∈ record.entries, e.1 ≠ grantsKey ∧ id ∈ e.2 := by
  simp [pickedIds, and_assoc]

theorem mem_withdrawn (c : Character) (level : Int) (record : LevelRecord) (shelf : Shelf)
    (id : String) :
    id ∈ shelf.of (c.withdrawn level record) ↔ id ∈ shelf.of c ∧ id ∉ pickedIds record := by
  cases shelf <;> simp [Shelf.of, withdrawn]

theorem mem_revert (c : Character) (level : Int) (shelf : Shelf) (id : String) :
    id ∈ shelf.of (c.revert level).1 ↔
      id ∈ shelf.of c ∧ ∀ record, c.record? level = some record → id ∉ pickedIds record := by
  cases recorded : c.record? level with
  | none => simp [Character.revert_of_unrecorded recorded]
  | some record => simp [Character.revert_of_recorded recorded, mem_withdrawn]

-- the application puts an option onto a shelf
def Application.Puts (a : Application) (level : Int) (shelf : Shelf) (id : String) : Prop :=
  ∃ node made, a.Makes level node made ∧
    ∃ m ∈ made, id ∈ m.picks ∧ shelf.receives a.ruleset m id = true

theorem Application.puts_iff {a : Application} {level : Int} {node : Node} {made : List Made}
    (makes : a.Makes level node made) (shelf : Shelf) (id : String) :
    a.Puts level shelf id ↔ ∃ m ∈ made, id ∈ m.picks ∧ shelf.receives a.ruleset m id = true := by
  constructor
  · rintro ⟨node', made', makes', puts⟩
    obtain ⟨rfl, rfl⟩ := makes.unique makes'
    exact puts
  · exact fun puts => ⟨node, made, makes, puts⟩

namespace Chronicle

def Holds (h : Chronicle) (level : Int) (shelf : Shelf) (id : String) : Prop :=
  ∃ record a, h.character.record? level = some record ∧ id ∈ record.entries.flatMap (·.2) ∧
    h.last level = some a ∧ a.Puts level shelf id

def Intact (h : Chronicle) : Prop :=
  ∀ level shelf id, h.Holds level shelf id → id ∈ shelf.of h.character

/-- Taking a level back takes an option off a shelf where another level put it too. -/
def Endangers (h : Chronicle) (level : Int) (shelf : Shelf) (id : String) : Prop :=
  (∃ record, h.character.record? level = some record ∧ id ∈ pickedIds record) ∧
    ∃ l, l ≠ level ∧ h.Holds l shelf id

/-- The deed takes no picks from another level, or puts them back. -/
def Spares (h : Chronicle) : Deed → Prop
  | .apply level a force now =>
    (h.character.isApplied level && !force) = false →
      (∃ c, a.on level force now h.character = .ok c) →
      ∀ shelf id, h.Endangers level shelf id → a.Puts level shelf id
  | .revert level => ∀ shelf id, ¬ h.Endangers level shelf id
  | .write _ _ => True

variable {h : Chronicle}

theorem endangers_iff (intact : Intact h) {l level : Int} (other : l ≠ level) {shelf : Shelf}
    {id : String} (held : h.Holds l shelf id) :
    id ∈ shelf.of (h.character.revert level).1 ↔ ¬ h.Endangers level shelf id := by
  rw [mem_revert]
  constructor
  · rintro ⟨-, safe⟩ ⟨⟨record, recorded, taken⟩, -⟩
    exact safe record recorded taken
  · intro safe
    refine ⟨intact l shelf id held, fun record recorded taken => safe ?_⟩
    exact ⟨⟨record, recorded, taken⟩, l, other, held⟩

theorem holds_revert (h : Chronicle) (level l : Int) (shelf : Shelf) (id : String) :
    (h.record (.revert level)).Holds l shelf id ↔ l ≠ level ∧ h.Holds l shelf id := by
  simp only [Holds, record, Character.record?_revert]
  by_cases same : l = level <;> simp [same]

theorem revert_intact_iff (intact : Intact h) (level : Int) :
    Intact (h.record (.revert level)) ↔ h.Spares (.revert level) := by
  constructor
  · intro kept shelf id danger
    have ⟨_, l, other, held⟩ := danger
    have still := kept l shelf id ((holds_revert h level l shelf id).2 ⟨other, held⟩)
    exact (endangers_iff intact other held).1 still danger
  · intro spares l shelf id held
    obtain ⟨other, held⟩ := (holds_revert h level l shelf id).1 held
    exact (endangers_iff intact other held).2 (spares shelf id)

theorem holds_apply {level : Int} {a : Application} {force : Bool} {now : Moment} {c : Character}
    (busy : (h.character.isApplied level && !force) = false)
    (went : a.on level force now h.character = .ok c) {l : Int} (other : l ≠ level)
    (shelf : Shelf) (id : String) :
    (h.record (.apply level a force now)).Holds l shelf id ↔ h.Holds l shelf id := by
  obtain ⟨node, made, -, rfl⟩ := Application.makes_of_on busy went
  simp [Holds, record, went, busy, Character.record?_committed, other]

theorem puts_of_holds_apply {level : Int} {a : Application} {force : Bool} {now : Moment}
    {c : Character} (busy : (h.character.isApplied level && !force) = false)
    (went : a.on level force now h.character = .ok c) {shelf : Shelf} {id : String}
    (held : (h.record (.apply level a force now)).Holds level shelf id) :
    a.Puts level shelf id := by
  obtain ⟨record, a', -, -, last, puts⟩ := held
  simp only [Chronicle.record, went, busy] at last
  obtain rfl : a = a' := by simpa using last
  exact puts

theorem apply_intact_iff (intact : Intact h) (level : Int) (a : Application) (force : Bool)
    (now : Moment) :
    Intact (h.record (.apply level a force now)) ↔ h.Spares (.apply level a force now) := by
  by_cases idle : (h.character.isApplied level && !force) = true
  · rw [record_idle idle]
    simp [Spares, intact, idle]
  · rw [Bool.not_eq_true] at idle
    cases went : a.on level force now h.character with
    | error f => simp [record, Spares, went, intact]
    | ok c =>
      have mem (shelf : Shelf) (id : String) :
          id ∈ shelf.of (h.record (.apply level a force now)).character ↔
            id ∈ shelf.of (h.character.revert level).1 ∨ a.Puts level shelf id := by
        obtain ⟨node, made, makes, rfl⟩ := Application.makes_of_on idle went
        simp only [record, went]
        rw [mem_committed, Application.puts_iff makes]
      constructor
      · intro kept _ _ shelf id danger
        have shared := danger
        obtain ⟨_, l, other, held⟩ := shared
        have still := kept l shelf id ((holds_apply idle went other shelf id).2 held)
        rcases (mem shelf id).1 still with left | puts
        · exact absurd danger ((endangers_iff intact other held).1 left)
        · exact puts
      · intro spares l shelf id held
        rw [mem]
        by_cases same : l = level
        · rw [same] at held
          exact .inr (puts_of_holds_apply idle went held)
        · have before := (holds_apply idle went same shelf id).1 held
          by_cases danger : h.Endangers level shelf id
          · exact .inr (spares idle ⟨c, went⟩ shelf id danger)
          · exact .inl ((endangers_iff intact same before).2 danger)

theorem record_intact_iff (intact : Intact h) (d : Deed) : Intact (h.record d) ↔ h.Spares d := by
  cases d with
  | apply level a force now => exact apply_intact_iff intact level a force now
  | revert level => exact revert_intact_iff intact level
  | write f manual => exact ⟨fun _ => trivial, fun _ level shelf id held => intact level shelf id held⟩

theorem start_intact {c : Character} (fresh : c.advancement = .empty) : Intact (start c) := by
  rintro level shelf id ⟨record, a, recorded, -⟩
  simp [start, Character.record?, fresh] at recorded

/-- Over a run, every level keeps its picks after every step exactly if every step spares them. -/
theorem after_intact_iff (c : Character) (fresh : c.advancement = .empty) (deeds : List Deed) :
    (∀ done, done <+: deeds → Intact (after c done)) ↔
      ∀ done d, done ++ [d] <+: deeds → Spares (after c done) d := by
  constructor
  · intro intact done d upTo
    have before := intact done ((List.prefix_append done [d]).trans upTo)
    rw [← record_intact_iff before d, ← after_snoc]
    exact intact _ upTo
  · intro spares done
    -- from the back, since each step is judged by what came before it
    induction done using List.reverseRecOn with
    | nil => exact fun _ => start_intact fresh
    | append_singleton done d ih =>
      intro upTo
      have before := ih ((List.prefix_append done [d]).trans upTo)
      rw [after_snoc, record_intact_iff before d]
      exact spares done d upTo

end Chronicle

namespace Novice

-- two levels pick the same spell, and one of them is reverted
def sharing : List Deed :=
  [.apply 2 (picking "a") false firstDay, .apply 3 (picking "b") false firstDay, .revert 3]

theorem sharing_not_intact : ¬ (Chronicle.after novice sharing).Intact := by
  intro intact
  have made : (picking "a").Makes 2 ⟨["ward"], [spellChoice "a"]⟩
      [⟨spellChoice "a", rules.pools.spells, ["light"]⟩] := ⟨by decide, by decide, by decide⟩
  have kept := intact 2 .known "light"
    ⟨Dict.empty.insert "a" ["light"], picking "a", by decide, by decide, rfl, _, _, made, by decide⟩
  exact absurd kept (by decide)

theorem sharing_intact_iff :
    novice.advancement = .empty ∧
      ((∀ done, done <+: sharing → (Chronicle.after novice done).Intact) ↔
        ∀ done d, done ++ [d] <+: sharing → (Chronicle.after novice done).Spares d) :=
  ⟨rfl, Chronicle.after_intact_iff novice rfl sharing⟩

end Novice

end Tabletop

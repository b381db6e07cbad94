import Tabletop.Proofs.Shelf

set_option autoImplicit false

namespace Tabletop

open Character (committed isOfLevel levelEntries pickedIds Unmarked)

def isMarked (level : Int) (f : Feature) : Bool :=
  f.level = level && (f.tags.grant || f.tags.choice)

def Application.Picks (a : Application) (level : Int) (id : String) : Prop :=
  ∃ node made, a.Makes level node made ∧ ∃ m ∈ made, id ∈ m.picks

/-- What the application picks is on exactly those shelves that it puts it onto. -/
def Application.IsHeld (a : Application) (level : Int) (c : Character) : Prop :=
  ∀ id, a.Picks level id → ∀ shelf, id ∈ Shelf.of c shelf ↔ a.Puts level shelf id

def Deed.IsElsewhere (level : Int) : Deed → Prop
  | .apply l _ _ _ => l ≠ level
  | .revert l => l ≠ level
  | .write _ _ => True

theorem Application.picks_iff {a : Application} {level : Int} {node : Node} {made : List Made}
    (makes : a.Makes level node made) (id : String) :
    a.Picks level id ↔ ∃ m ∈ made, id ∈ m.picks := by
  constructor
  · rintro ⟨node', made', makes', picks⟩
    obtain ⟨rfl, rfl⟩ := makes.unique makes'
    exact picks
  · exact fun picks => ⟨node, made, makes, picks⟩

-- what a record lists was picked

theorem picked_of_mem_record {node : Node} {made : List Made} {id : String}
    (listed : id ∈ pickedIds (recordOf node made)) : ∃ m ∈ made, id ∈ m.picks := by
  rw [mem_pickedIds] at listed
  obtain ⟨e, member, choice, picked⟩ := listed
  rcases mem_recordOf member with rfl | ⟨m, of, rfl⟩
  · exact absurd rfl choice
  · exact ⟨m, of, picked⟩

namespace Character

structure Stands (r : Ruleset) (node : Node) (level : Int) (made : List Made) (c : Character) :
    Prop where
  recorded : c.record? level = some (recordOf node made)
  block : IsBlock (isMarked level) (levelEntries r node level made) c.features

variable {r : Ruleset} {node : Node} {level : Int} {made : List Made} {c : Character}

theorem isMarked_of_isOfLevel {f : Feature} (own : isOfLevel level f = true) :
    isMarked level f = true := by
  simp only [isOfLevel, Feature.isEngineOwned, Bool.and_eq_true] at own
  simp only [isMarked, Bool.and_eq_true]
  exact ⟨own.1, own.2.1⟩

theorem not_marked_iff {fs : List Feature} :
    (∀ f ∈ fs, isMarked level f = false) ↔ Unmarked level fs := by
  apply forall₂_congr
  intro f _
  by_cases here : f.level = level <;> simp [isMarked, here]

theorem isMarked_elsewhere {l : Int} (other : l ≠ level) (f : Feature) (here : f.level = l) :
    isMarked level f = false := by
  simp [isMarked, here, other]

-- the first application, to a character with nothing of the level

theorem stands_committed (bare : c.record? level = none) (unmarked : Unmarked level c.features)
    (now : Moment) : (committed r node level made now c).Stands r node level made where
  recorded := by rw [record?_committed, if_pos rfl]
  block := by
    have uniform : ∀ f ∈ levelEntries r node level made, isMarked level f :=
      fun f member => isMarked_of_isOfLevel (levelEntries_uniform r node level made f member)
    have apart : ∀ f ∈ c.features ++ [], isMarked level f = false := by
      rw [List.append_nil]
      exact not_marked_iff.2 unmarked
    have last := IsBlock.of_apart uniform apart
    rw [List.append_nil] at last
    rwa [committed_features_of_unrecorded r node made now bare unmarked]

-- what happens at other levels

theorem Stands.revert (stands : c.Stands r node level made) {l : Int} (other : l ≠ level) :
    (c.revert l).1.Stands r node level made where
  recorded := by rw [record?_revert, if_neg other.symm, stands.recorded]
  block := revert_block stands.block (isMarked_elsewhere other)

theorem Stands.committed (stands : c.Stands r node level made) {l : Int} (other : l ≠ level)
    (r' : Ruleset) (node' : Node) (made' : List Made) (now : Moment) :
    (committed r' node' l made' now c).Stands r node level made where
  recorded := by rw [record?_committed, if_neg other.symm, stands.recorded]
  block := committed_block stands.block (isMarked_elsewhere other) r' node' made' now

theorem Stands.write (stands : c.Stands r node level made) {f : Feature}
    (manual : f.tags = .manualOnly) :
    Stands r node level made { c with features := c.features ++ [f] } where
  recorded := stands.recorded
  block := stands.block.append (by simp [isMarked, manual, FeatureTags.manualOnly])

-- the second application

theorem Stands.features (stands : c.Stands r node level made) (now : Moment) :
    (Character.committed r node level made now c).features = c.features := by
  obtain ⟨-, before, after, whole, apart⟩ := stands.block
  have uniform := levelEntries_uniform r node level made
  have unmarked : Unmarked level (before ++ after) := not_marked_iff.1 apart
  rw [committed_features_of_recorded r node made now stands.recorded whole uniform unmarked, whole]
  split
  · rename_i none
    simp [none]
  · rfl

theorem Stands.ledger (stands : c.Stands r node level made) (now : Moment) (key : String) :
    (Character.committed r node level made now c).advancement.get? key = c.advancement.get? key := by
  have there := get?_of_record? stands.recorded
  rw [advancement_committed, revert_of_recorded stands.recorded, Dict.get?_insert]
  split
  · rename_i here
    rw [here, there]
  · rename_i other
    rw [withdrawn, Dict.get?_erase, if_neg other]

theorem Stands.mem (stands : c.Stands r node level made) (now : Moment) (shelf : Shelf) (id : String)
    (held : (∃ m ∈ made, id ∈ m.picks) →
      (id ∈ shelf.of c ↔ ∃ m ∈ made, id ∈ m.picks ∧ shelf.receives r m id = true)) :
    id ∈ shelf.of (Character.committed r node level made now c) ↔ id ∈ shelf.of c := by
  rw [mem_committed, revert_of_recorded stands.recorded, mem_withdrawn]
  constructor
  · rintro (⟨there, -⟩ | ⟨m, member, picked, receives⟩)
    · exact there
    · exact (held ⟨m, member, picked⟩).2 ⟨m, member, picked, receives⟩
  · intro there
    by_cases picked : id ∈ pickedIds (recordOf node made)
    · exact .inr ((held (picked_of_mem_record picked)).1 there)
    · exact .inl ⟨there, picked⟩

end Character

open Character (Stands)

namespace Chronicle

variable {r : Ruleset} {node : Node} {level : Int} {made : List Made}

theorem record_stands {h : Chronicle} (stands : h.character.Stands r node level made) {d : Deed}
    (elsewhere : d.IsElsewhere level) : (h.record d).character.Stands r node level made := by
  cases d with
  | apply l a force now =>
    rcases h.record_apply l a force now with idle | ⟨node', made', -, -, went⟩
    · rwa [idle]
    · rw [went]
      exact stands.committed elsewhere a.ruleset node' made' now
  | revert l => exact stands.revert elsewhere
  | write f manual => exact stands.write manual

theorem after_stands {c : Character} (stands : c.Stands r node level made) {deeds : List Deed}
    (elsewhere : ∀ d ∈ deeds, d.IsElsewhere level) :
    (after c deeds).character.Stands r node level made := by
  induction deeds using List.reverseRecOn with
  | nil => exact stands
  | append_singleton deeds d ih =>
    rw [List.forall_mem_append, List.forall_mem_singleton] at elsewhere
    rw [after_snoc]
    exact record_stands (ih elsewhere.1) elsewhere.2

/-- A level is applied to a character with nothing of it, and then anything happens at other levels. If the
picks of the level are where it put them, applying it again by force changes nothing but the time and the
order of the ledger. -/
theorem after_reapplied {c d : Character} {level : Int} {a : Application} {force : Bool}
    {now : Moment} {deeds : List Deed} (bare : c.record? level = none)
    (unmarked : ∀ f ∈ c.features, f.level = level → f.tags.grant = false ∧ f.tags.choice = false)
    (went : a.on level force now c = .ok d) (elsewhere : ∀ deed ∈ deeds, deed.IsElsewhere level)
    (held : a.IsHeld level (after d deeds).character) (later : Moment) :
    let e := (after d deeds).character
    ∃ ledger, a.on level true later e = .ok { e with advancement := ledger, updatedAt := later } ∧
      ∀ key, ledger.get? key = e.advancement.get? key := by
  intro e
  have busy : (c.isApplied level && !force) = false := by simp [Character.isApplied, bare]
  obtain ⟨node, made, makes, rfl⟩ := Application.makes_of_on busy went
  have stands : e.Stands a.ruleset node level made :=
    after_stands (Character.stands_committed bare unmarked now) elsewhere
  have mem (shelf : Shelf) (id : String) :
      id ∈ shelf.of (committed a.ruleset node level made later e) ↔ id ∈ shelf.of e := by
    apply stands.mem
    intro picked
    rw [← Application.puts_iff makes]
    exact held id ⟨node, made, makes, picked⟩ shelf
  obtain ⟨spells, infusions⟩ := Shelf.same_of_mem mem
  have features := stands.features later
  refine ⟨_, ?_, stands.ledger later⟩
  rw [Application.on_makes makes (by simp)]
  obtain ⟨_, _, _, whole⟩ := Character.committed_frame a.ruleset node level made later e
  rw [whole] at features spells infusions ⊢
  simp only at features spells infusions ⊢
  rw [features, spells, infusions]

end Chronicle

-- level 3 is applied, forced, reverted and applied again after level 2

namespace Novice

def frosty : Application :=
  ⟨rules, some "wizard", .byChoice (Dict.empty.insert "b" (.listed (.ids ["frost"])))⟩

theorem oath_manual : oath.tags = .manualOnly := rfl

def detour : List Deed :=
  [.write oath oath_manual, .apply 3 frosty false firstDay, .apply 3 frosty true firstDay, .revert 3,
    .apply 3 frosty false firstDay]

theorem detour_elsewhere : ∀ deed ∈ detour, deed.IsElsewhere 2 := by
  simp [detour, Deed.IsElsewhere]

end Novice

open Novice in
theorem after_reapplied_novice : ∃ d, (picking "a").on 2 false firstDay novice = .ok d ∧
    novice.record? 2 = none ∧
    (∀ f ∈ novice.features, f.level = 2 → f.tags.grant = false ∧ f.tags.choice = false) ∧
    (∀ deed ∈ detour, deed.IsElsewhere 2) ∧
    (picking "a").IsHeld 2 (Chronicle.after d detour).character ∧
    ∃ ledger, (picking "a").on 2 true firstDay (Chronicle.after d detour).character =
        .ok { (Chronicle.after d detour).character with advancement := ledger, updatedAt := firstDay } ∧
      ∀ key, ledger.get? key = (Chronicle.after d detour).character.advancement.get? key := by
  let ward : Node := ⟨["ward"], [spellChoice "a"]⟩
  let made : List Made := [⟨spellChoice "a", rules.pools.spells, ["light"]⟩]
  have makes : (picking "a").Makes 2 ward made := ⟨by decide, by decide, by decide⟩
  have bare : novice.record? 2 = none := by decide
  have unmarked : ∀ f ∈ novice.features,
      f.level = 2 → f.tags.grant = false ∧ f.tags.choice = false := by decide
  have went : (picking "a").on 2 false firstDay novice =
      .ok (committed rules ward 2 made firstDay novice) := Application.on_makes makes (by decide)
  have held : (picking "a").IsHeld 2
      (Chronicle.after (committed rules ward 2 made firstDay novice) detour).character := by
    intro id picks shelf
    rw [Application.picks_iff makes] at picks
    obtain rfl : id = "light" := by simpa [made] using picks
    rw [Application.puts_iff makes]
    cases shelf <;> decide +kernel
  refine ⟨_, went, bare, unmarked, detour_elsewhere, held, ?_⟩
  exact Chronicle.after_reapplied bare unmarked went detour_elsewhere held firstDay

end Tabletop

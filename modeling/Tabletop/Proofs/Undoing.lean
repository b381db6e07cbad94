import Mathlib.Data.List.TakeWhile
import Tabletop.Proofs.OnRecord
import Tabletop.Proofs.Reapplying

set_option autoImplicit false

namespace Tabletop

open Character (committed isOfLevel levelEntries withdrawn pickedIds Unmarked)

namespace Character

variable {r : Ruleset} {node : Node} {level : Int} {made : List Made} {c : Character}

-- the place of the first entry that goes, counted in what is left

theorem set_in_first {p : Feature → Bool} (fs new : List Feature) :
    let kept := fs.filter fun f => !p f
    let place := (fs.takeWhile fun f => !p f).length
    (match fs.findIdx? p with
      | none => kept ++ new
      | some i => kept.take i ++ new ++ kept.drop i) = kept.take place ++ new ++ kept.drop place := by
  intro kept place
  cases found : fs.findIdx? p with
  | none =>
    have stays : ∀ f ∈ fs, (!p f) = true := by simpa using found
    have whole : kept = fs := List.filter_eq_self.2 stays
    have last : place = fs.length := by simp only [place, List.takeWhile_eq_self_iff.2 stays]
    simp [whole, last]
  | some i =>
    obtain ⟨before, f, after, rfl, rfl, own, apart⟩ := split_of_findIdx? found
    have stays : ∀ g ∈ before, (!p g) = true := by simpa using apart
    have first : place = before.length := by
      simp [place, List.takeWhile_append_of_pos stays, own]
    rw [first]

theorem unmarked_kept
    (apart : ∀ f ∈ c.features, f.level = level → f.tags.manual = true →
      f.tags.grant = false ∧ f.tags.choice = false) :
    Unmarked level (c.features.filter fun f => !isOfLevel level f) := by
  intro f member here
  obtain ⟨there, kept⟩ := List.mem_filter.1 member
  cases manual : f.tags.manual with
  | true => exact apart f there here manual
  | false => simpa [isOfLevel, here, Feature.isEngineOwned, manual] using kept

-- unlike the block of a run, the old entries may stand anywhere
theorem committed_features_scattered {record : LevelRecord}
    (recorded : c.record? level = some record)
    (unmarked : Unmarked level (c.features.filter fun f => !isOfLevel level f)) (now : Moment) :
    let kept := c.features.filter fun f => !isOfLevel level f
    let place := (c.features.takeWhile fun f => !isOfLevel level f).length
    (committed r node level made now c).features =
      kept.take place ++ levelEntries r node level made ++ kept.drop place := by
  intro kept place
  have left : (c.revert level).1.features = kept := by
    rw [revert_of_recorded recorded]
    rfl
  have applied : c.isApplied level = true := by simp [isApplied, recorded]
  rw [committed_features, left, featuresWith_unmarked unmarked, moveBlock_append, if_pos applied]
  exact set_in_first c.features (levelEntries r node level made)

theorem erase_committed (r : Ruleset) (node : Node) (level : Int) (made : List Made) (now : Moment)
    (c : Character) :
    (committed r node level made now c).advancement.erase (toString level) =
      c.advancement.erase (toString level) := by
  rw [advancement_committed, Dict.erase_insert]
  cases recorded : c.record? level with
  | none => rw [revert_of_unrecorded recorded]
  | some record => simp [revert_of_recorded recorded, withdrawn]

-- a level that was not applied, in a ledger without empty records

theorem get?_of_unapplied (keyed : Ledger.Keyed c.advancement) (bare : c.record? level = none) :
    c.advancement.get? (toString level) = none := by
  cases found : c.advancement.get? (toString level) with
  | none => rfl
  | some record =>
    have filled : record.isEmpty = false := (keyed _ (Dict.mem_of_get? found)).2
    rw [record?, found] at bare
    simp [filled] at bare

-- what the application put onto the shelves is all that reverting takes off them
theorem mem_revert_committed {s : Selections} (parsed : node.IsParsed level)
    (chosen : node.made r s = .ok made) (bare : c.record? level = none)
    (new : ∀ m ∈ made, ∀ id ∈ m.picks, ∀ shelf, id ∉ Shelf.of c shelf) (now : Moment) (shelf : Shelf)
    (id : String) :
    id ∈ shelf.of ((committed r node level made now c).withdrawn level (recordOf node made)) ↔
      id ∈ shelf.of c := by
  rw [mem_withdrawn, mem_committed, revert_of_unrecorded bare]
  constructor
  · rintro ⟨there | ⟨m, member, picked, -⟩, gone⟩
    · exact there
    · exact absurd (picked_of_made parsed chosen member picked) gone
  · intro there
    refine ⟨.inl there, fun taken => ?_⟩
    obtain ⟨m, member, picked⟩ := picked_of_mem_record taken
    exact new m member id picked shelf there

theorem withdrawn_committed {s : Selections} (parsed : node.IsParsed level)
    (chosen : node.made r s = .ok made) (keyed : Ledger.Keyed c.advancement)
    (bare : c.record? level = none) (unmarked : Unmarked level c.features)
    (new : ∀ m ∈ made, ∀ id ∈ m.picks, ∀ shelf, id ∉ Shelf.of c shelf) (now : Moment) :
    (committed r node level made now c).withdrawn level (recordOf node made) =
      { c with updatedAt := now } := by
  let d := (committed r node level made now c).withdrawn level (recordOf node made)
  have features : d.features = c.features := by
    have gone : (c.features ++ levelEntries r node level made ++ []).filter (fun f => !isOfLevel level f) =
        c.features ++ [] :=
      filter_block (levelEntries_uniform r node level made) (by simpa using unmarked.apart)
    simpa [d, withdrawn, committed_features_of_unrecorded r node made now bare unmarked] using gone
  have ledger : d.advancement = c.advancement := by
    have erased := erase_committed r node level made now c
    rw [Dict.erase_of_absent (get?_of_unapplied keyed bare)] at erased
    exact erased
  have shelves := mem_revert_committed parsed chosen bare new now
  obtain ⟨spells, infusions⟩ := Shelf.same_of_mem (c := d) (d := c) shelves
  obtain ⟨_, _, _, whole⟩ := committed_frame r node level made now c
  simp only [d, withdrawn, whole] at features spells infusions ledger ⊢
  simp only [features, spells, infusions, ledger]

end Character

namespace Application

/-- A forced application takes the entries of the level out of the features and sets the new ones in where
the first of them stood, or at the end if there was none. It leaves the records of all other levels, and
changes nothing else but spells, infusions and the time. -/
theorem on_spliced {a : Application} {level : Int} {now : Moment} {c d : Character}
    (applied : c.isApplied level = true)
    (apart : ∀ f ∈ c.features, f.level = level → f.tags.manual = true →
      f.tags.grant = false ∧ f.tags.choice = false)
    (went : a.on level true now c = .ok d) :
    let kept := c.features.filter fun f => !isOfLevel level f
    let place := (c.features.takeWhile fun f => !isOfLevel level f).length
    (∃ block, a.Gives level block ∧ d.features = kept.take place ++ block ++ kept.drop place) ∧
      d.advancement.erase (toString level) = c.advancement.erase (toString level) ∧
      d = { c with
        features := d.features
        spells := d.spells
        infusions := d.infusions
        advancement := d.advancement
        updatedAt := d.updatedAt } := by
  intro kept place
  obtain ⟨record, recorded⟩ := Option.isSome_iff_exists.1 applied
  obtain ⟨node, made, makes, rfl⟩ := makes_of_on (by simp) went
  refine ⟨⟨levelEntries a.ruleset node level made, ?_, ?_⟩, ?_, ?_⟩
  · exact Accounts.gives ⟨node, made, makes, rfl, rfl⟩
  · exact Character.committed_features_scattered recorded (Character.unmarked_kept apart) now
  · exact Character.erase_committed a.ruleset node level made now c
  · obtain ⟨features, spells, infusions, whole⟩ :=
      Character.committed_frame a.ruleset node level made now c
    rw [whole]

/-- Reverting a level straight after it was applied, with picks that were on no shelf before, gives the
record that was written, and the character of before at a later time. -/
theorem revert_on {supply : Supply} {v : Value} {c d : Character} {notices : List Notice}
    {a : Application} {imported now : Moment} {document : Value} {level : Int} {force : Bool}
    (read : Character.ofValue supply v = .ok (c, notices))
    (parsed : (Ruleset.ofDocument imported document).result = .ok a.ruleset)
    (bare : c.isApplied level = false)
    (unmarked : ∀ f ∈ c.features, f.level = level → f.tags.grant = false ∧ f.tags.choice = false)
    (new : ∀ id, a.Picks level id → ∀ shelf, id ∉ Shelf.of c shelf)
    (went : a.on level force now c = .ok d) :
    ∃ record, d.advancement.get? (toString level) = some record ∧ a.Records level record ∧
      d.revert level = ({ c with updatedAt := now }, some record) := by
  obtain ⟨node, made, makes, rfl⟩ := makes_of_on (by simp [bare]) went
  have unrecorded : c.record? level = none := by simpa [Character.isApplied] using bare
  have recorded : (committed a.ruleset node level made now c).record? level =
      some (recordOf node made) := by rw [Character.record?_committed, if_pos rfl]
  have picks (m : Made) (member : m ∈ made) (id : String) (picked : id ∈ m.picks) :
      ∀ shelf, id ∉ Shelf.of c shelf := new id ((picks_iff makes id).2 ⟨m, member, picked⟩)
  refine ⟨recordOf node made, Character.get?_of_record? recorded, ?_, ?_⟩
  · have accounts : a.Accounts level (recordOf node made) (levelEntries a.ruleset node level made) :=
      ⟨node, made, makes, rfl, rfl⟩
    exact accounts.records
  · rw [Character.revert_of_recorded recorded]
    rw [Character.withdrawn_committed (Ruleset.node?_parsed parsed makes.found) makes.chosen
      (Character.ofValue_bounds read).2 unrecorded unmarked picks now]

end Application

-- the entries of a level stand apart, and it is picked again with another spell

namespace Novice

def scattered : Character :=
  { novice with
    features := [scar, Character.grantFeature rules 2 "ward", oath,
      Character.summaryFeature 2 "a: Light"]
    spells := ⟨.empty, .ofList ["light"]⟩
    advancement := Dict.empty.insert "2" (Dict.empty.insert "a" ["light"]) }

def frosted : Application :=
  ⟨rules, some "wizard", .byChoice (Dict.empty.insert "a" (.listed (.ids ["frost"])))⟩

end Novice

open Novice in
theorem on_spliced_novice :
    scattered.isApplied 2 = true ∧
      (∀ f ∈ scattered.features, f.level = 2 → f.tags.manual = true →
        f.tags.grant = false ∧ f.tags.choice = false) ∧
      ∃ d, frosted.on 2 true firstDay scattered = .ok d ∧
        d.features.map Feature.id = ["scar", "grant-2-ward", "choice-2", "oath"] ∧
        (∃ block, frosted.Gives 2 block ∧ d.features = [scar] ++ block ++ [oath]) ∧
        d.advancement.erase "2" = scattered.advancement.erase "2" := by
  have applied : scattered.isApplied 2 = true := by decide
  have apart : ∀ f ∈ scattered.features, f.level = 2 → f.tags.manual = true →
      f.tags.grant = false ∧ f.tags.choice = false := by decide
  let ward : Node := ⟨["ward"], [spellChoice "a"]⟩
  let made : List Made := [⟨spellChoice "a", rules.pools.spells, ["frost"]⟩]
  have makes : frosted.Makes 2 ward made := ⟨by decide, by decide, by decide⟩
  have went : frosted.on 2 true firstDay scattered =
      .ok (committed rules ward 2 made firstDay scattered) := Application.on_makes makes (by simp)
  obtain ⟨block, ledger, -⟩ := Application.on_spliced applied apart went
  exact ⟨applied, apart, _, went, by decide +kernel, block, ledger⟩

-- a level of an imported ruleset is applied to a character from a record, and reverted

namespace Recruit

open Novice (spellChoice)

def lesson : Node := ⟨[], [spellChoice "a"]⟩

def learnt : List Made := [⟨spellChoice "a", spells.pools.spells, ["light"]⟩]

theorem study_makes : (study "light").Makes 2 lesson learnt :=
  ⟨by decide +kernel, by decide +kernel, by decide⟩

end Recruit

open Recruit Ruleset.Primer in
theorem revert_on_recruit : ∃ c notices d, Character.ofValue supply record = .ok (c, notices) ∧
    (∃ imported document, (Ruleset.ofDocument imported document).result = .ok (study "light").ruleset) ∧
    c.isApplied 2 = false ∧
    (∀ f ∈ c.features, f.level = 2 → f.tags.grant = false ∧ f.tags.choice = false) ∧
    (∀ id, (study "light").Picks 2 id → ∀ shelf, id ∉ Shelf.of c shelf) ∧
    (study "light").on 2 false shelved c = .ok d ∧ "light" ∈ Shelf.of d .known ∧
    ∃ written, d.advancement.get? "2" = some written ∧ (study "light").Records 2 written ∧
      d.revert 2 = ({ c with updatedAt := shelved }, some written) := by
  have parsed : (Ruleset.ofDocument shelved spellbook).result = .ok (study "light").ruleset :=
    ok_of_get (by decide +kernel)
  have fresh : (match Character.ofValue supply record with
      | .ok (c, _) => !c.isApplied 2 && c.features.isEmpty &&
          decide (c.spells = ⟨.empty, .empty⟩ ∧ c.infusions = .empty)
      | _ => false) = true := by decide +kernel
  cases read : Character.ofValue supply record with
  | ok result =>
    obtain ⟨c, notices⟩ := result
    rw [read] at fresh
    simp only [Bool.and_eq_true, Bool.not_eq_true', List.isEmpty_iff, decide_eq_true_eq] at fresh
    obtain ⟨⟨bare, features⟩, spells, infusions⟩ := fresh
    have unmarked : ∀ f ∈ c.features, f.level = 2 → f.tags.grant = false ∧ f.tags.choice = false := by
      simp [features]
    have new : ∀ id, (study "light").Picks 2 id → ∀ shelf, id ∉ Shelf.of c shelf := by
      intro id _ shelf
      have bottom : Shelf.of c shelf = .empty := by cases shelf <;> simp [Shelf.of, spells, infusions]
      simp [bottom, IdSet.mem_def, IdSet.empty]
    have went : (study "light").on 2 false shelved c = .ok (committed Recruit.spells lesson 2 learnt shelved c) :=
      Application.on_makes study_makes (by simp [bare])
    have undone := Application.revert_on read parsed bare unmarked new went
    have known : "light" ∈ Shelf.of (committed Recruit.spells lesson 2 learnt shelved c) .known := by
      rw [mem_committed]
      exact .inr ⟨_, List.mem_singleton_self _, by decide, by decide +kernel⟩
    exact ⟨c, notices, _, rfl, ⟨_, _, parsed⟩, bare, unmarked, new, went, known, undone⟩
  | refused faults =>
    rw [read] at fresh
    contradiction
  | broken cause =>
    rw [read] at fresh
    contradiction

end Tabletop

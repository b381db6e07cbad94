import Tabletop.Proofs.LeftAlone
import Tabletop.Proofs.Rereading
import Tabletop.Proofs.Resuming
import Tabletop.Proofs.Stopping

set_option autoImplicit false

namespace Tabletop

namespace Journey

open Character (levelsBetween mem_levelsBetween)
open Store (Since Reads Holds Timely)

variable {c : Character} {j : Journey} {target : Int} {times : Nat}

-- a character that is saved at another level, with the time of the save
theorem save_other {d e : Character} (reads : j.store.Reads e) (sound : d.Sound)
    (settled : d.settled = d) (id : d.id = e.id) (other : d.level ≠ e.level)
    (timely : j.store.Timely (times + 1)) (spared : true ∉ j.store.disk.faults) :
    ∃ t, (save (d.touch j.store.supply.now)).run { j with store := j.store.ticked } =
        (.ok (), { j with store := t, last := some (d.touch j.store.supply.now) }) ∧
      Since j.store t ∧ t.Holds (d.touch j.store.supply.now) ∧ t.Timely times := by
  have kept : j.store.ticked.Reads e := reads
  obtain ⟨t, since, supply, ⟨saved, holds, -⟩ | ⟨-, -, fault⟩⟩ := Store.putCharacter_raised kept
    (sound.touch timely.legible) (Character.settled_touch settled j.store.supply.now) id other
  · have run := run_save (d.touch j.store.supply.now) { j with store := j.store.ticked }
    simp only [saved] at run
    exact ⟨t, run, (Store.since_ticked _).trans since, holds, (Store.Timely.tick timely).of_supply supply⟩
  · exact absurd fault spared

theorem lower_sets (keeps : c.Keeps) (reads : j.store.Reads c) (bounds : 1 ≤ target ∧ target ≤ 20)
    (other : target ≠ c.level) (timely : j.store.Timely (times + 1))
    (spared : true ∉ j.store.disk.faults) :
    ∃ a after now, (lower c target).run j = (.ok a, after) ∧ a.applied = [] ∧ a.cancelled = false ∧
      after.asked = j.asked ∧ Since j.store after.store ∧
      after.store.Holds (Character.touch { c with level := target } now) ∧
      now.Legible ∧ after.store.Timely times := by
  let now := j.store.supply.now
  let d := Character.touch { c with level := target } now
  obtain ⟨t, saved, since, holds, early⟩ := save_other (d := { c with level := target }) reads
    (keeps.sound.atLevel bounds) (Character.settled_atLevel keeps.settled target) rfl other timely spared
  have clock : (onStore Store.now).run j = (.ok now, { j with store := j.store.ticked }) := rfl
  have run : (lower c target).run j =
      (.ok ⟨d, c.level, [], c.addedSince d, false, some ("Level set to " ++ toString target)⟩,
        { j with store := t, last := some d }) := by
    simp only [lower, touched, Action.run_bind, Action.run_pure, clock, saved, d, now]
  exact ⟨_, _, now, run, rfl, rfl, rfl, since, holds, timely.legible, early⟩

-- levels that are applied ask nothing and save nothing
theorem walk_passes (pick : Pick) {p : Progress} {levels : List Int}
    (ahead : levels = levelsBetween p.party.character.level target)
    (within : p.party.character.level ≤ target)
    (applied : ∀ level ∈ levels, p.party.character.isApplied level = true) :
    walk pick p levels = pure (p.atLevel target) := by
  induction levels generalizing p with
  | nil =>
    have level : p.party.character.level = target :=
      Int.le_antisymm within (Character.level_reached ahead)
    subst level
    rfl
  | cons level levels ih =>
    obtain ⟨below, rfl, further⟩ := Character.level_ahead ahead
    rw [List.forall_mem_cons] at applied
    rw [walk_pass applied.1]
    exact ih (p := p.atLevel _) further (by simp only [Progress.atLevel]; omega) applied.2

theorem climb_sets (pick : Pick) (r : Ruleset) (keeps : c.Keeps) (reads : j.store.Reads c)
    (above : c.level < target) (most : target ≤ 20)
    (applied : ∀ level, c.level < level → level ≤ target → c.isApplied level = true)
    (timely : j.store.Timely (times + 1)) (spared : true ∉ j.store.disk.faults) :
    ∃ a after now, (climb pick ⟨c, r⟩ target).run j = (.ok a, after) ∧ a.applied = [] ∧
      a.cancelled = false ∧ after.asked = j.asked ∧
      after.store.Holds (Character.touch { c with level := target } now) := by
  have first := keeps.sound.legible.level.1
  have other : target ≠ c.level := by omega
  let now := j.store.supply.now
  let d := Character.touch { c with level := target } now
  obtain ⟨t, saved, -, holds, -⟩ := save_other (d := { c with level := target }) reads
    (keeps.sound.atLevel ⟨by omega, most⟩) (Character.settled_atLevel keeps.settled target) rfl other
    timely spared
  let reached : Progress := ⟨⟨{ c with level := target }, r⟩, [], c.level, none⟩
  have walked : walk pick ⟨⟨c, r⟩, [], c.level, none⟩ (levelsBetween c.level target) = pure reached :=
    walk_passes pick rfl (Int.le_of_lt above) fun level member =>
      applied level (mem_levelsBetween.1 member).1 (mem_levelsBetween.1 member).2
  have clock : (onStore Store.now).run j = (.ok now, { j with store := j.store.ticked }) := rfl
  have ended : ¬(reached.cancelledAt.isSome || reached.party.character.level = reached.saved) = true := by
    simpa [reached] using other
  have finished : (finish reached).run j = (.ok d, { j with store := t, last := some d }) := by
    simp only [finish, if_neg ended, touched, Action.run_bind, Action.run_pure, clock, reached, saved, d,
      now]
  have run : (climb pick ⟨c, r⟩ target).run j =
      (.ok ⟨d, c.level, [], c.addedSince d, false, none⟩, { j with store := t, last := some d }) := by
    simp only [climb, walked, Action.run_bind, Action.run_pure, finished]
    rfl
  exact ⟨_, _, now, run, rfl, rfl, rfl, holds⟩

-- one way, from a store

variable {s : Store} {r : Ruleset}

theorem advance_down (pick : Pick) (keeps : c.Keeps) (holds : s.Holds c) (ready : Ready s c r)
    (low : 1 ≤ target) (below : target < c.level) (timely : s.Timely (times + 3))
    (spared : true ∉ s.disk.faults) :
    ∃ a after now, (advance c.id target pick).run (setOut s) = (.ok a, after) ∧ a.applied = [] ∧
      a.cancelled = false ∧ after.asked = [] ∧ Since s after.store ∧
      after.store.Holds (Character.touch { c with level := target } now) ∧
      now.Legible ∧ after.store.Timely times := by
  have most := keeps.sound.legible.level.2
  have here : clamp target 1 20 = target := clamp_of_mem low (by omega)
  obtain ⟨imported, t, loading, since, reads, early⟩ := run_load (j := setOut s) keeps.sound holds ready
    (show s.Timely (times + 1 + 2) from timely)
  rw [keeps.settled] at loading reads
  obtain ⟨a, after, now, lowered, applied, uncancelled, asked, later, kept, legible, rest⟩ :=
    lower_sets (j := { setOut s with store := t }) keeps reads ⟨low, by omega⟩ (by omega) early
      fun fault => spared (since.faults _ fault)
  refine ⟨a, after, now, ?_, applied, uncancelled, asked, since.trans later, kept, legible, rest⟩
  simp only [advance, Action.run_bind, loading, here, if_pos (Int.le_of_lt below), lowered]

theorem advance_up (pick : Pick) (keeps : c.Keeps) (holds : s.Holds c) (ready : Ready s c r)
    (above : c.level < target) (most : target ≤ 20)
    (applied : ∀ level, c.level < level → level ≤ target → c.isApplied level = true)
    (timely : s.Timely (times + 3)) (spared : true ∉ s.disk.faults) :
    ∃ a after now, (advance c.id target pick).run (setOut s) = (.ok a, after) ∧ a.applied = [] ∧
      a.cancelled = false ∧ after.asked = [] ∧
      after.store.Holds (Character.touch { c with level := target } now) := by
  have first := keeps.sound.legible.level.1
  have here : clamp target 1 20 = target := clamp_of_mem (by omega) most
  obtain ⟨imported, t, loading, since, reads, early⟩ := run_load (j := setOut s) keeps.sound holds ready
    (show s.Timely (times + 1 + 2) from timely)
  rw [keeps.settled] at loading reads
  obtain ⟨a, after, now, climbed, told⟩ := climb_sets (j := { setOut s with store := t }) pick
    (r.importedOn imported) keeps reads above most applied early fun fault => spared (since.faults _ fault)
  refine ⟨a, after, now, ?_, told⟩
  simp only [advance, Action.run_bind, loading, here, if_neg (Int.not_le_of_gt above), climbed]

/-- A character is lowered by levels that are all applied, and advanced back to its level. Neither way asks
the player anything, applies a level or fails. On the way only the level of the stored record is another,
and at the end the record is as it was, but for its time. -/
theorem advance_there_and_back {supply : Supply} {v : Value} {notices : List Notice}
    (json : Json.plain v = .ok v) (plain : Character.PlainKeys v) (now : supply.now.Legible)
    (next : supply.now.next.Legible) (reads : Character.ofValue supply v = .ok (c, notices))
    (stored : s.Holds c) (clock : s.supply.now.Legible) (year : s.supply.now.date.year < 9999)
    (spared : true ∉ s.disk.faults) {rulesetId classId : String} {u : Store}
    (hasRuleset : given c.rulesetId = some rulesetId) (hasClass : given c.classId = some classId)
    (served : (Store.getRuleset rulesetId).run s = (.ok (some r), u)) (low : 1 ≤ target)
    (below : target < c.level)
    (applied : ∀ level, target < level → level ≤ c.level → c.isApplied level = true)
    (down up : Pick) :
    ∃ lowered partway raised back soon later,
      (advance c.id target down).run (setOut s) = (.ok lowered, partway) ∧
      lowered.applied = [] ∧ lowered.cancelled = false ∧ partway.asked = [] ∧
      partway.store.Holds { c with level := target, updatedAt := soon } ∧
      (advance c.id c.level up).run (setOut partway.store) = (.ok raised, back) ∧
      raised.applied = [] ∧ raised.cancelled = false ∧ back.asked = [] ∧
      back.store.Holds { c with updatedAt := later } := by
  have keeps := Character.Keeps.of_plain json plain now next reads
  have most := keeps.sound.legible.level.2
  have ready : Ready s c r := ⟨⟨rulesetId, s, u, hasRuleset, .refl s, served⟩, classId, hasClass⟩
  have timely : s.Timely (3 + 3) := Store.Timely.of_year clock year (by decide)
  obtain ⟨lowered, partway, soon, wentDown, none, whole, unasked, since, holds, legible, early⟩ :=
    advance_down down keeps stored ready low below timely spared
  let d := Character.touch { c with level := target } soon
  have kept : d.Keeps :=
    ⟨(keeps.sound.atLevel ⟨low, by omega⟩).touch legible,
      Character.settled_touch (Character.settled_atLevel keeps.settled target) soon⟩
  have still : Ready partway.store d r := ready.of_same since.same rfl rfl
  obtain ⟨raised, back, later, wentUp, none', whole', unasked', holds'⟩ := advance_up up kept holds still
    (show target < c.level from below) most applied (show partway.store.Timely (0 + 3) from early)
    fun fault => spared (since.faults _ fault)
  exact ⟨lowered, partway, raised, back, soon, later, wentDown, none, whole, unasked, holds, wentUp, none',
    whole', unasked', holds'⟩

end Journey

-- a veteran who took levels 2 and 3 before

namespace Novice

def seasoned : Character :=
  { novice with level := 3, advancement := third }

def veteran : Character := seasoned.settled

theorem seasoned_legible : seasoned.Legible :=
  { novice_legible with level := by decide, ledger := third_keyed }

theorem seasoned_plainKeys : Character.PlainKeys seasoned.toValue where
  abilities := by decide +kernel
  saves := by
    intro keys listed
    have own : Value.members (Value.field "save_proficiency"
        (Character.givenEntries seasoned.toValue)) = .ok [] := rfl
    cases own.symm.trans listed
    decide

end Novice

open Novice Journey in
theorem advance_there_and_back_veteran :
    (library veteran).Holds veteran ∧
      (∀ level, 1 < level → level ≤ veteran.level → veteran.isApplied level = true) ∧
      ∃ lowered partway raised back soon later,
        (advance veteran.id 1 (lightUpTo 0)).run (setOut (library veteran)) = (.ok lowered, partway) ∧
        lowered.applied = [] ∧ lowered.cancelled = false ∧ partway.asked = [] ∧
        partway.store.Holds { veteran with level := 1, updatedAt := soon } ∧
        (advance veteran.id veteran.level (lightUpTo 0)).run (setOut partway.store) =
          (.ok raised, back) ∧
        raised.applied = [] ∧ raised.cancelled = false ∧ back.asked = [] ∧
        back.store.Holds { veteran with updatedAt := later } := by
  have json : Json.plain seasoned.toValue = .ok seasoned.toValue := seasoned.proper_toValue.plain
  have reads := Character.ofValue_toValue seasoned_legible (library veteran).supply
  obtain ⟨now, next⟩ := library_clock veteran
  obtain ⟨u, served⟩ := library_serves veteran
  have holds : (library veteran).Holds veteran := library_holds rfl
  have applied (level : Int) (above : 1 < level) (within : level ≤ veteran.level) :
      veteran.isApplied level = true := by
    have third : veteran.level = 3 := rfl
    obtain rfl | rfl : level = 2 ∨ level = 3 := by omega
    · decide
    · decide
  exact ⟨holds, applied, advance_there_and_back json seasoned_plainKeys now next reads holds now
    (by decide) List.not_mem_nil rfl rfl served (by decide) (by decide) applied (lightUpTo 0) (lightUpTo 0)⟩

end Tabletop

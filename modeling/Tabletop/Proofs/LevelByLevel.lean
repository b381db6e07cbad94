import Mathlib.Data.List.Forall2
import Tabletop.Proofs.LaidDown
import Tabletop.Proofs.Resuming

set_option autoImplicit false

namespace Tabletop

open Character (levelsBetween committed)
open Journey (Served Ready given ascend rise risen)
open Store (Since Work)

namespace Journey

-- one level of the way up

-- a level that is applied already is passed, and any other is applied
def Steps (pick : Pick) (r : Ruleset) (c : Character) (level : Int) (d : Character) : Prop :=
  c.isApplied level = true ∧ d = { c with level := level } ∨
    c.isApplied level = false ∧ rise pick r c level = some d

namespace Steps

variable {pick : Pick} {r : Ruleset} {c d : Character} {level : Int}

theorem ascend {levels fresh : List Int} {final : Character} (steps : Steps pick r c level d)
    (goes : ascend pick r d levels = some (final, fresh)) :
    ∃ all, Journey.ascend pick r c (level :: levels) = some (final, all) := by
  rcases steps with ⟨applied, rfl⟩ | ⟨bare, rises⟩
  · exact ⟨fresh, by rw [Journey.ascend, if_pos applied, goes]⟩
  · refine ⟨level :: fresh, ?_⟩
    rw [Journey.ascend, if_neg (by simp [bare]), rises, Option.bind_some, goes]
    rfl

theorem frame (steps : Steps pick r c level d) :
    ∃ features spells infusions advancement, d =
      { c with
        level := level
        features := features
        spells := spells
        infusions := infusions
        advancement := advancement } := by
  rcases steps with ⟨-, rfl⟩ | ⟨-, rises⟩
  · exact ⟨_, _, _, _, rfl⟩
  · obtain ⟨node, given, made, -, -, -, rfl⟩ := rise_eq_some rises
    exact risen_frame r node level made c

theorem sound (steps : Steps pick r c level d) (sound : c.Sound)
    (bounds : 1 ≤ level ∧ level ≤ 20) : d.Sound := by
  rcases steps with ⟨-, rfl⟩ | ⟨-, rises⟩
  · exact sound.atLevel bounds
  · obtain ⟨node, given, made, -, -, -, rfl⟩ := rise_eq_some rises
    exact risen_sound sound r node made bounds

theorem applied (steps : Steps pick r c level d) {l : Int} (bare : d.isApplied l = false) :
    c.isApplied l = false := by
  rcases steps with ⟨-, rfl⟩ | ⟨-, rises⟩
  · exact bare
  · obtain ⟨node, given, made, -, -, -, rfl⟩ := rise_eq_some rises
    have recorded : (risen r node level made c).record? l =
        if l = level then some (recordOf node made) else c.record? l :=
      Character.record?_committed r node level made c.updatedAt c l
    unfold Character.isApplied at bare ⊢
    rw [recorded] at bare
    split at bare
    · contradiction
    · exact bare

end Steps

end Journey

open Journey (Steps)

-- one level of a player

theorem Action.run_outcome {σ α : Type} (x : Action σ α) (s : σ) :
    x.outcome.run s = (.ok (x.run s).1, (x.run s).2) := rfl

theorem Character.applyLevel_importedOn (c : Character) (r : Ruleset) (classId : Option String)
    (level : Int) (s : Selections) (force : Bool) (now t : Moment) :
    (c.applyLevel (r.importedOn t) classId level s force now).result =
      (c.applyLevel r classId level s force now).result := by
  by_cases short : IsWritten level
  · simp only [applyLevel_result _ _ _ short, Journey.made_importedOn]
    rfl
  · simp only [applyLevel_fails short]

theorem Sheet.applyLevel_eq_ok {c d : Character} {r : Ruleset} {level : Int} {s : Selections}
    {force : Bool} {now : Moment} {message : String}
    (ran : applyLevel c r level s force now = .ok (some d, message)) :
    ∃ updated, (c.applyLevel r c.classId level s force now).result = .ok updated ∧
      d = raiseLevel updated level := by
  unfold applyLevel at ran
  cases applied : (c.applyLevel r c.classId level s force now).result with
  | error f =>
    rw [applied] at ran
    cases f <;> cases ran
  | ok updated =>
    simp only [applied, bind_eq_ok, pure_eq_ok, Prod.mk.injEq, Option.some.injEq] at ran
    obtain ⟨_, -, rfl, -⟩ := ran
    exact ⟨updated, rfl, rfl⟩

theorem Sheet.applyLevel_steps {table : Ledger} {r : Ruleset} {c : Character} {level : Int}
    (short : IsWritten level) (below : c.level < level)
    (covers : c.isApplied level = false → table.Covers r c.classId level) :
    ∃ d, Steps (Command.answersOf table.toValue) r c level d ∧ ∀ imported now, ∃ later,
      (later = c.updatedAt ∨ later = now) ∧
        applyLevel c (r.importedOn imported) level (.ofValue (table.laidDown level).toValue) false now =
          .ok (some (d.touch later), levelMessage c (d.touch later)) := by
  cases applied : c.isApplied level with
  | true =>
    refine ⟨{ c with level := level }, .inl ⟨applied, rfl⟩, fun imported now =>
      ⟨c.updatedAt, .inl rfl, ?_⟩⟩
    have raised : raiseLevel c level = Character.touch { c with level := level } c.updatedAt := by
      rw [raiseLevel, if_pos below]
      rfl
    have told : written (Character.touch { c with level := level } c.updatedAt).level =
        .ok (toString level) := short.text
    simp only [applyLevel, Character.applyLevel_result _ _ _ short, applied, Bool.not_false,
      Bool.and_true, if_true, raised, told]
    rfl
  | false =>
    obtain ⟨node, made, rises, whole⟩ := Journey.rise_covered short (covers applied) applied
    refine ⟨risen r node level made c, .inr ⟨applied, rises⟩, fun imported now =>
      ⟨now, .inr rfl, ?_⟩⟩
    have kept : (committed r node level made now c).level = c.level := by
      obtain ⟨_, _, _, frame⟩ := Character.committed_frame r node level made now c
      rw [frame]
    have raised : raiseLevel (committed r node level made now c) level =
        (risen r node level made c).touch now := by
      rw [raiseLevel, if_pos (by rw [kept]; exact below)]
      rfl
    have told : written ((risen r node level made c).touch now).level = .ok (toString level) :=
      short.text
    simp only [applyLevel, Character.applyLevel_importedOn, whole, raised, told]
    rfl

namespace Command

-- applies the levels one after the other, with what a table lays down for each
def applyEach (table : Ledger) (id : String) : List Int → Work (List String)
  | [] => return []
  | level :: levels => do
    let answer ← applyLevel level (.ofValue (table.laidDown level).toValue) false (some id)
    return answer :: (← applyEach table id levels)

def Told (level : Int) (answer : String) : Prop :=
  ∃ before after, after.level = level ∧ answer = Sheet.levelMessage before after

-- a stored character that a table can bring to a level
structure Supplied (table : Ledger) (r : Ruleset) (target : Int) (c : Character) (s : Store)
    (times : Nat) : Prop where
  sound : c.Sound
  holds : s.Holds c
  served : Served s c r
  covers : ∀ level, c.level < level → level ≤ target → c.isApplied level = false →
    table.Covers r c.classId level
  timely : s.Timely times
  spared : true ∉ s.disk.faults

theorem given_id {s : Store} {c : Character} (holds : s.Holds c) : given (some c.id) = some c.id := by
  simp [given, Option.filter, holds.id_filled]

variable {table : Ledger} {r : Ruleset} {target : Int} {c : Character} {s : Store} {times : Nat}

-- applying the next level brings the stored character one level up
theorem applyLevel_steps (supplied : Supplied table r target c s (times + 3))
    (below : c.level < target) (most : target ≤ 20) :
    ∃ d now answer t, Steps (answersOf table.toValue) r c.settled (c.level + 1) d ∧
      (applyLevel (c.level + 1) (.ofValue (table.laidDown (c.level + 1)).toValue) false
        (some c.id)).run s = (.ok answer, t) ∧
      Told (c.level + 1) answer ∧ (d.touch now).settled = d.touch now ∧
      Supplied table r target (d.touch now) t times := by
  have first := supplied.sound.legible.level.1
  have again : c.settled.settled = c.settled := Character.settled_settled supplied.sound.ascii.settling
  obtain ⟨ruleset, imported, t, hasRuleset, found, served, since, -, reads, early⟩ :=
    Journey.run_served supplied.sound supplied.holds supplied.served
      (show s.Timely (times + 1 + 2) from supplied.timely)
  obtain ⟨d, steps, told⟩ := Sheet.applyLevel_steps (c := c.settled)
    (isWritten_of_bounds (by omega) (by omega)) (show c.level < c.level + 1 by omega) (supplied.covers (c.level + 1) (by omega) (by omega))
  obtain ⟨later, moment, applied⟩ := told imported t.supply.now
  obtain ⟨features, spells, infusions, advancement, frame⟩ := steps.frame
  have legible : later.Legible := by
    rcases moment with rfl | rfl
    · exact supplied.sound.legible.updated
    · exact early.legible
  have sound : (d.touch later).Sound :=
    (steps.sound supplied.sound.settled ⟨by omega, by omega⟩).touch legible
  have settled : (d.touch later).settled = d.touch later := by
    refine Character.settled_of_same again ?_ ?_ <;> rw [frame] <;> rfl
  have level : (d.touch later).level ≠ c.settled.level := by
    rw [frame]
    change c.level + 1 ≠ c.level
    omega
  have readsNow : t.ticked.Reads c.settled := reads
  obtain ⟨u, more, supply, ⟨saved, holds, -⟩ | ⟨-, -, fault⟩⟩ :=
    Store.putCharacter_raised readsNow sound settled (by rw [frame]; rfl) level
  · refine ⟨d, later, Sheet.levelMessage c.settled (d.touch later), u, steps, ?_,
      ⟨c.settled, d.touch later, by rw [frame]; rfl, rfl⟩, settled, ?_⟩
    · have id : c.settled.rulesetId = c.rulesetId := rfl
      simp only [applyLevel, withRuleset, findCharacter, idOrActive, given_id supplied.holds,
        Action.run_bind, Action.run_pure, found, rulesetOf, id, hasRuleset, served, Store.run_now,
        applied, Action.run_ofResult_ok, onWriteFailure, Action.run_outcome, saved]
    · exact {
        sound := sound
        holds := holds
        served := supplied.served.of_same
          (since.same.trans ((Store.since_ticked t).same.trans more.same)) (by rw [frame]; rfl)
        covers := by
          intro l above within bare
          have own : (d.touch later).classId = c.classId := by
            rw [frame]
            rfl
          have higher : c.level < l := by
            rw [frame] at above
            change c.level + 1 < l at above
            omega
          rw [own]
          exact supplied.covers l higher within (steps.applied bare)
        timely := (Store.Timely.tick early).of_supply supply
        spared := fun fault => supplied.spared (since.faults _ (more.faults _ fault)) }
  · exact absurd (since.faults _ fault) supplied.spared

-- applying levels one after the other ends where the way up ends
def Arrives (table : Ledger) (r : Ruleset) (c : Character) (s : Store) (levels : List Int) : Prop :=
  ∃ final fresh answers t now,
    ascend (answersOf table.toValue) r c.settled levels = some (final, fresh) ∧
      (applyEach table c.id levels).run s = (.ok answers, t) ∧
      List.Forall₂ Told levels answers ∧ t.Holds (final.touch now)

theorem arrives_cons {levels : List Int} (supplied : Supplied table r target c s (times + 3))
    (below : c.level < target) (most : target ≤ 20)
    (rest : ∀ d t, d.settled = d → d.level = c.level + 1 → Supplied table r target d t times →
      Arrives table r d t levels) : Arrives table r c s ((c.level + 1) :: levels) := by
  obtain ⟨d, now, answer, t, steps, run, told, settled, next⟩ :=
    applyLevel_steps supplied below most
  obtain ⟨features, spells, infusions, advancement, frame⟩ := steps.frame
  obtain ⟨final, fresh, answers, u, later, goes, more, all, holds⟩ :=
    rest (d.touch now) t settled (by rw [frame]; rfl) next
  rw [settled, Journey.ascend_touch, Option.map_eq_some_iff] at goes
  obtain ⟨⟨reached, left⟩, goes, whole⟩ := goes
  rw [Prod.mk.injEq] at whole
  obtain ⟨rfl, rfl⟩ := whole
  obtain ⟨full, ascends⟩ := steps.ascend goes
  have id : (d.touch now).id = c.id := by
    rw [frame]
    rfl
  rw [id] at more
  refine ⟨reached, full, answer :: answers, u, later, ascends, ?_, .cons told all, holds⟩
  simp only [applyEach, Action.run_bind, run, more, Action.run_pure]

theorem arrives_settled {levels : List Int} (ahead : levels = levelsBetween c.level target)
    (settled : c.settled = c) (most : target ≤ 20)
    (supplied : Supplied table r target c s (3 * levels.length)) : Arrives table r c s levels := by
  induction levels generalizing c s with
  | nil =>
    refine ⟨c, [], [], s, c.updatedAt, ?_, rfl, .nil, supplied.holds⟩
    rw [settled, ascend]
  | cons level levels ih =>
    obtain ⟨below, rfl, further⟩ := Character.level_ahead ahead
    refine arrives_cons supplied below most fun d t settled reached next => ?_
    exact ih (by rw [reached, further]) settled next

theorem arrives (below : c.level < target) (most : target ≤ 20)
    (supplied : Supplied table r target c s 60) :
    Arrives table r c s (levelsBetween c.level target) := by
  have first := supplied.sound.legible.level.1
  rw [Character.levelsBetween_cons below]
  refine arrives_cons (show Supplied table r target c s (57 + 3) from supplied) below most
    fun d t settled reached next => ?_
  have few : 3 * (levelsBetween (c.level + 1) target).length ≤ 57 := by
    simp only [levelsBetween, List.length_map, List.length_range]
    omega
  exact arrives_settled (by rw [reached]) settled most
    { next with timely := next.timely.mono few }

-- all levels at once

theorem run_levelUp {pick : Pick} {a : Advanced} {after : Journey} (holds : s.Holds c)
    (advanced : (Journey.advance c.id target pick).run (Journey.setOut s) = (.ok a, after)) :
    (levelUp target pick (some c.id)).run s = (.ok (advancedText a), after.store) := by
  rw [Journey.setOut] at advanced
  simp only [levelUp, idOrActive, given_id holds, Action.run_bind, Action.run_pure,
    Action.run_outcome, travel, advanced]

-- a character without a class is turned away, even where no level is left to apply
theorem run_levelUp_classless (target : Int) (pick : Pick) (sound : c.Sound) (holds : s.Holds c)
    (served : Served s c r) (classless : given c.classId = none) (timely : s.Timely (times + 2)) :
    ∃ t, (levelUp target pick (some c.id)).run s =
      (.ok ("❌ " ++ Obstacle.noClassSelected.message), t) ∧ t.Holds c := by
  obtain ⟨ruleset, imported, t, hasRuleset, found, again, -, kept, -, -⟩ :=
    Journey.run_served sound holds served timely
  have ids : c.settled.rulesetId = c.rulesetId ∧ c.settled.classId = c.classId := ⟨rfl, rfl⟩
  refine ⟨t, ?_, kept⟩
  simp only [levelUp, idOrActive, given_id holds, Action.run_bind, Action.run_pure,
    Action.run_outcome, travel, Journey.advance, Journey.load, Journey.run_onStore, found, ids,
    hasRuleset, again, classless]
  rfl

/-- Advancing to a level leaves what applying the levels one after the other leaves. -/
theorem levelUp_agrees {supply : Supply} {v : Value} {notices : List Notice}
    (json : Json.plain v = .ok v) (now : supply.now.Legible) (next : supply.now.next.Legible)
    (reads : Character.ofValue supply v = .ok (c, notices)) (ascii : c.AsciiKeys)
    (stored : s.Holds c) (clock : s.supply.now.Legible) (year : s.supply.now.date.year < 9999)
    (spared : true ∉ s.disk.faults) {rulesetId classId : String} {u : Store}
    (hasRuleset : given c.rulesetId = some rulesetId) (hasClass : given c.classId = some classId)
    (served : (Store.getRuleset rulesetId).run s = (.ok (some r), u)) (above : c.level < target)
    (most : target ≤ 20)
    (covers : ∀ level, c.level < level → level ≤ target → c.isApplied level = false →
      table.Covers r c.classId level) :
    ∃ a answers d later t t',
      (levelUp target (answersOf table.toValue) (some c.id)).run s = (.ok (advancedText a), t) ∧
      a.cancelled = false ∧ t.Holds d ∧
      (applyEach table c.id (levelsBetween c.level target)).run s = (.ok answers, t') ∧
      List.Forall₂ Told (levelsBetween c.level target) answers ∧ t'.Holds (d.touch later) := by
  obtain ⟨legible, six⟩ := Character.ofValue_legible json now next reads
  have sound : c.Sound := ⟨legible, ascii, six⟩
  have bounds := legible.level
  have serves : Served s c r := ⟨rulesetId, s, u, hasRuleset, .refl s, served⟩
  have timely (times : Nat) (few : 2 * times < Moment.dayMicros) : s.Timely times :=
    Store.Timely.of_year clock year few
  obtain ⟨final, fresh, answers, t', later, goes, applied, told, held⟩ := arrives above most
    ⟨sound, stored, serves, covers, timely 60 (by decide), spared⟩
  have here : clamp target 1 20 = target := clamp_of_mem (by omega) most
  rw [← here] at goes
  obtain ⟨a, after, moment, run, -, whole, holds⟩ := Journey.advance_arrives sound stored
    ⟨serves, classId, hasClass⟩ (by omega) ⟨final.updatedAt, goes⟩ (timely 22 (by decide)) spared
  exact ⟨a, answers, final.touch moment, later, after.store, t', run_levelUp stored run, whole,
    holds, applied, told, held⟩

end Command

namespace Novice

-- the light spell for every choice of the book
def grimoire : Ledger :=
  (Dict.empty.insert "2" (Dict.empty.insert "a" ["light"])).insert "3"
    (Dict.empty.insert "b" ["light"])

theorem grimoire_covers (level : Int) (above : pupil.level < level) (within : level ≤ 3) :
    grimoire.Covers lessons pupil.classId level := by
  have lesson (level : Int) (id : String)
      (found : lessons.node? pupil.classId level = some ⟨[], [spellChoice id]⟩)
      (listed : (grimoire.laidDown level).get? id = some ["light"]) :
      grimoire.Covers lessons pupil.classId level := by
    refine ⟨_, found, fun choice member => ?_⟩
    obtain rfl : choice = spellChoice id := by simpa using member
    exact ⟨["light"], listed, ⟨_, rfl⟩, by decide, rfl⟩
  have first : pupil.level = 1 := rfl
  obtain rfl | rfl : level = 2 ∨ level = 3 := by omega
  · exact lesson 2 "a" (by decide) (by decide)
  · exact lesson 3 "b" (by decide) (by decide)

end Novice

open Novice Command in
theorem levelUp_agrees_novice :
    ∃ a answers d later t t',
      (levelUp 3 (answersOf grimoire.toValue) (some pupil.id)).run (library pupil) =
        (.ok (advancedText a), t) ∧ a.cancelled = false ∧ t.Holds d ∧
      (applyEach grimoire pupil.id (levelsBetween pupil.level 3)).run (library pupil) =
        (.ok answers, t') ∧
      List.Forall₂ Told (levelsBetween pupil.level 3) answers ∧ t'.Holds (d.touch later) := by
  have json : Json.plain novice.toValue = .ok novice.toValue := novice.proper_toValue.plain
  have reads := pupil_read (library pupil).supply
  have spared : true ∉ (library pupil).disk.faults := List.not_mem_nil
  have year : (library pupil).supply.now.date.year < 9999 := by decide
  have above : pupil.level < 3 := by decide
  obtain ⟨now, next⟩ := library_clock pupil
  obtain ⟨u, served⟩ := library_serves pupil
  have hasRuleset : given pupil.rulesetId = some "book" := rfl
  have hasClass : given pupil.classId = some "wizard" := rfl
  exact levelUp_agrees json now next reads pupil_sound.ascii (library_holds rfl) now year spared
    hasRuleset hasClass served above (by decide)
    fun level higher within _ => grimoire_covers level higher within

namespace Novice

-- a novice who left the class after a level was applied
def wanderer : Character :=
  Character.settled { novice with
    classId := none
    advancement := Dict.empty.insert "2" (Dict.empty.insert "a" ["light"]) }

theorem wanderer_sound : wanderer.Sound := by
  refine .of_settled { novice_legible with ledger := ?_ } ⟨by decide, by decide⟩
  exact Ledger.Keyed.empty.insert 2 (by decide) rfl

end Novice

open Novice Command in
-- no level is left to apply, and yet a class is asked for
theorem wanderer_turned_away :
    wanderer.Sound ∧ wanderer.level < 2 ∧ given wanderer.rulesetId = some "book" ∧
      (∀ level, wanderer.level < level → level ≤ 2 → wanderer.isApplied level = true) ∧
      (library wanderer).Holds wanderer ∧
      (∃ u, (Store.getRuleset "book").run (library wanderer) = (.ok (some lessons), u)) ∧
      ∃ answers d t t',
        (levelUp 2 (answersOf (Ledger.toValue .empty)) (some wanderer.id)).run
          (library wanderer) = (.ok "❌ Select a class first.", t) ∧ t.Holds wanderer ∧
        (applyEach .empty wanderer.id (levelsBetween wanderer.level 2)).run (library wanderer) =
          (.ok answers, t') ∧
        List.Forall₂ Told (levelsBetween wanderer.level 2) answers ∧ t'.Holds d ∧ d.level = 2 := by
  have below : wanderer.level < 2 := by decide
  have holds : (library wanderer).Holds wanderer := library_holds rfl
  have serves := library_serves wanderer
  obtain ⟨u, found⟩ := serves
  have served : Served (library wanderer) wanderer lessons :=
    ⟨"book", library wanderer, u, rfl, .refl _, found⟩
  have applied (level : Int) (above : wanderer.level < level) (within : level ≤ 2) :
      wanderer.isApplied level = true := by
    have first : wanderer.level = 1 := rfl
    obtain rfl : level = 2 := by omega
    decide
  have timely (times : Nat) (few : 2 * times < Moment.dayMicros) :
      (library wanderer).Timely times :=
    Store.Timely.of_year firstDay_legible (by decide) few
  obtain ⟨t, refused, kept⟩ := run_levelUp_classless 2
    (answersOf (Ledger.toValue .empty)) wanderer_sound holds served rfl
    (show Store.Timely _ (0 + 2) from timely 2 (by decide))
  obtain ⟨final, fresh, answers, t', later, goes, run, told, held⟩ :=
    arrives below (by decide) ({
      sound := wanderer_sound
      holds := holds
      served := served
      covers := fun level above within bare =>
        absurd bare (by simp [applied level above within])
      timely := timely 60 (by decide)
      spared := List.not_mem_nil } : Supplied .empty lessons 2 wanderer (library wanderer) 60)
  have level : final.level = 2 :=
    Journey.ascend_level (show _ = levelsBetween wanderer.settled.level 2 from rfl) (by decide) goes
  exact ⟨wanderer_sound, below, rfl, applied, holds, ⟨u, found⟩, answers, final.touch later, t, t',
    refused, kept, run, told, held, level⟩

end Tabletop

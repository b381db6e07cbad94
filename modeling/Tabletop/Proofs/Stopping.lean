import Tabletop.Proofs.WalkEnding

set_option autoImplicit false

namespace Tabletop

namespace Journey

open Character (levelsBetween)
open Store (Keeps Timely putCharacter_steady)

variable {pick : Pick} {r : Ruleset} {c d : Character} {level : Int}

-- setting out, and coming back

theorem stop_steady {α : Type} (o : Obstacle) : (stop o : Travel α).Steady :=
  ⟨fun _ => .error not_false⟩

theorem load_steady (id : String) : (load id).Steady := by
  refine Action.steady_bind (Action.steady_part (Store.getCharacter_steady id) _ _) fun c? => ?_
  cases c? with
  | none => exact stop_steady _
  | some c =>
    simp only
    cases given c.rulesetId with
    | none => exact stop_steady _
    | some rulesetId =>
      refine Action.steady_bind (Action.steady_part (Store.getRuleset_steady _) _ _) fun r? => ?_
      cases r? with
      | none => exact stop_steady _
      | some r =>
        simp only
        cases given c.classId with
        | none => exact stop_steady _
        | some cls => exact Action.steady_pure _

-- the character that was read, and then its ruleset
theorem served_keeps {s t : Store} {ruleset : String} {r : Ruleset} (legible : c.Legible)
    (holds : s.Holds c) (served : (Store.getRuleset ruleset).run (loaded s c) = (.ok (some r), t))
    {times : Nat} (timely : s.Timely (times + 2)) : t.Keeps c.settled ∧ t.Timely times := by
  obtain ⟨_, key, print, again⟩ := Store.getRuleset_again (.refl _) served
  obtain ⟨-, rfl⟩ := Prod.mk.inj (served.symm.trans again)
  refine ⟨⟨c, c.updatedAt, legible, holds.of_disk rfl rfl rfl, ?_, rfl⟩, ?_⟩
  · simp [loaded, Store.ticked]
  · have early : (loaded s c).Timely (times + 1) := .of_supply timely.tick rfl
    exact Store.Timely.tick (.of_supply early rfl)

theorem load_keeps {p : Party} {j after : Journey} (legible : c.Legible) (holds : j.store.Holds c)
    (run : (load c.id).run j = (.ok p, after)) {times : Nat}
    (timely : j.store.Timely (times + 2)) :
    Ready j.store c p.ruleset ∧ p.character = c.settled ∧ after.store.Keeps c.settled ∧
      after.store.Timely times := by
  obtain ⟨ready, character, ruleset, served⟩ := ready_of_load legible holds run
  exact ⟨ready, character, served_keeps legible holds served timely⟩

theorem save_steady (c : Character) : (save c).Steady :=
  Action.steady_bind (Action.steady_change _) fun _ => Action.steady_part (putCharacter_steady c) _ _

theorem touched_steady (c : Character) : (touched c).Steady :=
  Action.steady_bind (Action.steady_part Store.now_steady _ _) fun _ => Action.steady_pure _

-- a target that is not above the level is no stop
theorem lower_goes {target : Int} {j after : Journey} {outcome : Except Failure Advanced}
    (run : (lower c target).run j = (outcome, after)) : ¬ Stops outcome := by
  cases outcome with
  | error f =>
    have steady : (lower c target).Steady := Action.steady_bind (touched_steady _) fun _ =>
      Action.steady_bind (save_steady _) fun _ => Action.steady_pure _
    exact (steady.run j).other f (by rw [run])
  | ok a =>
    obtain ⟨d, k, -, saving⟩ := Action.bind_eq_ok run
    obtain ⟨_, l, -, told⟩ := Action.bind_eq_ok saving
    cases told
    exact Bool.false_ne_true

theorem finish_steady (p : Progress) : (finish p).Steady := by
  simp only [finish]
  split
  · exact Action.steady_pure _
  · exact Action.steady_bind (touched_steady _) fun _ =>
      Action.steady_bind (save_steady _) fun _ => Action.steady_pure _

theorem climb_stops {p : Party} {target : Int} {j after : Journey} {outcome : Except Failure Advanced}
    (legible : p.character.Legible) (settled : p.character.settled = p.character)
    (kept : j.store.Keeps p.character) (bound : target ≤ 20)
    (timely : j.store.Timely (levelsBetween p.character.level target).length)
    (run : (climb pick p target).run j = (outcome, after)) (stops : Stops outcome) :
    ∃ level, StopsAt level after.asked outcome ∧
      Halted pick p.ruleset p.character target level
        (savedLevel p.character level outcome) after.store := by
  have onWay : OnWay pick p.ruleset p.character p.character p.character.level p.character.level
      j.store := {
    legible := legible
    settled := settled
    id := rfl
    level := rfl
    above := Int.le_refl _
    below := Int.le_refl _
    reached := ⟨p.character, p.character.updatedAt, by
      rw [Character.levelsBetween_nil (Int.le_refl _)]; rfl, rfl⟩
    passed := fun l low high => by omega
    ahead := fun l _ => rfl
    last := (p.character.lastPending_self legible.level.2).symm
    kept := kept }
  simp only [climb, Action.run_bind] at run
  rcases walking : (walk pick ⟨p, [], p.character.level, none⟩
    (levelsBetween p.character.level target)).run j with ⟨f | q, k⟩
  · have ended := walk_ended onWay rfl rfl rfl bound timely walking
    rw [walking] at run
    cases run
    exact ended stops
  · have ended := walk_ended onWay rfl rfl rfl bound timely walking
    simp only [walking] at run
    rcases finishing : (finish q).run k with ⟨f | d, l⟩
    · rw [finishing] at run
      cases run
      exact absurd stops (((finish_steady q).run k).other f (by rw [finishing]))
    · rw [finishing] at run
      cases run
      obtain ⟨level, cancelled⟩ := Option.isSome_iff_exists.1 stops
      refine ⟨level, ⟨stops, by rw [cancelled]; rfl⟩, ?_⟩
      have same : after.store = k.store := by
        simp only [finish, cancelled] at finishing
        cases finishing
        rfl
      rw [same]
      exact ended level cancelled

/-- Wherever an advance stops at a level, all levels below are applied in the stored character, nothing of
the level itself, and but for its time and its level it is the character that applying those levels gives.
Its level is the one below, if the player cancelled; if the level failed, it is the last one below that
was not applied before the advance, or the level of the start. -/
theorem advance_stopped {supply : Supply} {v : Value} {c : Character} {notices : List Notice}
    (json : Json.plain v = .ok v) (now : supply.now.Legible) (next : supply.now.next.Legible)
    (reads : Character.ofValue supply v = .ok (c, notices)) {s : Store} (stored : s.Holds c)
    (clock : s.supply.now.Legible) (year : s.supply.now.date.year < 9999) {target : Int} {pick : Pick}
    {outcome : Except Failure Advanced} {after : Journey}
    (run : (advance c.id target pick).run (setOut s) = (outcome, after)) (stops : Stops outcome) :
    ∃ start r level x kept later t u, (Store.getCharacter c.id).run s = (.ok (some start), t) ∧
      Ready s c r ∧ StopsAt level after.asked outcome ∧
      start.level < level ∧ level ≤ clamp target 1 20 ∧
      (levelsBetween start.level (level - 1)).foldlM (taught pick r) start = .ok x ∧
      (∀ l, start.level < l → l < level → x.isApplied l = true) ∧ x.isApplied level = false ∧
      (Store.getCharacter c.id).run after.store = (.ok (some kept), u) ∧
      kept = Character.touch { x with level := kept.level } later ∧
      kept.level = savedLevel start level outcome := by
  obtain ⟨legible, -⟩ := Character.ofValue_legible json now next reads
  have settled : c.settled.settled = c.settled :=
    Character.settled_settled (Character.ofValue_settling reads)
  have timely : s.Timely (20 + 2) := Store.Timely.of_year clock year (by decide)
  simp only [advance, Action.run_bind] at run
  rcases loading : (load c.id).run (setOut s) with ⟨f | p, k⟩
  · rw [loading] at run
    cases run
    exact absurd stops (((load_steady c.id).run (setOut s)).other f (by rw [loading]))
  · obtain ⟨ready, same, keeps, early⟩ := load_keeps legible stored loading timely
    obtain ⟨d, r⟩ := p
    obtain rfl : d = c.settled := same
    simp only [loading] at run
    by_cases reached : clamp target 1 20 ≤ c.settled.level
    · rw [if_pos reached] at run
      exact absurd stops (lower_goes run)
    · rw [if_neg reached] at run
      have bounds : 1 ≤ clamp target 1 20 ∧ clamp target 1 20 ≤ 20 := clamp_mem (by decide)
      have first : 1 ≤ c.settled.level := legible.level.1
      have few : (levelsBetween c.settled.level (clamp target 1 20)).length ≤ 20 := by
        simp only [levelsBetween, List.length_map, List.length_range]
        omega
      obtain ⟨level, stopped, halted⟩ :=
        climb_stops { legible with } settled keeps bounds.2 (early.mono few) run stops
      obtain ⟨x, later, u, taught, below, bare, got⟩ := halted.stored
      have found := Store.run_getCharacter legible stored
      exact ⟨c.settled, r, level, x, _, later, _, u, found, ready, stopped, halted.above, halted.within,
        taught, below, bare, got, rfl, rfl⟩

end Journey

-- a novice whose ledger was filled before, without the level being raised

namespace Novice

open Store (Timely)

def returner (ledger : Ledger) : Character :=
  { pupil with advancement := ledger }

def second : Ledger :=
  Dict.empty.insert "2" (Dict.empty.insert "a" ["light"])

def third : Ledger :=
  second.insert "3" (Dict.empty.insert "b" ["light"])

theorem second_keyed : Ledger.Keyed second :=
  Ledger.Keyed.empty.insert 2 (by decide) rfl

theorem third_keyed : Ledger.Keyed third :=
  second_keyed.insert 3 (by decide) rfl

theorem returner_sound {ledger : Ledger} (keyed : Ledger.Keyed ledger) : (returner ledger).Sound where
  legible := { pupil_sound.legible with ledger := keyed }
  ascii := { pupil_sound.ascii with }
  six := pupil_sound.six

theorem returner_settled (ledger : Ledger) : (returner ledger).settled = returner ledger := by
  have settled : pupil.settled = pupil :=
    Character.settled_settled (Character.AsciiKeys.settling ⟨by decide, by decide⟩)
  exact Character.settled_of_same settled rfl rfl

theorem returner_loads {ledger : Ledger} (keyed : Ledger.Keyed ledger) :
    ∃ imported t, (Journey.load "hero").run (Journey.setOut (library (returner ledger))) =
        (.ok ⟨returner ledger, lessons.importedOn imported⟩, Journey.setOut t) ∧
      t.Reads (returner ledger) ∧ true ∉ t.disk.faults := by
  obtain ⟨u, served⟩ := library_serves (returner ledger)
  have ready : Journey.Ready (library (returner ledger)) (returner ledger) lessons :=
    ⟨⟨"book", library (returner ledger), u, rfl, .refl _, served⟩, "wizard", rfl⟩
  have timely : (library (returner ledger)).Timely (0 + 2) :=
    Store.Timely.of_year firstDay_legible (show firstDay.date.year < 9999 by decide) (by decide)
  obtain ⟨imported, t, run, since, reads, -⟩ := Journey.run_load (j := Journey.setOut _)
    (returner_sound keyed) (library_holds rfl) ready timely
  rw [returner_settled] at run reads
  exact ⟨imported, t, run, reads, fun fault => List.not_mem_nil (since.faults _ fault)⟩

-- level 2 is passed, and the player cancels at level 3
theorem returner_cancels : ∃ a after,
    (Journey.advance "hero" 3 (lightUpTo 2)).run (Journey.setOut (library (returner second))) =
      (.ok a, after) ∧ a.cancelled = true := by
  obtain ⟨imported, t, run, reads, spared⟩ := returner_loads second_keyed
  have above : ¬ clamp 3 1 20 ≤ (returner second).level := by decide
  have ahead : Character.levelsBetween (returner second).level (clamp 3 1 20) = [2, 3] := by decide
  let p : Journey.Progress :=
    ⟨⟨returner second, lessons.importedOn imported⟩, [], (returner second).level, none⟩
  have two : p.party.character.isApplied 2 = true :=
    show (returner second).isApplied 2 = true by decide
  have three : (p.atLevel 2).party.character.isApplied 3 = false :=
    show (returner second).isApplied 3 = false by decide
  have node : (p.atLevel 2).party.ruleset.node? (p.atLevel 2).party.character.classId 3 =
      some ⟨[], [spellChoice "b"]⟩ := show lessons.node? (some "wizard") 3 = _ by decide
  obtain ⟨options, offered⟩ : ∃ options, (p.atLevel 2).party.ruleset.optionsFor
      (p.atLevel 2).party.character.classId (spellChoice "b") 3
      (p.atLevel 2).party.character.subclassId = .ok options := ⟨_, rfl⟩
  let k : Journey := ⟨t, [⟨3, spellChoice "b", options⟩], none⟩
  have asking : (Journey.ask (lightUpTo 2) (p.atLevel 2).party 3 .empty [spellChoice "b"]).run
      (Journey.setOut t) = (.ok none, k) := by
    simp only [Journey.ask, Action.run_bind, offered]
    rfl
  have bounds : (1 : Int) ≤ 2 ∧ (2 : Int) ≤ 20 := by decide
  have sound := (returner_sound second_keyed).atLevel bounds
  have settled := Character.settled_atLevel (returner_settled second) 2
  obtain ⟨u, -, -, ⟨saved, -⟩ | ⟨-, -, fault⟩⟩ :=
    Store.putCharacter_raised reads sound settled rfl (by decide)
  · have saving : (Journey.save (p.atLevel 2).party.character).run k =
        (.ok (), { k with store := u, last := some (p.atLevel 2).party.character }) := by
      rw [Journey.run_save]
      rw [show (Store.putCharacter (p.atLevel 2).party.character).run k.store = _ from saved]
    have walked : (Journey.walk (lightUpTo 2) p [2, 3]).run (Journey.setOut t) =
        (.ok { p.atLevel 2 with cancelledAt := some 3 },
          { k with store := u, last := some (p.atLevel 2).party.character }) := by
      rw [Journey.walk_pass two, Journey.walk, if_neg (by simp [three])]
      simp only [Journey.step, node, Action.run_bind, asking, saving]
      rfl
    simp only [Journey.advance, Action.run_bind, run, if_neg above, Journey.climb, ahead]
    rw [walked]
    exact ⟨_, _, rfl, rfl⟩
  · exact absurd fault spared

end Novice

open Novice in
-- the level above those in the ledger is missing, and the stored level is where it was
theorem returner_left_behind :
    (library (returner third)).Holds (returner third) ∧
      ∃ levels after kept t,
        (Journey.advance "hero" 4 (lightUpTo 4)).run (Journey.setOut (library (returner third))) =
          (.error (.levelUp (.progressionMissing (some "wizard") 4 levels)), after) ∧
        (Store.getCharacter "hero").run after.store = (.ok (some kept), t) ∧
        kept.isApplied 2 = true ∧ kept.isApplied 3 = true ∧ kept.level ≠ 4 - 1 := by
  obtain ⟨imported, t, run, ⟨c, sound, holds, -, settled⟩, -⟩ := returner_loads third_keyed
  have id : c.id = "hero" := congrArg (fun d => d.id) settled
  have got := Store.run_getCharacter sound.legible holds
  rw [id, settled] at got
  have above : ¬ clamp 4 1 20 ≤ (returner third).level := by decide
  have ahead : Character.levelsBetween (returner third).level (clamp 4 1 20) = [2, 3, 4] := by decide
  let p : Journey.Progress :=
    ⟨⟨returner third, lessons.importedOn imported⟩, [], (returner third).level, none⟩
  have two : p.party.character.isApplied 2 = true :=
    show (returner third).isApplied 2 = true by decide
  have three : (p.atLevel 2).party.character.isApplied 3 = true :=
    show (returner third).isApplied 3 = true by decide
  have four : ((p.atLevel 2).atLevel 3).party.character.isApplied 4 = false :=
    show (returner third).isApplied 4 = false by decide
  have walked : (Journey.walk (lightUpTo 4) p [2, 3, 4]).run (Journey.setOut t) = (.error (.levelUp
      (.progressionMissing (some "wizard") 4 (lessons.levels (some "wizard")))), Journey.setOut t) := by
    rw [Journey.walk_pass two, Journey.walk_pass three]
    exact Journey.walk_missing _ four (show lessons.node? (some "wizard") 4 = none by decide)
  refine ⟨library_holds rfl, lessons.levels (some "wizard"), Journey.setOut t, returner third, _, ?_, got,
    by decide, by decide, by decide⟩
  simp only [Journey.advance, Action.run_bind, run, if_neg above, Journey.climb, ahead]
  rw [walked]

open Novice in
theorem advance_stopped_returner :
    ∃ outcome after start r level x kept later t u,
      (Journey.advance "hero" 3 (lightUpTo 2)).run (Journey.setOut (library (returner second))) =
        (outcome, after) ∧ Journey.Stops outcome ∧
      (Store.getCharacter "hero").run (library (returner second)) = (.ok (some start), t) ∧
      Journey.Ready (library (returner second)) (returner second) r ∧
      Journey.StopsAt level after.asked outcome ∧ start.level < level ∧ level ≤ clamp 3 1 20 ∧
      (Character.levelsBetween start.level (level - 1)).foldlM (Journey.taught (lightUpTo 2) r) start =
        .ok x ∧
      (∀ l, start.level < l → l < level → x.isApplied l = true) ∧ x.isApplied level = false ∧
      (Store.getCharacter "hero").run after.store = (.ok (some kept), u) ∧
      kept = Character.touch { x with level := kept.level } later ∧
      kept.level = Journey.savedLevel start level outcome := by
  have legible : Character.Legible { novice with advancement := second } :=
    { novice_legible with ledger := second_keyed }
  have json : Json.plain (Character.toValue { novice with advancement := second }) = .ok _ :=
    (Character.proper_toValue _).plain
  have reads := Character.ofValue_toValue legible (library (returner second)).supply
  obtain ⟨now, next⟩ := library_clock (returner second)
  obtain ⟨a, after, run, cancelled⟩ := returner_cancels
  obtain ⟨start, r, level, x, kept, later, t, u, stopped⟩ := Journey.advance_stopped json now next reads
    (library_holds rfl) now (by decide) run cancelled
  exact ⟨.ok a, after, start, r, level, x, kept, later, t, u, run, cancelled, stopped⟩

end Tabletop

import Tabletop.Proofs.Climbing

set_option autoImplicit false

namespace Tabletop

namespace Journey

open Character (levelsBetween)
open Store (Since Holds Timely SameElse)

-- where an advance stops, the stored character leads to the end of the uninterrupted advance
theorem advance_leads {f g : Pick} (cuts : Cuts f g) {r : Ruleset} {c : Character} {j : Journey}
    {target : Int} {final : Character} {fresh : List Int} {times : Nat} (sound : c.Sound)
    (holds : j.store.Holds c) (ready : Ready j.store c r) (below : c.level ≤ clamp target 1 20)
    (goes : ∃ now, ascend f r c.settled (levelsBetween c.level (clamp target 1 20)) =
      some (final.touch now, fresh))
    (timely : j.store.Timely (times + 22)) :
    ∃ outcome after, (advance c.id target g).run j = (outcome, after) ∧ Since j.store after.store ∧
      after.store.Timely times ∧
      Climbed f g r (clamp target 1 20) final j.store fresh outcome after.store := by
  have bounds : 1 ≤ clamp target 1 20 ∧ clamp target 1 20 ≤ 20 := clamp_mem (by decide)
  have first := sound.legible.level.1
  have settled : c.settled.settled = c.settled := Character.settled_settled sound.ascii.settling
  obtain ⟨imported, t, run, since, kept, early⟩ := run_load sound holds ready
    (show j.store.Timely (times + 20 + 2) from timely)
  let k : Journey := { j with store := t }
  have again : ∃ now, ascend f (r.importedOn imported) c.settled
      (levelsBetween c.level (clamp target 1 20)) = some (final.touch now, fresh) := by
    simpa only [ascend_importedOn] using goes
  have both : ∃ outcome after, (if clamp target 1 20 ≤ c.settled.level
        then lower c.settled (clamp target 1 20)
        else climb g ⟨c.settled, r.importedOn imported⟩ (clamp target 1 20)).run k =
          (outcome, after) ∧ Since t after.store ∧ after.store.Timely times ∧
      Climbed f g (r.importedOn imported) (clamp target 1 20) final t fresh outcome after.store := by
    by_cases arrived : clamp target 1 20 ≤ c.settled.level
    · rw [if_pos arrived]
      exact lower_leads (j := k) sound.settled settled kept (Int.le_antisymm below arrived) again
        (early.mono (by omega))
    · rw [if_neg arrived]
      have few : (levelsBetween c.level (clamp target 1 20)).length ≤ 19 := by
        simp only [levelsBetween, List.length_map, List.length_range]
        omega
      exact climb_leads (j := k) cuts sound.settled settled kept (by simpa using arrived) bounds.2
        again (early.mono (by simp only [Character.settled]; omega))
  obtain ⟨outcome, after, ran, later, left, climbed⟩ := both
  refine ⟨outcome, after, ?_, since.trans later, left, ?_⟩
  · simp only [advance, Action.run_bind, run]
    exact ran
  · exact climbed.since since

-- an advance that succeeds tells that there is a way up
theorem ascend_of_advance {f : Pick} {c : Character} {j ending : Journey} {target : Int}
    {full : Advanced} (sound : c.Sound) (holds : j.store.Holds c)
    (succeeds : (advance c.id target f).run j = (.ok full, ending))
    (uncancelled : full.cancelled = false) :
    ∃ r final fresh, Ready j.store c r ∧
      ascend f r c.settled (levelsBetween c.level (clamp target 1 20)) = some (final, fresh) := by
  simp only [advance, Action.run_bind] at succeeds
  rcases set_out : (load c.id).run j with ⟨_ | p, k⟩
  · rw [set_out] at succeeds
    cases succeeds
  · obtain ⟨ready, character, -⟩ := ready_of_load sound.legible holds set_out
    simp only [set_out, character] at succeeds
    by_cases arrived : clamp target 1 20 ≤ c.settled.level
    · have none : levelsBetween c.level (clamp target 1 20) = [] :=
        Character.levelsBetween_nil arrived
      exact ⟨p.ruleset, c.settled, [], ready, by rw [none, ascend]⟩
    · rw [if_neg arrived] at succeeds
      simp only [climb, Action.run_bind] at succeeds
      rcases walked : (walk f ⟨p, [], p.character.level, none⟩
        (levelsBetween p.character.level (clamp target 1 20))).run k with ⟨_ | q, l⟩
      · rw [walked] at succeeds
        cases succeeds
      · simp only [walked] at succeeds
        rcases finished : (finish q).run l with ⟨_ | d, m⟩
        · rw [finished] at succeeds
          cases succeeds
        · rw [finished] at succeeds
          cases succeeds
          have whole := ascend_of_walk walked (by simpa using uncancelled)
          rw [Option.isSome_iff_exists] at whole
          obtain ⟨⟨final, fresh⟩, goes⟩ := whole
          simp only [character] at goes
          exact ⟨p.ruleset, final, fresh, ready, goes⟩

theorem Cuts.refl (f : Pick) : Cuts f f :=
  fun _ _ _ => .inl rfl

-- the advance from a character whose way up is known, if no write fails
theorem advance_arrives {f : Pick} {r : Ruleset} {c : Character} {s : Store} {target : Int}
    {final : Character} {fresh : List Int} (sound : c.Sound) (holds : s.Holds c)
    (ready : Ready s c r) (below : c.level ≤ clamp target 1 20)
    (goes : ∃ now, ascend f r c.settled (levelsBetween c.level (clamp target 1 20)) =
      some (final.touch now, fresh))
    (timely : s.Timely 22) (spared : true ∉ s.disk.faults) :
    ∃ a after now, (advance c.id target f).run (setOut s) = (.ok a, after) ∧ a.applied = fresh ∧
      a.cancelled = false ∧ after.store.Holds (final.touch now) := by
  obtain ⟨outcome, after, run, -, -, climbed⟩ := advance_leads (.refl f) sound
    (j := setOut s) holds ready below goes (show s.Timely (0 + 22) from timely)
  cases outcome with
  | error e => exact absurd climbed.2.1 spared
  | ok a =>
    obtain ⟨-, whole, other⟩ := climbed
    cases cancelled : a.cancelled with
    | true => exact absurd rfl (other cancelled)
    | false =>
      obtain ⟨applied, now, holds⟩ := whole cancelled
      exact ⟨a, after, now, run, applied, cancelled, holds⟩

-- what the store holds when an advance has stopped can be advanced to the same end
theorem Leads.arrives {f : Pick} {r : Ruleset} {c final : Character} {s : Store} {target : Int}
    {left : List Int} (leads : Leads f r (clamp target 1 20) final s left)
    (level : final.level = clamp target 1 20) (same : final.id = c.id)
    (ready : ∀ d, d.rulesetId = final.rulesetId → d.classId = final.classId → Ready s d r)
    (timely : s.Timely 22) (spared : true ∉ s.disk.faults) :
    ∃ a after now, (advance c.id target f).run (setOut s) = (.ok a, after) ∧ a.applied = left ∧
      after.store.Holds (final.touch now) := by
  obtain ⟨e, now, ⟨d, sound, holds, -, rfl⟩, goes⟩ := leads
  obtain ⟨id, ruleset, cls⟩ := ascend_identity goes
  have below : d.level ≤ clamp target 1 20 := by
    by_cases above : clamp target 1 20 ≤ d.settled.level
    · rw [Character.levelsBetween_nil above, ascend, Option.some.injEq, Prod.mk.injEq] at goes
      have reached : d.settled.level = (final.touch now).level := congrArg Character.level goes.1
      simp only [Character.settled, Character.touch] at reached
      omega
    · simp only [Character.settled] at above
      omega
  obtain ⟨a, after, later, run, applied, -, held⟩ := advance_arrives sound holds
    (ready d ruleset.symm cls.symm) below ⟨now, goes⟩ timely spared
  have ids : d.id = c.id := id.symm.trans same
  exact ⟨a, after, later, ids ▸ run, applied, held⟩

/-- An advance that was interrupted, by cancelling or by a write that failed, ends after a second
advance where the uninterrupted one ends. -/
theorem advance_resumed {supply : Supply} {v : Value} {c : Character} {notices : List Notice}
    (json : Json.plain v = .ok v) (now : supply.now.Legible) (next : supply.now.next.Legible)
    (reads : Character.ofValue supply v = .ok (c, notices)) (ascii : c.AsciiKeys) {s : Store}
    (stored : s.Holds c) (clock : s.supply.now.Legible) (year : s.supply.now.date.year < 9999)
    {target : Int} (above : c.level < target) {f g : Pick} (cuts : Cuts f g) {full : Advanced}
    {ending : Journey}
    (succeeds : (advance c.id target f).run (setOut (s.withFaults [])) = (.ok full, ending))
    (uncancelled : full.cancelled = false) {faults : List Bool} {outcome : Except Failure Advanced}
    {stopped : Journey}
    (first : (advance c.id target g).run (setOut (s.withFaults faults)) = (outcome, stopped)) :
    ∃ again resumed d later,
      (advance c.id target f).run (setOut (stopped.store.withFaults [])) = (.ok again, resumed) ∧
      ending.store.Holds d ∧ resumed.store.Holds (d.touch later) ∧
      ∀ partway, outcome = .ok partway → partway.applied ++ again.applied = full.applied := by
  obtain ⟨legible, six⟩ := Character.ofValue_legible json now next reads
  have sound : c.Sound := ⟨legible, ascii, six⟩
  have bounds := legible.level
  have below : c.level ≤ clamp target 1 20 := by
    unfold clamp
    omega
  have timely (faults : List Bool) : (s.withFaults faults).Timely 44 :=
    Store.Timely.of_year clock year (by decide)
  have holds (faults : List Bool) : (s.withFaults faults).Holds c := stored.of_disk rfl rfl rfl
  obtain ⟨r, final, fresh, ready, goes⟩ := ascend_of_advance sound (holds []) succeeds uncancelled
  obtain ⟨id, ruleset, cls⟩ := ascend_identity goes
  have level : final.level = clamp target 1 20 :=
    ascend_level (show _ = levelsBetween c.settled.level _ from rfl) below goes
  have readyWith (faults : List Bool) : Ready (s.withFaults faults) c r :=
    ready.of_same ((SameElse.withFaults s []).symm.trans (.withFaults s faults)) rfl rfl
  obtain ⟨a, after, now, run, applied, -, held⟩ := advance_arrives sound (holds []) ready below
    ⟨final.updatedAt, goes⟩ ((timely []).mono (by omega)) (by simp [Store.withFaults])
  rw [succeeds, Prod.mk.injEq, Except.ok.injEq] at run
  obtain ⟨rfl, rfl⟩ := run
  obtain ⟨reached, halt, ran, since, early, climbed⟩ := advance_leads cuts sound
    (j := setOut (s.withFaults faults)) (holds faults) (readyWith faults) below
    ⟨final.updatedAt, goes⟩ (show (s.withFaults faults).Timely (22 + 22) from timely faults)
  rw [first, Prod.mk.injEq] at ran
  obtain ⟨rfl, rfl⟩ := ran
  have leads : ∃ left, Leads f r (clamp target 1 20) final stopped.store left ∧
      ∀ partway, outcome = .ok partway → partway.applied ++ left = fresh := by
    cases outcome with
    | ok partway =>
      obtain ⟨⟨left, split, leads⟩, -⟩ := climbed
      refine ⟨left, leads, fun other same => ?_⟩
      cases same
      exact split
    | error e =>
      obtain ⟨-, -, left, leads⟩ := climbed
      exact ⟨left, leads, fun other same => by cases same⟩
  obtain ⟨left, ⟨e, moment, kept, ahead⟩, split⟩ := leads
  have again : Leads f r (clamp target 1 20) final (stopped.store.withFaults []) left :=
    ⟨e, moment, kept.withFaults [], ahead⟩
  have back : SameElse (s.withFaults []) (stopped.store.withFaults []) :=
    ((SameElse.withFaults s []).symm.trans (.withFaults s faults)).trans
      (since.same.trans (.withFaults _ []))
  obtain ⟨more, resumed, later, run, rest, holds⟩ := again.arrives level id
    (fun d sameRuleset sameClass => ready.of_same back (sameRuleset.trans ruleset)
      (sameClass.trans cls)) (early.of_supply rfl) (by simp [Store.withFaults])
  exact ⟨more, resumed, final.touch now, later, run, held, holds,
    fun partway same => by rw [rest, split partway same, applied]⟩

end Journey

namespace Novice

def choiceEntry (id : String) : Value :=
  .map [(.str "choices", .list
    [.map [(.str "id", .str id), (.str "from", .str "spells"), (.str "count", .int 1)]])]

def book : Value :=
  .map [(.str "meta", .map [(.str "id", .str "book")]),
    (.str "classes", .map [(.str "wizard", .map [(.str "name", .str "Wizard"),
      (.str "progression", .map [(.str "2", choiceEntry "a"), (.str "3", choiceEntry "b")])])]),
    (.str "spells", .list
      [.map [(.str "id", .str "light"), (.str "name", .str "Light"), (.str "level", .int 1)]])]

def bookRecord : Field.Entries :=
  [(.str "id", .str "book"), (.str "name", .str "book"), (.str "version", .str "1.0"),
    (.str "imported_at", .str "2020-01-01T00:00:00"), (.str "data", book)]

-- the ruleset that the book describes
def lessons : Ruleset where
  id := "book"
  name := "book"
  version := "1.0"
  classes := Dict.empty.insert "wizard"
    { id := "wizard"
      name := "Wizard"
      hitDie := 8
      progression := (Dict.empty.insert 2 ⟨[], [spellChoice "a"]⟩).insert 3 ⟨[], [spellChoice "b"]⟩
      castingAbility := none
      spellSlots := .empty }
  pools := ⟨[⟨"light", "Light", some 1, .empty, [], none, ""⟩], [], [], [], .empty⟩
  features := .empty
  importedAt := firstDay
  document := book

def pupil : Character := novice.settled

-- a store with the book and a character called hero
def library (c : Character) : Store where
  disk :=
    { base := ""
      files := (Dict.empty.insert ["rulesets", "book.json"] (.document (.map bookRecord))).insert
        ["characters", "hero.json"] (.document c.toValue)
      folders := [["rulesets"], ["characters"]]
      faults := [] }
  root := []
  known := .empty
  supply := ⟨0, firstDay⟩

-- picks the light spell up to a level, and then cancels
def lightUpTo (last : Int) : Pick := fun _ _ level =>
  .ok (if level ≤ last then some (.listed (.ids ["light"])) else none)

theorem firstDay_legible : firstDay.Legible :=
  ⟨rfl, rfl, by decide, by simp [firstDay]⟩

theorem novice_legible : novice.Legible := by
  refine ⟨by decide, by decide, by decide, by decide, ?_, ?_, ?_, firstDay_legible, firstDay_legible⟩
  all_goals simp [novice, Dict.empty]

theorem pupil_sound : pupil.Sound :=
  .of_settled novice_legible ⟨by decide, by decide⟩

theorem choiceEntry_proper (id : String) : Json.Proper (choiceEntry id) := by
  have fields : Json.Proper (.map
      [(.str "id", .str id), (.str "from", .str "spells"), (.str "count", .int 1)]) :=
    .map (.of_names ["id", "from", "count"] rfl (by decide)) (by simp [Json.Proper.str, Json.Proper.int])
  refine .map (.of_names ["choices"] rfl (by decide)) ?_
  simpa using Json.Proper.list (by simpa using fields)

theorem bookRecord_proper : Json.Proper (.map bookRecord) := by
  have entry := choiceEntry_proper
  have title : Json.Proper (.map [(.str "id", .str "book")]) :=
    .map (.of_names ["id"] rfl (by decide)) (by simp [Json.Proper.str])
  have progression : Json.Proper (.map [(.str "2", choiceEntry "a"), (.str "3", choiceEntry "b")]) :=
    .map (.of_names ["2", "3"] rfl (by decide)) (by simp [entry])
  have wizard : Json.Proper (.map [(.str "name", .str "Wizard"), (.str "progression",
      .map [(.str "2", choiceEntry "a"), (.str "3", choiceEntry "b")])]) :=
    .map (.of_names ["name", "progression"] rfl (by decide)) (by simp [Json.Proper.str, progression])
  have classes : Json.Proper (.map [(.str "wizard", .map [(.str "name", .str "Wizard"),
      (.str "progression", .map [(.str "2", choiceEntry "a"), (.str "3", choiceEntry "b")])])]) :=
    .map (.of_names ["wizard"] rfl (by decide)) (by simp [wizard])
  have spell : Json.Proper (.map
      [(.str "id", .str "light"), (.str "name", .str "Light"), (.str "level", .int 1)]) :=
    .map (.of_names ["id", "name", "level"] rfl (by decide)) (by simp [Json.Proper.str, Json.Proper.int])
  have spells : Json.Proper (.list
      [.map [(.str "id", .str "light"), (.str "name", .str "Light"), (.str "level", .int 1)]]) :=
    .list (by simp [spell])
  have data : Json.Proper book :=
    .map (.of_names ["meta", "classes", "spells"] rfl (by decide)) (by simp [title, classes, spells])
  exact .map (.of_names ["id", "name", "version", "imported_at", "data"] rfl (by decide))
    (by simp [bookRecord, Json.Proper.str, data])

theorem library_place (who : Character) (c : Collection) (id name : String)
    (encoded : Text.percentEncode id = name) (usual : name ≠ "" ∧ name ≠ "." ∧ name ≠ "..") :
    (library who).place c id = .ok [c.name, name ++ ".json"] := by
  simp [Store.place, Store.recordName, encoded, usual, Except.map, Store.folder, library]

theorem library_holds {c : Character} (id : c.id = "hero") : (library c).Holds c := by
  refine ⟨["characters", "hero.json"], ?_, ?_, ?_⟩
  · rw [id]
    exact library_place c .characters "hero" "hero" (by decide +kernel) (by decide)
  · exact ⟨rfl, rfl, rfl, rfl, by decide⟩
  · simp [library]

theorem library_serves (c : Character) :
    ∃ u, (Store.getRuleset "book").run (library c) = (.ok (some lessons), u) := by
  have read : Store.rulesetOf firstDay bookRecord = .ok (some lessons) := by
    have same : (Store.rulesetOf firstDay bookRecord).toOption = some (some lessons) := by
      decide +kernel
    cases found : Store.rulesetOf firstDay bookRecord with
    | error f => simp [found, Except.toOption] at same
    | ok r => simpa [found, Except.toOption] using same
  have file : (library c).disk.files.get? ["rulesets", "book.json"] =
      some (.document (.map bookRecord)) := by
    simp [library, Dict.get?_insert]
  exact Store.getRuleset_of_file
    (library_place c .rulesets "book" "book" (by decide +kernel) (by decide)) rfl file
    bookRecord_proper rfl read

theorem library_ready : Journey.Ready (library pupil) pupil lessons := by
  obtain ⟨u, served⟩ := library_serves pupil
  exact ⟨⟨"book", library pupil, u, rfl, .refl _, served⟩, "wizard", rfl⟩

theorem pupil_read (supply : Supply) : Character.ofValue supply novice.toValue = .ok (pupil, []) :=
  Character.ofValue_toValue novice_legible supply

theorem library_clock (c : Character) :
    (library c).supply.now.Legible ∧ (library c).supply.now.next.Legible := by
  have spare : firstDay.Spare (0 + 1) := .inl (by decide)
  obtain ⟨next, -⟩ := Moment.next_legible firstDay_legible spare
  exact ⟨firstDay_legible, next⟩

theorem pupil_goes : ∃ final fresh, Journey.ascend (lightUpTo 3) lessons pupil.settled
    (Character.levelsBetween pupil.level (clamp 3 1 20)) = some (final, fresh) := by
  have reaches : (Journey.ascend (lightUpTo 3) lessons pupil.settled
      (Character.levelsBetween pupil.level (clamp 3 1 20))).isSome = true := by decide +kernel
  obtain ⟨⟨final, fresh⟩, goes⟩ := Option.isSome_iff_exists.1 reaches
  exact ⟨final, fresh, goes⟩

theorem pupil_advances : ∃ full ending, (Journey.advance pupil.id 3 (lightUpTo 3)).run
    (Journey.setOut ((library pupil).withFaults [])) = (.ok full, ending) ∧ full.cancelled = false := by
  obtain ⟨final, fresh, goes⟩ := pupil_goes
  have holds : ((library pupil).withFaults []).Holds pupil := (library_holds rfl).of_disk rfl rfl rfl
  have ready : Journey.Ready ((library pupil).withFaults []) pupil lessons :=
    library_ready.of_same (.withFaults (library pupil) []) rfl rfl
  have timely : ((library pupil).withFaults []).Timely 22 :=
    Store.Timely.of_year firstDay_legible (by decide) (by decide)
  have below : pupil.level ≤ clamp 3 1 20 := by decide
  have way : ∃ now, Journey.ascend (lightUpTo 3) lessons pupil.settled
      (Character.levelsBetween pupil.level (clamp 3 1 20)) = some (final.touch now, fresh) :=
    ⟨final.updatedAt, goes⟩
  obtain ⟨a, after, -, run, -, whole, -⟩ := Journey.advance_arrives pupil_sound holds ready below
    way timely (by decide)
  exact ⟨a, after, run, whole⟩

end Novice

open Novice in
theorem advance_resumed_novice :
    ∃ full ending again resumed d later,
      (Journey.advance pupil.id 3 (lightUpTo 3)).run (Journey.setOut ((library pupil).withFaults [])) =
        (.ok full, ending) ∧
      (Journey.advance pupil.id 3 (lightUpTo 3)).run (Journey.setOut
        (((Journey.advance pupil.id 3 (lightUpTo 2)).run
          (Journey.setOut ((library pupil).withFaults [true]))).2.store.withFaults [])) =
        (.ok again, resumed) ∧
      ending.store.Holds d ∧ resumed.store.Holds (d.touch later) := by
  obtain ⟨full, ending, succeeds, uncancelled⟩ := pupil_advances
  have cuts : Journey.Cuts (lightUpTo 3) (lightUpTo 2) := by
    intro choice options level
    by_cases low : level ≤ 2
    · have lower : level ≤ 3 := by omega
      exact .inl (by simp [lightUpTo, low, lower])
    · exact .inr (by simp [lightUpTo, low])
  have json : Json.plain novice.toValue = .ok novice.toValue := novice.proper_toValue.plain
  have reads := pupil_read (library pupil).supply
  obtain ⟨now, next⟩ := library_clock pupil
  have year : (library pupil).supply.now.date.year < 9999 := by decide
  have above : pupil.level < 3 := by decide
  rcases first : (Journey.advance pupil.id 3 (lightUpTo 2)).run
    (Journey.setOut ((library pupil).withFaults [true])) with ⟨outcome, stopped⟩
  obtain ⟨again, resumed, d, later, run, held, kept, -⟩ := Journey.advance_resumed json now next
    reads pupil_sound.ascii (library_holds rfl) now year above cuts succeeds uncancelled first
  exact ⟨full, ending, again, resumed, d, later, succeeds, run, held, kept⟩

end Tabletop

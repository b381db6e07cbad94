import Tabletop.Proofs.Chronicle
import Tabletop.Proofs.Walking

set_option autoImplicit false

namespace Tabletop

namespace Store

variable {s t : Store}

def withFaults (s : Store) (faults : List Bool) : Store :=
  { s with disk := { s.disk with faults := faults } }

theorem SameElse.withFaults (s : Store) (faults : List Bool) : SameElse s (s.withFaults faults) :=
  ⟨rfl, rfl, fun _ _ => rfl⟩

theorem Holds.of_disk {c : Character} (holds : s.Holds c) (root : t.root = s.root)
    (folders : t.disk.folders = s.disk.folders) (files : t.disk.files = s.disk.files) : t.Holds c := by
  obtain ⟨p, placed, place, file⟩ := holds
  refine ⟨p, ?_, place.of_folders folders, by rw [files, file]⟩
  rw [Store.place, folder, root]
  exact placed

theorem Reads.withFaults {e : Character} (reads : s.Reads e) (faults : List Bool) :
    (s.withFaults faults).Reads e := by
  obtain ⟨c, sound, holds, known, rfl⟩ := reads
  exact ⟨c, sound, holds.of_disk rfl rfl rfl, known, rfl⟩

end Store

namespace Journey

open Character (levelsBetween)
open Store (Since Reads Holds Timely SameElse)

def setOut (s : Store) : Journey :=
  ⟨s, [], none⟩

-- the character has a ruleset, and the store serves it
def Served (s : Store) (c : Character) (r : Ruleset) : Prop :=
  ∃ ruleset t u, given c.rulesetId = some ruleset ∧ SameElse s t ∧
    (Store.getRuleset ruleset).run t = (.ok (some r), u)

-- and the character has a class
def Ready (s : Store) (c : Character) (r : Ruleset) : Prop :=
  Served s c r ∧ ∃ cls, given c.classId = some cls

theorem Served.of_same {s t : Store} {c d : Character} {r : Ruleset} (served : Served s c r)
    (same : SameElse s t) (ruleset : d.rulesetId = c.rulesetId) : Served t d r := by
  obtain ⟨id, u, v, hasRuleset, there, found⟩ := served
  exact ⟨id, u, v, by rw [ruleset, hasRuleset], same.symm.trans there, found⟩

theorem Ready.of_same {s t : Store} {c d : Character} {r : Ruleset} (ready : Ready s c r)
    (same : SameElse s t) (ruleset : d.rulesetId = c.rulesetId) (cls : d.classId = c.classId) :
    Ready t d r := by
  obtain ⟨served, name, hasClass⟩ := ready
  exact ⟨served.of_same same ruleset, name, by rw [cls, hasClass]⟩

def loaded (s : Store) (c : Character) : Store :=
  { s with known := s.known.insert (.characters, c.id) c.fingerprint }.ticked

theorem run_served {c : Character} {r : Ruleset} {s : Store} {times : Nat} (sound : c.Sound)
    (holds : s.Holds c) (served : Served s c r) (timely : s.Timely (times + 2)) :
    ∃ ruleset imported t, given c.rulesetId = some ruleset ∧
      (Store.getCharacter c.id).run s = (.ok (some c.settled), loaded s c) ∧
      (Store.getRuleset ruleset).run (loaded s c) = (.ok (some (r.importedOn imported)), t) ∧
      Since s t ∧ t.Holds c ∧ t.Reads c.settled ∧ t.Timely times := by
  obtain ⟨ruleset, u, v, hasRuleset, same, found⟩ := served
  have start : SameElse s (loaded s c) := ⟨rfl, rfl, fun _ _ => rfl⟩
  obtain ⟨imported, key, print, again⟩ := Store.getRuleset_again (same.symm.trans start) found
  let after := { loaded s c with
    known := (loaded s c).known.insert (.rulesets, key) print }.ticked
  have kept : after.Holds c := holds.of_disk rfl rfl rfl
  refine ⟨ruleset, imported, after, hasRuleset, Store.run_getCharacter sound.legible holds, again,
    ⟨⟨rfl, rfl, fun _ _ => rfl⟩, fun _ member => member⟩, kept, ?_, ?_⟩
  · refine ⟨c, sound, kept, ?_, rfl⟩
    simp [after, loaded, Store.ticked]
  · exact Store.Timely.tick (Store.Timely.of_supply (Store.Timely.tick timely) rfl)

theorem run_load {c : Character} {r : Ruleset} {j : Journey} {times : Nat} (sound : c.Sound)
    (holds : j.store.Holds c) (ready : Ready j.store c r) (timely : j.store.Timely (times + 2)) :
    ∃ imported t, (load c.id).run j = (.ok ⟨c.settled, r.importedOn imported⟩, { j with store := t }) ∧
      Since j.store t ∧ t.Reads c.settled ∧ t.Timely times := by
  obtain ⟨served, cls, hasClass⟩ := ready
  obtain ⟨ruleset, imported, t, hasRuleset, found, again, since, -, reads, early⟩ :=
    run_served sound holds served timely
  have ids : c.settled.rulesetId = c.rulesetId ∧ c.settled.classId = c.classId := ⟨rfl, rfl⟩
  refine ⟨imported, t, ?_, since, reads, early⟩
  simp only [load, Action.run_bind, run_onStore, found, ids, hasRuleset, again, hasClass]
  rfl

theorem load_eq_ok {id : String} {p : Party} {j after : Journey}
    (set_out : (load id).run j = (.ok p, after)) :
    ∃ t u rulesetId cls, (Store.getCharacter id).run j.store = (.ok (some p.character), t) ∧
      given p.character.rulesetId = some rulesetId ∧ given p.character.classId = some cls ∧
      (Store.getRuleset rulesetId).run t = (.ok (some p.ruleset), u) ∧
      after = { j with store := u } := by
  simp only [load, Action.run_bind, run_onStore] at set_out
  rcases got : (Store.getCharacter id).run j.store with ⟨_ | _ | c, t⟩
  · rw [got] at set_out
    cases set_out
  · rw [got] at set_out
    cases set_out
  · simp only [got] at set_out
    cases hasRuleset : given c.rulesetId with
    | none =>
      rw [hasRuleset] at set_out
      cases set_out
    | some ruleset =>
      simp only [hasRuleset, Action.run_bind, run_onStore] at set_out
      rcases served : (Store.getRuleset ruleset).run t with ⟨_ | _ | r, u⟩
      · rw [served] at set_out
        cases set_out
      · rw [served] at set_out
        cases set_out
      · simp only [served] at set_out
        cases hasClass : given c.classId with
        | none =>
          rw [hasClass] at set_out
          cases set_out
        | some cls =>
          rw [hasClass] at set_out
          cases set_out
          exact ⟨t, u, ruleset, cls, rfl, hasRuleset, hasClass, served, rfl⟩

theorem ready_of_load {c : Character} {p : Party} {j after : Journey} (legible : c.Legible)
    (holds : j.store.Holds c) (set_out : (load c.id).run j = (.ok p, after)) :
    Ready j.store c p.ruleset ∧ p.character = c.settled ∧ ∃ ruleset,
      (Store.getRuleset ruleset).run (loaded j.store c) = (.ok (some p.ruleset), after.store) := by
  obtain ⟨t, u, ruleset, cls, got, hasRuleset, hasClass, served, rfl⟩ := load_eq_ok set_out
  have found : (Store.getCharacter c.id).run j.store = (.ok (some c.settled), loaded j.store c) :=
    Store.run_getCharacter legible holds
  rw [got, Prod.mk.injEq, Except.ok.injEq, Option.some.injEq] at found
  obtain ⟨character, rfl⟩ := found
  rw [character] at hasRuleset hasClass
  exact ⟨⟨⟨ruleset, loaded j.store c, u, hasRuleset, ⟨rfl, rfl, fun _ _ => rfl⟩, served⟩, cls, hasClass⟩,
    character, ruleset, served⟩

-- the end of the way

theorem Underway.arrived {f : Pick} {start target : Int} {final : Character} {p : Progress}
    {s : Store} {rest : List Int} (underway : Underway f start target final p s rest)
    (level : p.party.character.level = target) :
    rest = [] ∧ ∃ now, p.party.character = final.touch now := by
  obtain ⟨now, goes⟩ := underway.goes
  rw [Character.levelsBetween_nil (by omega), ascend, Option.some.injEq, Prod.mk.injEq] at goes
  exact ⟨goes.2.symm, now, goes.1⟩

theorem leads_of_arrived {f : Pick} {r : Ruleset} {target : Int} {final : Character} {s : Store}
    {now : Moment} (level : final.level = target) (reads : s.Reads (final.touch now)) :
    Leads f r target final s [] := by
  refine ⟨final.touch now, now, reads, ?_⟩
  rw [Character.levelsBetween_nil (by simp only [Character.touch]; omega), ascend]

theorem finish_leads {f : Pick} {start target : Int} {final : Character} {p : Progress} {j : Journey}
    {rest : List Int} {times : Nat} (underway : Underway f start target final p j.store rest)
    (level : p.party.character.level = target) (above : start < target)
    (timely : j.store.Timely (times + 1)) :
    ∃ after, Since j.store after.store ∧ after.store.Timely times ∧
      Leads f p.party.ruleset target final after.store rest ∧
      ((∃ c now, (finish p).run j = (.ok c, after) ∧ after.store.Holds (final.touch now)) ∨
        (∃ file reason, (finish p).run j = (.error (.storeWrite file reason), after)) ∧
          true ∈ j.store.disk.faults) := by
  obtain ⟨rfl, now, reached⟩ := underway.arrived level
  by_cases saved : p.party.character.level = p.saved
  · have own : { p.party.character with level := p.saved } = p.party.character := by rw [← saved]
    have holds := underway.kept (by omega)
    rw [own, reached] at holds
    refine ⟨j, .refl _, timely.mono (by omega), underway.leads,
      .inl ⟨p.party.character, now, ?_, holds⟩⟩
    simp only [finish, underway.uncancelled, saved]
    rfl
  · let d := p.party.character.touch j.store.supply.now
    have whole : d = final.touch j.store.supply.now := by
      simp only [d, reached]
      rfl
    have reads : j.store.ticked.Reads { p.party.character with level := p.saved } := underway.saved
    obtain ⟨t, since, supply, outcome⟩ := Store.putCharacter_raised (d := d) reads
      (underway.sound.touch timely.legible) (Character.settled_touch underway.settled _) rfl saved
    have run : (finish p).run j = ((do save d; return d : Travel Character).run
        { j with store := j.store.ticked }) := by
      simp only [finish, underway.uncancelled, saved]
      rfl
    refine ⟨{ j with store := t, last := some d }, (Store.since_ticked _).trans since,
      (Store.Timely.tick timely).of_supply supply, ?_⟩
    rw [run]
    simp only [Action.run_bind, run_save]
    rcases outcome with ⟨wrote, holds, kept⟩ | ⟨⟨file, reason, failed⟩, kept, fault⟩
    · rw [whole] at holds kept
      refine ⟨leads_of_arrived (by rw [← level, reached]; rfl) kept, .inl ⟨d, _, ?_, holds⟩⟩
      rw [wrote]
      rfl
    · refine ⟨underway.leads_of_reads kept, .inr ⟨⟨file, reason, ?_⟩, fault⟩⟩
      rw [failed]

-- what an advance through several levels comes to
def Climbed (f g : Pick) (r : Ruleset) (target : Int) (final : Character) (before : Store)
    (fresh : List Int) : Except Failure Advanced → Store → Prop
  | .ok a, s =>
    (∃ left, a.applied ++ left = fresh ∧ Leads f r target final s left) ∧
      (a.cancelled = false → a.applied = fresh ∧ ∃ now, s.Holds (final.touch now)) ∧
      (a.cancelled = true → g ≠ f)
  | .error e, s =>
    (∃ file reason, e = .storeWrite file reason) ∧ true ∈ before.disk.faults ∧
      ∃ left, Leads f r target final s left

theorem Climbed.since {f g : Pick} {r : Ruleset} {target : Int} {final : Character}
    {before s t : Store} {fresh : List Int} {imported : Moment} {outcome : Except Failure Advanced}
    (climbed : Climbed f g (r.importedOn imported) target final s fresh outcome t)
    (since : Since before s) : Climbed f g r target final before fresh outcome t := by
  have leads (left : List Int) (leads : Leads f (r.importedOn imported) target final t left) :
      Leads f r target final t left := by
    simpa only [Leads, ascend_importedOn] using leads
  cases outcome with
  | ok a =>
    obtain ⟨⟨left, split, ahead⟩, whole, cancelled⟩ := climbed
    exact ⟨⟨left, split, leads left ahead⟩, whole, cancelled⟩
  | error e =>
    obtain ⟨write, fault, left, ahead⟩ := climbed
    exact ⟨write, since.faults _ fault, left, leads left ahead⟩

theorem climb_leads {f g : Pick} (cuts : Cuts f g) {p : Party} {j : Journey} {target : Int}
    {final : Character} {fresh : List Int} {times : Nat} (sound : p.character.Sound)
    (settled : p.character.settled = p.character) (reads : j.store.Reads p.character)
    (below : p.character.level < target) (bound : target ≤ 20)
    (goes : ∃ now, ascend f p.ruleset p.character (levelsBetween p.character.level target) =
      some (final.touch now, fresh))
    (timely : j.store.Timely ((levelsBetween p.character.level target).length + (times + 1))) :
    ∃ outcome after, (climb g p target).run j = (outcome, after) ∧ Since j.store after.store ∧
      after.store.Timely times ∧
      Climbed f g p.ruleset target final j.store fresh outcome after.store := by
  have underway : Underway f p.character.level target final ⟨p, [], p.character.level, none⟩ j.store fresh := {
    sound := sound
    settled := settled
    saved := reads
    kept := fun other => absurd rfl other
    below := Int.le_refl _
    within := Int.le_of_lt below
    goes := goes
    passed := rfl
    uncancelled := rfl }
  obtain ⟨outcome, after, run, since, early, walked⟩ := walk_leads cuts underway rfl bound timely
  replace run : (walk g ⟨p, [], p.character.level, none⟩
      (levelsBetween p.character.level target)).run j = (outcome, after) := run
  let told (q : Progress) (c : Character) : Advanced :=
    { character := c
      startLevel := p.character.level
      applied := q.applied
      added := p.character.addedSince c
      cancelled := q.cancelledAt.isSome
      note := q.cancelledAt.map fun level => "Cancelled at level " ++ toString level }
  cases outcome with
  | error e =>
    refine ⟨.error e, after, ?_, since, early.mono (by omega), walked⟩
    simp only [climb, Action.run_bind, run]
  | ok q =>
    obtain ⟨done, left, split, applied, ruleset, ⟨there, level⟩ | ⟨cancelled, other, leads⟩⟩ := walked
    · obtain ⟨last, later, times, leads, ⟨c, now, finished, holds⟩ |
        ⟨⟨file, reason, failed⟩, fault⟩⟩ := finish_leads there level below early
      · refine ⟨.ok (told q c), last, ?_, since.trans later, times,
          ⟨left, ?_, ruleset ▸ leads⟩, fun _ => ⟨?_, now, holds⟩, ?_⟩
        · simp only [climb, Action.run_bind, run, finished]
          rfl
        · simp [told, applied, split]
        · simp [told, applied, split, (there.arrived level).1]
        · simp [told, there.uncancelled]
      · refine ⟨.error (.storeWrite file reason), last, ?_, since.trans later, times,
          ⟨file, reason, rfl⟩, since.faults _ fault, left, ruleset ▸ leads⟩
        simp only [climb, Action.run_bind, run, failed]
    · have finished : (finish q).run after = (.ok q.party.character, after) := by
        simp only [finish, cancelled, Bool.true_or, if_true]
        rfl
      refine ⟨.ok (told q q.party.character), after, ?_, since, early.mono (by omega),
        ⟨left, ?_, leads⟩, fun whole => ?_, fun _ => other⟩
      · simp only [climb, Action.run_bind, run, finished]
        rfl
      · simp [told, applied, split]
      · exact absurd (cancelled.symm.trans whole) (by decide)

theorem lower_leads {f g : Pick} {r : Ruleset} {c : Character} {j : Journey} {target : Int}
    {final : Character} {fresh : List Int} {times : Nat} (sound : c.Sound)
    (settled : c.settled = c) (reads : j.store.Reads c) (level : c.level = target)
    (goes : ∃ now, ascend f r c (levelsBetween c.level target) = some (final.touch now, fresh))
    (timely : j.store.Timely (times + 1)) :
    ∃ outcome after, (lower c target).run j = (outcome, after) ∧ Since j.store after.store ∧
      after.store.Timely times ∧ Climbed f g r target final j.store fresh outcome after.store := by
  have own : { c with level := target } = c := by rw [← level]
  obtain ⟨now, goes⟩ := goes
  rw [Character.levelsBetween_nil (by omega), ascend, Option.some.injEq, Prod.mk.injEq] at goes
  obtain ⟨whole, rfl⟩ := goes
  let d := c.touch j.store.supply.now
  have reads' : j.store.ticked.Reads c := reads
  obtain ⟨t, since, supply, outcome⟩ := Store.putCharacter_touched reads'
    (sound.touch timely.legible) (Character.settled_touch settled _) (show d = _ from rfl)
  let told : Advanced := ⟨d, c.level, [], c.addedSince d, false,
    some ("Level set to " ++ toString target)⟩
  have run : (lower c target).run j = ((do save d; return told : Travel Advanced).run
      { j with store := j.store.ticked }) := by
    simp only [lower, own]
    rfl
  have arrived : (final.touch d.updatedAt).level = target := by
    rw [← level, whole]
    rfl
  have early : t.Timely times := (Store.Timely.tick timely).of_supply supply
  rcases outcome with ⟨wrote, later, holds, kept⟩ | ⟨⟨file, reason, failed⟩, kept, fault⟩
  · refine ⟨.ok told, { j with store := t, last := some d }, ?_, (Store.since_ticked _).trans since,
      early, ⟨[], rfl, ?_⟩, fun _ => ⟨rfl, later, ?_⟩, fun cancelled => Bool.noConfusion cancelled⟩
    · rw [run]
      simp only [Action.run_bind, run_save]
      rw [wrote]
      rfl
    · have same : d.touch later = final.touch later := by
        simp only [d, whole]
        rfl
      rw [same] at kept
      exact leads_of_arrived arrived kept
    · have same : d.touch later = final.touch later := by
        simp only [d, whole]
        rfl
      rwa [same] at holds
  · refine ⟨.error (.storeWrite file reason), { j with store := t, last := some d }, ?_,
      (Store.since_ticked _).trans since, early, ⟨file, reason, rfl⟩, fault, [], ?_⟩
    · rw [run]
      simp only [Action.run_bind, run_save]
      rw [failed]
    · rw [whole] at kept
      exact leads_of_arrived arrived kept

end Journey

end Tabletop

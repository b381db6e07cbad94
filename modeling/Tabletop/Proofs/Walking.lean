import Tabletop.Proofs.Ascent

set_option autoImplicit false

namespace Tabletop

namespace Journey

open Character (levelsBetween committed)
open Store (Since Reads Holds Timely)

/-- The second player answers as the first does, or cancels. -/
def Cuts (f g : Pick) : Prop :=
  ∀ choice options level,
    g choice options level = f choice options level ∨ g choice options level = .ok none

-- the store holds a character whose way up ends alike
def Leads (f : Pick) (r : Ruleset) (target : Int) (final : Character) (s : Store)
    (rest : List Int) : Prop :=
  ∃ e now, s.Reads e ∧ ascend f r e (levelsBetween e.level target) = some (final.touch now, rest)

structure Underway (f : Pick) (start target : Int) (final : Character) (p : Progress) (s : Store)
    (rest : List Int) : Prop where
  sound : p.party.character.Sound
  settled : p.party.character.settled = p.party.character
  saved : s.Reads { p.party.character with level := p.saved }
  kept : p.saved ≠ start → s.Holds { p.party.character with level := p.saved }
  below : p.saved ≤ p.party.character.level
  within : p.party.character.level ≤ target
  goes : ∃ now, ascend f p.party.ruleset p.party.character
    (levelsBetween p.party.character.level target) = some (final.touch now, rest)
  passed : ascend f p.party.ruleset { p.party.character with level := p.saved }
      (levelsBetween p.saved target) =
    ascend f p.party.ruleset p.party.character (levelsBetween p.party.character.level target)
  uncancelled : p.cancelledAt = none

-- what a walk comes to
def Walked (f g : Pick) (start target : Int) (final : Character) (before : Store) (p : Progress)
    (rest : List Int) : Except Failure Progress → Store → Prop
  | .ok q, s =>
    ∃ done left, rest = done ++ left ∧ q.applied = p.applied ++ done ∧
      q.party.ruleset = p.party.ruleset ∧
      (Underway f start target final q s left ∧ q.party.character.level = target ∨
        q.cancelledAt.isSome ∧ g ≠ f ∧ Leads f p.party.ruleset target final s left)
  | .error e, s =>
    (∃ file reason, e = .storeWrite file reason) ∧ true ∈ before.disk.faults ∧
      ∃ left, Leads f p.party.ruleset target final s left

namespace Underway

variable {f : Pick} {start target : Int} {final : Character} {p : Progress} {s : Store} {rest : List Int}

theorem leads (underway : Underway f start target final p s rest) :
    Leads f p.party.ruleset target final s rest := by
  obtain ⟨now, goes⟩ := underway.goes
  exact ⟨_, now, underway.saved, underway.passed.trans goes⟩

-- the stored character that a failed save leaves behind still leads to the end
theorem leads_of_reads (underway : Underway f start target final p s rest) {t : Store}
    (kept : t.Reads { p.party.character with level := p.saved }) :
    Leads f p.party.ruleset target final t rest := by
  obtain ⟨now, goes⟩ := underway.goes
  exact ⟨_, now, kept, underway.passed.trans goes⟩

theorem pass (underway : Underway f start target final p s rest)
    (below : p.party.character.level < target)
    (applied : p.party.character.isApplied (p.party.character.level + 1) = true)
    (bound : target ≤ 20) :
    Underway f start target final (p.atLevel (p.party.character.level + 1)) s rest := by
  have above := underway.below
  have first := underway.sound.legible.level.1
  have step : ascend f p.party.ruleset p.party.character
      (levelsBetween p.party.character.level target) =
      ascend f p.party.ruleset { p.party.character with level := p.party.character.level + 1 }
        (levelsBetween (p.party.character.level + 1) target) := by
    rw [Character.levelsBetween_cons below, ascend, if_pos applied]
  obtain ⟨now, goes⟩ := underway.goes
  exact {
    sound := underway.sound.atLevel (by omega)
    settled := Character.settled_atLevel underway.settled _
    saved := underway.saved
    kept := underway.kept
    below := by simp only [Progress.atLevel]; omega
    within := by simp only [Progress.atLevel]; omega
    goes := ⟨now, step ▸ goes⟩
    passed := underway.passed.trans step
    uncancelled := underway.uncancelled }

end Underway

-- the choices of a level

theorem run_ask {f g : Pick} (cuts : Cuts f g) {p : Party} {level : Int} {choices : List Choice}
    {known given : Dict String Answer}
    (answered : answers f p.ruleset p.character level known choices = some given) (j : Journey) :
    ∃ asked outcome, (ask g p level known choices).run j = (.ok outcome, { j with asked := asked }) ∧
      (outcome = some given ∨ outcome = none ∧ g ≠ f) := by
  induction choices generalizing known j with
  | nil =>
    cases answered
    exact ⟨j.asked, some given, rfl, .inl rfl⟩
  | cons choice choices ih =>
    rw [answers] at answered
    cases offered : p.ruleset.optionsFor p.character.classId choice level p.character.subclassId with
    | error cause => simp [offered] at answered
    | ok options =>
      simp only [offered] at answered
      rcases picked : f choice options level with _ | _ | picks
      · simp [picked] at answered
      · simp [picked] at answered
      · simp only [picked] at answered
        let asked := j.asked ++ [⟨level, choice, options⟩]
        rcases cuts choice options level with same | none
        · obtain ⟨all, outcome, run, ends⟩ := ih answered { j with asked := asked }
          refine ⟨all, outcome, ?_, ends⟩
          simp only [ask, offered, note, same, picked, Action.run_bind, Action.run_ofExcept_ok,
            Action.run_change]
          exact run
        · refine ⟨asked, .none, ?_, .inr ⟨rfl, ?_⟩⟩
          · simp only [ask, offered, note, none, Action.run_bind, Action.run_ofExcept_ok,
              Action.run_change]
            rfl
          · rintro rfl
            simp [none] at picked

-- applying and saving

theorem run_onStore {α : Type} (w : Store.Work α) (j : Journey) :
    (onStore w).run j = ((w.run j.store).1, { j with store := (w.run j.store).2 }) := rfl

theorem run_save (c : Character) (j : Journey) :
    (save c).run j = (((Store.putCharacter c).run j.store).1,
      { j with store := ((Store.putCharacter c).run j.store).2, last := some c }) := rfl

def Progress.raised (p : Progress) (d : Character) (level : Int) : Progress :=
  { p with
    party := { p.party with character := d }
    applied := p.applied ++ [level]
    saved := level }

theorem run_commit {p : Progress} {level : Int} (short : IsWritten level) {node : Node}
    {given : Dict String Answer} {made : List Made}
    (found : p.party.ruleset.node? p.party.character.classId level = some node)
    (chosen : node.made p.party.ruleset (.byChoice given) = .ok made)
    (bare : p.party.character.isApplied level = false) (j : Journey) :
    (commit p level given).run j =
      (do
        let d := (risen p.party.ruleset node level made p.party.character).touch j.store.supply.now
        save d
        return p.raised d level : Travel Progress).run { j with store := j.store.ticked } := by
  have result (now : Moment) : (p.party.character.applyLevel p.party.ruleset
      p.party.character.classId level (.byChoice given) false now).result =
        .ok (committed p.party.ruleset node level made now p.party.character) := by
    rw [Character.applyLevel_bare short bare found, chosen]
    rfl
  have clock : (onStore Store.now).run j = (.ok j.store.supply.now,
      { j with store := j.store.ticked }) := rfl
  simp only [commit, Action.run_bind, clock, result, Action.run_ofResult_ok]
  rfl

theorem run_commit_fails {p : Progress} {level : Int} (short : IsWritten level) {node : Node}
    {given : Dict String Answer} {f : Failure}
    (found : p.party.ruleset.node? p.party.character.classId level = some node)
    (chosen : node.made p.party.ruleset (.byChoice given) = .error f)
    (bare : p.party.character.isApplied level = false) (j : Journey) :
    (commit p level given).run j = (.error f, { j with store := j.store.ticked }) := by
  have result (now : Moment) : (p.party.character.applyLevel p.party.ruleset
      p.party.character.classId level (.byChoice given) false now).result = .error f := by
    rw [Character.applyLevel_bare short bare found, chosen]
    rfl
  simp only [commit, Action.run_bind, result]
  rfl

theorem run_commit_unwritten {level : Int} (long : ¬IsWritten level) (p : Progress)
    (given : Dict String Answer) (j : Journey) :
    (commit p level given).run j =
      (.error (.breakdown (.badValue Text.tooLargeMessage)), { j with store := j.store.ticked }) := by
  simp only [commit, Action.run_bind, Character.applyLevel_fails long]
  rfl

-- a level is applied and saved, or the write fails and the walk stands where it stood
theorem commit_underway {f : Pick} {start target : Int} {final : Character} {p : Progress} {j : Journey}
    {rest left : List Int} (underway : Underway f start target final p j.store rest)
    (below : p.party.character.level < target) (bound : target ≤ 20) {node : Node}
    {given : Dict String Answer} {made : List Made} {now : Moment}
    (found : p.party.ruleset.node? p.party.character.classId (p.party.character.level + 1) =
      some node)
    (chosen : node.made p.party.ruleset (.byChoice given) = .ok made)
    (bare : p.party.character.isApplied (p.party.character.level + 1) = false)
    (goes : ascend f p.party.ruleset
      (risen p.party.ruleset node (p.party.character.level + 1) made p.party.character)
      (levelsBetween (p.party.character.level + 1) target) = some (final.touch now, left))
    (clock : j.store.supply.now.Legible) :
    ∃ after, Since j.store after.store ∧ after.store.supply = j.store.ticked.supply ∧
      ((∃ q, (commit p (p.party.character.level + 1) given).run j = (.ok q, after) ∧
          q.applied = p.applied ++ [p.party.character.level + 1] ∧
          q.party.ruleset = p.party.ruleset ∧
          q.party.character.level = p.party.character.level + 1 ∧
          Underway f start target final q after.store left) ∨
        (∃ file reason, (commit p (p.party.character.level + 1) given).run j =
            (.error (.storeWrite file reason), after)) ∧
          true ∈ j.store.disk.faults ∧ Leads f p.party.ruleset target final after.store rest) := by
  have first := underway.sound.legible.level.1
  have above := underway.below
  let level := p.party.character.level + 1
  let base := risen p.party.ruleset node level made p.party.character
  let d := base.touch j.store.supply.now
  have sound : d.Sound := (risen_sound underway.sound _ node made (by omega)).touch clock
  have settled : d.settled = d :=
    Character.settled_touch (risen_settled underway.settled _ node level made) _
  have reads : j.store.ticked.Reads { p.party.character with level := p.saved } := underway.saved
  have id : d.id = p.party.character.id := risen_id ..
  have raised : d.level ≠ p.saved := by
    change p.party.character.level + 1 ≠ p.saved
    omega
  rw [run_commit (isWritten_of_bounds (by omega) (by omega)) found chosen bare]
  obtain ⟨t, since, supply, ⟨saved, holds, kept⟩ | ⟨⟨file, reason, failed⟩, kept, fault⟩⟩ :=
    Store.putCharacter_raised reads sound settled id raised
  · refine ⟨{ j with store := t, last := some d }, (Store.since_ticked _).trans since, supply, .inl ⟨p.raised d level, ?_⟩⟩
    refine ⟨?_, rfl, rfl, rfl, ?_⟩
    · simp only [Action.run_bind, run_save]
      rw [saved]
      rfl
    · exact {
        sound := sound
        settled := settled
        saved := kept
        kept := fun _ => holds
        below := Int.le_refl _
        within := by
          change p.party.character.level + 1 ≤ target
          omega
        goes := ⟨j.store.supply.now, by
          change ascend f p.party.ruleset d (levelsBetween level target) = _
          rw [ascend_touch, goes]
          rfl⟩
        passed := rfl
        uncancelled := underway.uncancelled }
  · refine ⟨{ j with store := t, last := some d }, (Store.since_ticked _).trans since, supply, .inr ⟨⟨file, reason, ?_⟩, fault,
      underway.leads_of_reads kept⟩⟩
    simp only [Action.run_bind, run_save]
    rw [failed]

-- a player who cancels has the levels passed so far saved
theorem save_leads {f : Pick} {start target : Int} {final : Character} {p : Progress} {j : Journey}
    {rest : List Int} (underway : Underway f start target final p j.store rest) :
    ∃ after, Since j.store after.store ∧ after.store.supply = j.store.supply ∧
      Leads f p.party.ruleset target final after.store rest ∧
      ((save p.party.character).run j = (.ok (), after) ∨
        (∃ file reason, (save p.party.character).run j =
            (.error (.storeWrite file reason), after)) ∧
          true ∈ j.store.disk.faults) := by
  let c := p.party.character
  obtain ⟨now, goes⟩ := underway.goes
  by_cases raised : c.level = p.saved
  · have own : { c with level := p.saved } = c := by rw [← raised]
    have reads : j.store.Reads c := own ▸ underway.saved
    obtain ⟨t, since, supply, outcome⟩ := Store.putCharacter_touched reads
      underway.sound underway.settled (show c = c.touch c.updatedAt from rfl)
    refine ⟨{ j with store := t, last := some c }, since, supply, ?_⟩
    rw [run_save]
    rcases outcome with ⟨saved, later, -, kept⟩ | ⟨⟨file, reason, failed⟩, kept, fault⟩
    · refine ⟨⟨c.touch later, later, kept, ?_⟩, .inl (by rw [saved])⟩
      change ascend f p.party.ruleset (c.touch later) (levelsBetween c.level target) = _
      rw [ascend_touch, goes]
      rfl
    · exact ⟨⟨c, now, kept, goes⟩, .inr ⟨⟨file, reason, by rw [failed]⟩, fault⟩⟩
  · obtain ⟨t, since, supply, outcome⟩ := Store.putCharacter_raised underway.saved underway.sound
      underway.settled rfl raised
    refine ⟨{ j with store := t, last := some c }, since, supply, ?_⟩
    rw [run_save]
    rcases outcome with ⟨saved, -, kept⟩ | ⟨⟨file, reason, failed⟩, kept, fault⟩
    · exact ⟨⟨c, now, kept, goes⟩, .inl (by rw [saved])⟩
    · exact ⟨underway.leads_of_reads kept, .inr ⟨⟨file, reason, by rw [failed]⟩, fault⟩⟩

theorem Walked.after_commit {f g : Pick} {start target level : Int} {final : Character} {before s t : Store}
    {p q : Progress} {left : List Int} {outcome : Except Failure Progress}
    (walked : Walked f g start target final s q left outcome t) (since : Since before s)
    (applied : q.applied = p.applied ++ [level]) (ruleset : q.party.ruleset = p.party.ruleset) :
    Walked f g start target final before p (level :: left) outcome t := by
  cases outcome with
  | ok reached =>
    obtain ⟨done, ahead, split, more, same, ends⟩ := walked
    refine ⟨level :: done, ahead, by rw [split]; rfl, by simp [more, applied], same.trans ruleset, ?_⟩
    rwa [← ruleset]
  | error e =>
    obtain ⟨write, fault, ahead, leads⟩ := walked
    exact ⟨write, since.faults _ fault, ahead, by rwa [← ruleset]⟩

-- what comes next, if the next level is not applied yet
theorem Underway.next {f : Pick} {start target : Int} {final : Character} {p : Progress} {s : Store}
    {rest : List Int} (underway : Underway f start target final p s rest)
    (below : p.party.character.level < target)
    (bare : p.party.character.isApplied (p.party.character.level + 1) = false) :
    ∃ node given made now left,
      p.party.ruleset.node? p.party.character.classId (p.party.character.level + 1) = some node ∧
      answers f p.party.ruleset p.party.character (p.party.character.level + 1) .empty
        node.choices = some given ∧
      node.made p.party.ruleset (.byChoice given) = .ok made ∧
      rest = (p.party.character.level + 1) :: left ∧
      ascend f p.party.ruleset
        (risen p.party.ruleset node (p.party.character.level + 1) made p.party.character)
        (levelsBetween (p.party.character.level + 1) target) = some (final.touch now, left) := by
  obtain ⟨now, goes⟩ := underway.goes
  rw [Character.levelsBetween_cons below, ascend, if_neg (by simp [bare]),
    Option.bind_eq_some_iff] at goes
  obtain ⟨d, rises, goes⟩ := goes
  obtain ⟨node, given, made, found, answered, chosen, rfl⟩ := rise_eq_some rises
  rw [Option.map_eq_some_iff] at goes
  obtain ⟨⟨reached, left⟩, goes, whole⟩ := goes
  rw [Prod.mk.injEq] at whole
  obtain ⟨rfl, rfl⟩ := whole
  exact ⟨node, given, made, now, left, found, answered, chosen, rfl, goes⟩

theorem walk_leads {f g : Pick} (cuts : Cuts f g) {start target : Int} {final : Character}
    {levels rest : List Int} {p : Progress} {j : Journey} {times : Nat}
    (underway : Underway f start target final p j.store rest)
    (ahead : levels = levelsBetween p.party.character.level target) (bound : target ≤ 20)
    (timely : j.store.Timely (levels.length + times)) :
    ∃ outcome after, (walk g p levels).run j = (outcome, after) ∧ Since j.store after.store ∧
      after.store.Timely times ∧ Walked f g start target final j.store p rest outcome after.store := by
  induction levels generalizing p j rest with
  | nil =>
    have level : p.party.character.level = target :=
      Int.le_antisymm underway.within (Character.level_reached ahead)
    exact ⟨.ok p, j, rfl, .refl _, timely.mono (by simp), [], rest, rfl, by simp, rfl,
      .inl ⟨underway, level⟩⟩
  | cons level levels ih =>
    obtain ⟨below, rfl, further⟩ := Character.level_ahead ahead
    rw [List.length_cons] at timely
    cases applied : p.party.character.isApplied (p.party.character.level + 1) with
    | true =>
      rw [walk, if_pos applied]
      exact ih (underway.pass below applied bound) further (timely.mono (by omega))
    | false =>
      obtain ⟨node, given, made, now, left, found, answered, chosen, rfl, goes⟩ :=
        underway.next below applied
      obtain ⟨asked, answer, asking, ends⟩ := run_ask cuts answered j
      have clock := timely.legible
      rw [walk, if_neg (by simp [applied])]
      simp only [step, found, Action.run_bind, asking]
      rcases ends with rfl | ⟨rfl, other⟩
      · obtain ⟨after, since, supply, ⟨q, committed, more, ruleset, reached, next⟩ |
          ⟨⟨file, reason, failed⟩, fault, leads⟩⟩ :=
          commit_underway (j := { j with asked := asked }) underway below bound found chosen applied
            goes clock
        · obtain ⟨outcome, last, run, later, times, walked⟩ := ih next (by rw [reached, further])
            (Store.Timely.of_supply (Store.Timely.tick (timely.mono (by omega))) supply)
          refine ⟨outcome, last, ?_, since.trans later, times, walked.after_commit since more ruleset⟩
          simp only [committed, next.uncancelled]
          exact run
        · refine ⟨.error (.storeWrite file reason), after, ?_, since, ?_, ⟨file, reason, rfl⟩, fault, _,
            leads⟩
          · simp only [failed]
          · exact Store.Timely.of_supply (Store.Timely.tick (timely.mono (by omega))) supply
      · obtain ⟨after, since, supply, leads, saved | ⟨⟨file, reason, failed⟩, fault⟩⟩ :=
          save_leads (j := { j with asked := asked }) underway
        · refine ⟨.ok { p with cancelledAt := some (p.party.character.level + 1) }, after, ?_, since,
            (timely.of_supply supply).mono (by omega), [], _, rfl, by simp, rfl,
            .inr ⟨rfl, other, leads⟩⟩
          simp only [Action.run_bind, saved]
          rfl
        · refine ⟨.error (.storeWrite file reason), after, ?_, since,
            (timely.of_supply supply).mono (by omega), ⟨file, reason, rfl⟩, fault, _, leads⟩
          simp only [Action.run_bind, failed]

-- a walk that reaches its end tells that there is a way up

theorem answers_of_ask {f : Pick} {p : Party} {level : Int} {choices : List Choice}
    {known given : Dict String Answer} {j after : Journey}
    (asked : (ask f p level known choices).run j = (.ok (some given), after)) :
    answers f p.ruleset p.character level known choices = some given := by
  induction choices generalizing known j with
  | nil =>
    cases asked
    rfl
  | cons choice choices ih =>
    simp only [ask, Action.run_bind] at asked
    rw [answers]
    cases offered : p.ruleset.optionsFor p.character.classId choice level p.character.subclassId with
    | error cause =>
      rw [offered] at asked
      cases asked
    | ok options =>
      simp only [offered, Action.run_ofExcept_ok, note, Action.run_change] at asked
      rcases picked : f choice options level with _ | _ | picks
      · rw [picked] at asked
        cases asked
      · rw [picked] at asked
        cases asked
      · rw [picked] at asked
        simp only [picked]
        exact ih asked

theorem isWritten_of_commit {p q : Progress} {level : Int} {given : Dict String Answer}
    {j after : Journey} (committed : (commit p level given).run j = (.ok q, after)) :
    IsWritten level := by
  refine Decidable.byContradiction fun long => ?_
  rw [run_commit_unwritten long] at committed
  cases committed

theorem commit_raises {p q : Progress} {level : Int} {given : Dict String Answer} {node : Node}
    {j after : Journey} (bare : p.party.character.isApplied level = false)
    (found : p.party.ruleset.node? p.party.character.classId level = some node)
    (committed : (commit p level given).run j = (.ok q, after)) :
    ∃ made now, node.made p.party.ruleset (.byChoice given) = .ok made ∧
      q = p.raised ((risen p.party.ruleset node level made p.party.character).touch now) level := by
  have short := isWritten_of_commit committed
  cases chosen : node.made p.party.ruleset (.byChoice given) with
  | error f =>
    rw [run_commit_fails short found chosen bare] at committed
    cases committed
  | ok made =>
    rw [run_commit short found chosen bare] at committed
    simp only [Action.run_bind, run_save] at committed
    split at committed
    · cases committed
      exact ⟨made, _, rfl, rfl⟩
    · cases committed

theorem rise_of_commit {p q : Progress} {level : Int} {given : Dict String Answer} {node : Node}
    {j after : Journey} (bare : p.party.character.isApplied level = false)
    (found : p.party.ruleset.node? p.party.character.classId level = some node)
    (committed : (commit p level given).run j = (.ok q, after)) :
    ∃ made now, node.made p.party.ruleset (.byChoice given) = .ok made ∧
      q.party.character = (risen p.party.ruleset node level made p.party.character).touch now ∧
      q.party.ruleset = p.party.ruleset := by
  obtain ⟨made, now, chosen, rfl⟩ := commit_raises bare found committed
  exact ⟨made, now, chosen, rfl, rfl⟩

theorem ascend_of_walk {f : Pick} {levels : List Int} {p q : Progress} {j after : Journey}
    (walked : (walk f p levels).run j = (.ok q, after)) (uncancelled : q.cancelledAt = none) :
    (ascend f p.party.ruleset p.party.character levels).isSome = true := by
  induction levels generalizing p j with
  | nil => rfl
  | cons level levels ih =>
    cases applied : p.party.character.isApplied level with
    | true =>
      rw [walk, if_pos applied] at walked
      rw [ascend, if_pos applied]
      exact ih walked
    | false =>
      rw [walk, if_neg (by simp [applied])] at walked
      rw [ascend, if_neg (by simp [applied])]
      simp only [step, Action.run_bind] at walked
      cases found : p.party.ruleset.node? p.party.character.classId level with
      | none =>
        rw [found] at walked
        cases walked
      | some node =>
        simp only [found, Action.run_bind] at walked
        rcases asked : (ask f p.party level .empty node.choices).run j with ⟨_ | _ | given, k⟩
        · rw [asked] at walked
          cases walked
        · simp only [asked, Action.run_bind] at walked
          rcases saved : (save p.party.character).run k with ⟨_ | _, l⟩
          · rw [saved] at walked
            cases walked
          · rw [saved] at walked
            cases walked
            cases uncancelled
        · have answered := answers_of_ask asked
          simp only [asked] at walked
          rcases committed : (commit p level given).run k with ⟨_ | next, l⟩
          · rw [committed] at walked
            cases walked
          · obtain ⟨made, now, chosen, character, ruleset⟩ := rise_of_commit applied found committed
            simp only [committed] at walked
            split at walked
            · rename_i cancelled
              cases walked
              simp [uncancelled] at cancelled
            · have higher := ih walked
              rw [character, ruleset, ascend_touch, Option.isSome_map] at higher
              simpa [rise, found, answered, chosen, Except.toOption] using higher

end Journey

end Tabletop

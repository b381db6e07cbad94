import Tabletop.Proofs.Foreseen

/-!
The plan of an advance and the advance itself. The plan is made once, from the character that sets out; the
advance looks at the character again at every level. Still the advance asks what the plan foresees, in that
order, and takes the levels that the plan has, up to where it stops.
-/

set_option autoImplicit false

namespace Tabletop

namespace Journey

open Character (levelsBetween)

variable {pick : Pick} {p q : Progress} {level : Int} {j after : Journey}
  {levels : List Int} {outcome : Except Failure Progress} {f : Failure}

-- where the walk finds a level missing

theorem not_missing_of_steady {α : Type} {x : Travel α} (steady : x.Steady)
    (ran : x.run j = (.error f, after)) : ¬ f.IsMissing level :=
  fun missing => (steady.run j).other f (by rw [ran]) missing.ofLevel

-- a level that has a node may fail for the picks, but it is not missing
theorem commit_not_missing {node : Node} {given : Dict String Answer} {l : Int}
    (bare : p.party.character.isApplied level = false)
    (found : p.party.ruleset.node? p.party.character.classId level = some node)
    (committing : (commit p level given).run j = (.error f, after)) : ¬ f.IsMissing l := by
  by_cases short : IsWritten level
  case neg =>
    rw [run_commit_unwritten short] at committing
    cases committing
    rintro ⟨_, _, told⟩
    cases told
  cases chosen : node.made p.party.ruleset (.byChoice given) with
  | error g =>
    rw [run_commit_fails short found chosen bare] at committing
    cases committing
    intro missing
    obtain ⟨-, id, label, count, picked, miscounted⟩ := made_fails chosen missing.ofLevel
    obtain ⟨classId, available, told⟩ := missing
    rw [told] at miscounted
    cases miscounted
  | ok made =>
    rw [run_commit short found chosen bare] at committing
    exact not_missing_of_steady
      (Action.steady_bind (save_steady _) fun _ => Action.steady_pure _) committing

theorem step_missing {l : Int} (bare : p.party.character.isApplied level = false)
    (stepping : (step pick p level).run j = (.error f, after)) (missing : f.IsMissing l) :
    l = level ∧ p.party.ruleset.node? p.party.character.classId level = none := by
  simp only [step] at stepping
  cases found : p.party.ruleset.node? p.party.character.classId level with
  | none =>
    rw [found] at stepping
    cases stepping
    obtain ⟨classId, available, told⟩ := missing
    cases told
    exact ⟨rfl, rfl⟩
  | some node =>
    simp only [found, Action.run_bind] at stepping
    rcases asking : (ask pick p.party level .empty node.choices).run j with ⟨g | _ | given, k⟩
    · rw [asking] at stepping
      cases stepping
      exact absurd missing (not_missing_of_steady (ask_steady ..) asking)
    · rw [asking] at stepping
      exact absurd missing (not_missing_of_steady
        (Action.steady_bind (save_steady _) fun _ => Action.steady_pure _) stepping)
    · rw [asking] at stepping
      exact absurd missing (commit_not_missing bare found stepping)

theorem SamePlan.trans {a b c : Party} (first : SamePlan a b levels) (second : SamePlan b c levels) :
    SamePlan a c levels where
  ruleset := second.ruleset.trans first.ruleset
  classId := second.classId.trans first.classId
  subclassId := second.subclassId.trans first.subclassId
  applied l member := (second.applied l member).trans (first.applied l member)

-- a step that goes on goes to a character whose plan for other levels is the same
theorem step_goesOn {k : Journey} (bare : p.party.character.isApplied level = false)
    (stepping : (step pick p level).run j = (.ok q, k)) (on : q.cancelledAt = none)
    (fresh : level ∉ levels) : SamePlan p.party q.party levels := by
  rcases step_eq_ok bare stepping with rfl | ⟨rung, now, -, -, rfl⟩
  · cases on
  · exact samePlan_raised _ _ now fresh

theorem walk_cons {k : Journey} (bare : p.party.character.isApplied level = false)
    (stepping : (step pick p level).run j = (.ok q, k)) (on : q.cancelledAt = none) :
    (walk pick p (level :: levels)).run j = (walk pick q levels).run k := by
  rw [walk, if_neg (by simp [bare]), Action.run_bind, stepping]
  simp only [on, Option.isSome_none, Bool.false_eq_true, if_false]

theorem walk_goesOn {before : List Int} {k : Journey} (uncancelled : p.cancelledAt = none)
    (walking : (walk pick p before).run j = (.ok q, k)) (on : q.cancelledAt = none) :
    (∀ rest, (walk pick p (before ++ rest)).run j = (walk pick q rest).run k) ∧
      ∀ levels, (∀ l ∈ levels, l ∉ before) → SamePlan p.party q.party levels := by
  induction before generalizing p j with
  | nil =>
    cases walking
    exact ⟨fun rest => rfl, fun levels _ => ⟨rfl, rfl, rfl, fun _ _ => rfl⟩⟩
  | cons level before ih =>
    cases applied : p.party.character.isApplied level with
    | true =>
      rw [walk_pass applied] at walking
      obtain ⟨further, same⟩ := ih (p := p.atLevel level) uncancelled walking
      constructor
      · intro rest
        rw [List.cons_append, walk_pass applied]
        exact further rest
      · intro levels apart
        apply (samePlan_atLevel p level levels).trans
        exact same levels fun l member => List.not_mem_of_not_mem_cons (apart l member)
    | false =>
      rw [walk, if_neg (by simp [applied])] at walking
      obtain ⟨next, l, stepping, walking⟩ := Action.bind_eq_ok walking
      split at walking
      · rename_i cancelled
        cases walking
        simp [on] at cancelled
      · rename_i goesOn
        have onward : next.cancelledAt = none := by simpa using goesOn
        obtain ⟨further, same⟩ := ih onward walking
        constructor
        · intro rest
          rw [List.cons_append, walk_cons applied stepping onward]
          exact further rest
        · intro levels apart
          have fresh : level ∉ levels := fun member => apart level member (List.mem_cons_self ..)
          apply (step_goesOn applied stepping onward fresh).trans
          exact same levels fun l member => List.not_mem_of_not_mem_cons (apart l member)

theorem walk_missed {l : Int} (uncancelled : p.cancelledAt = none) (distinct : levels.Nodup)
    (walking : (walk pick p levels).run j = (.error f, after)) (missing : f.IsMissing l) :
    ∃ before rest q k, levels = before ++ l :: rest ∧ (walk pick p before).run j = (.ok q, k) ∧
      q.cancelledAt = none ∧ p.party.character.isApplied l = false ∧
      p.party.ruleset.node? p.party.character.classId l = none := by
  induction levels generalizing p j with
  | nil => cases walking
  | cons level levels ih =>
    rw [List.nodup_cons] at distinct
    cases applied : p.party.character.isApplied level with
    | true =>
      rw [walk_pass applied] at walking
      obtain ⟨before, rest, q, k, whole, came, on, bare, absent⟩ :=
        ih (p := p.atLevel level) uncancelled distinct.2 walking
      refine ⟨level :: before, rest, q, k, by rw [whole]; rfl, ?_, on, bare, absent⟩
      rwa [walk_pass applied]
    | false =>
      rw [walk, if_neg (by simp [applied]), Action.run_bind] at walking
      rcases stepping : (step pick p level).run j with ⟨g | next, m⟩
      · rw [stepping] at walking
        cases walking
        obtain ⟨rfl, absent⟩ := step_missing applied stepping missing
        exact ⟨[], levels, p, j, rfl, rfl, uncancelled, applied, absent⟩
      · simp only [stepping] at walking
        split at walking
        · cases walking
        · rename_i goesOn
          have onward : next.cancelledAt = none := by simpa using goesOn
          obtain ⟨before, rest, q, k, whole, came, on, bare, absent⟩ := ih onward distinct.2 walking
          have member : l ∈ levels := by simp [whole]
          have same := step_goesOn applied stepping onward distinct.1
          refine ⟨level :: before, rest, q, k, by rw [whole]; rfl, ?_, on, ?_, ?_⟩
          · rwa [walk_cons applied stepping onward]
          · rwa [← same.applied l member]
          · rwa [← same.ruleset, ← same.classId]

-- the advance

def Reaches (pick : Pick) (p : Party) (k : Journey) (level : Int) : Prop :=
  ∃ q l, (walk pick ⟨p, [], p.character.level, none⟩
    (levelsBetween p.character.level (level - 1))).run k = (.ok q, l) ∧ q.cancelledAt = none

theorem pending_clamped {c : Character} {target : Int} (first : 1 ≤ c.level) :
    c.pendingLevels target =
      (levelsBetween c.level (clamp target 1 20)).filter fun l => !c.isApplied l := by
  unfold Character.pendingLevels
  by_cases above : c.level < min target 20
  · have same : clamp target 1 20 = min target 20 := by
      unfold clamp
      omega
    rw [same]
  · have reached : clamp target 1 20 ≤ c.level := by
      unfold clamp
      omega
    rw [Character.levelsBetween_nil reached, Character.levelsBetween_nil (by omega)]

theorem foreseen_pending {party : Party} {target : Int} (first : 1 ≤ party.character.level) :
    foreseen party (levelsBetween party.character.level (clamp target 1 20)) =
      (LevelPlan.pending party.ruleset party.character target).flatMap
        (LevelPlan.calls party.ruleset party.character) := by
  rw [LevelPlan.pending, pending_clamped first, List.flatMap_map]
  rfl

theorem climb_planned {party : Party} {target : Int} {k : Journey} {outcome : Except Failure Advanced}
    (climbing : (climb pick party target).run k = (outcome, after)) :
    (∃ calls, after.asked = k.asked ++ calls ∧
        calls.map .ok <+: foreseen party (levelsBetween party.character.level target)) ∧
      ∀ a, outcome = .ok a →
        a.applied <+: (levelsBetween party.character.level target).filter
          (fun l => !party.character.isApplied l) ∧
        (a.cancelled = false → a.applied = (levelsBetween party.character.level target).filter
          fun l => !party.character.isApplied l) := by
  simp only [climb, Action.run_bind] at climbing
  have distinct := levelsBetween_nodup party.character.level target
  rcases walking : (walk pick ⟨party, [], party.character.level, none⟩
    (levelsBetween party.character.level target)).run k with ⟨f | q, l⟩
  · obtain ⟨calls, more, within, -⟩ := (walk_planned rfl distinct walking).calls
    rw [walking] at climbing
    cases climbing
    exact ⟨⟨calls, more, within⟩, by simp⟩
  · obtain ⟨⟨calls, more, within, -⟩, applied⟩ := walk_planned rfl distinct walking
    simp only [walking] at climbing
    rcases finishing : (finish q).run l with ⟨f | d, m⟩
    · rw [finishing] at climbing
      cases climbing
      exact ⟨⟨calls, ((finish_asks_nothing q).of_run finishing).trans more, within⟩, by simp⟩
    · rw [finishing] at climbing
      cases climbing
      refine ⟨⟨calls, ((finish_asks_nothing q).of_run finishing).trans more, within⟩, ?_⟩
      rintro a ⟨⟩
      obtain ⟨done, further, upTo, all⟩ := applied q rfl
      have same : q.applied = done := further
      constructor
      · exact same ▸ upTo
      · intro whole
        exact same.trans (all (by simpa using whole))

-- a level is told missing exactly where the walk comes to it

theorem climb_misses_iff {party : Party} {target level : Int} {k : Journey}
    {outcome : Except Failure Advanced}
    (climbing : (climb pick party target).run k = (outcome, after)) :
    (∃ f, outcome = .error f ∧ f.IsMissing level) ↔
      level ∈ (levelsBetween party.character.level target).filter
          (fun l => !party.character.isApplied l) ∧
        party.ruleset.node? party.character.classId level = none ∧ Reaches pick party k level := by
  simp only [climb, Action.run_bind] at climbing
  have distinct := levelsBetween_nodup party.character.level target
  constructor
  · rintro ⟨f, rfl, missing⟩
    rcases walking : (walk pick ⟨party, [], party.character.level, none⟩
      (levelsBetween party.character.level target)).run k with ⟨g | q, l⟩
    · rw [walking] at climbing
      cases climbing
      obtain ⟨before, rest, q, m, whole, came, on, bare, absent⟩ :=
        walk_missed rfl distinct walking missing
      obtain ⟨-, -, rfl⟩ := Character.levelsBetween_cut whole.symm
      refine ⟨List.mem_filter.2 ⟨?_, by simpa using bare⟩, absent, q, m, came, on⟩
      rw [whole]
      simp
    · simp only [walking] at climbing
      rcases finishing : (finish q).run l with ⟨g | d, m⟩
      · rw [finishing] at climbing
        cases climbing
        exact absurd missing (not_missing_of_steady (finish_steady q) finishing)
      · rw [finishing] at climbing
        cases climbing
  · rintro ⟨member, absent, q, l, came, on⟩
    rw [List.mem_filter, Character.mem_levelsBetween, Bool.not_eq_true'] at member
    obtain ⟨⟨above, within⟩, bare⟩ := member
    obtain ⟨rest, whole⟩ := Character.levelsBetween_split above within
    obtain ⟨further, same⟩ := walk_goesOn rfl came on
    have later : ∀ l ∈ [level], l ∉ levelsBetween party.character.level (level - 1) := by
      intro l here
      rw [List.mem_singleton.1 here, Character.mem_levelsBetween]
      omega
    have plan := same [level] later
    have stillBare : q.party.character.isApplied level = false := by
      rw [plan.applied level (List.mem_singleton_self level)]
      exact bare
    have stillAbsent : q.party.ruleset.node? q.party.character.classId level = none := by
      rw [plan.ruleset, plan.classId]
      exact absent
    rw [whole, further, walk_missing l stillBare stillAbsent] at climbing
    cases climbing
    exact ⟨_, rfl, _, _, rfl⟩

/-- Planning and advancing agree. The player is asked for the choices of the plan, in its order, each with
the options that the plan foresees, up to where the advance stops; the levels that are applied are the first
of those pending, and all of them unless the player cancels; and the advance tells of a missing level exactly
if it comes to a plan without a node. -/
theorem advance_planned {id : String} {target : Int} {party : Party} {k : Journey}
    {outcome : Except Failure Advanced} (loaded : (load id).run j = (.ok party, k))
    (run : (advance id target pick).run j = (outcome, after)) :
    (∃ calls, after.asked = j.asked ++ calls ∧
        calls.map .ok <+: (LevelPlan.pending party.ruleset party.character target).flatMap
          (LevelPlan.calls party.ruleset party.character)) ∧
      (∀ a, outcome = .ok a → a.applied <+: party.character.pendingLevels target ∧
        (a.cancelled = false → a.applied = party.character.pendingLevels target)) ∧
      ∀ level, (∃ classId available,
          outcome = .error (.levelUp (.progressionMissing classId level available))) ↔
        ∃ plan ∈ LevelPlan.pending party.ruleset party.character target,
          plan.level = level ∧ plan.nodeMissing = true ∧ Reaches pick party k level := by
  obtain ⟨t, u, rulesetId, cls, got, -, -, -, store⟩ := load_eq_ok loaded
  have first := (Store.getCharacter_bounds got).1.1
  have quiet : k.asked = j.asked := by rw [store]
  have missing (level : Int) : (∃ classId available,
      outcome = .error (.levelUp (.progressionMissing classId level available))) ↔
        ∃ f, outcome = .error f ∧ f.IsMissing level := by
    constructor
    · rintro ⟨classId, available, rfl⟩
      exact ⟨_, rfl, classId, available, rfl⟩
    · rintro ⟨_, rfl, classId, available, rfl⟩
      exact ⟨classId, available, rfl⟩
  have planned (level : Int) : (∃ plan ∈ LevelPlan.pending party.ruleset party.character target,
      plan.level = level ∧ plan.nodeMissing = true ∧ Reaches pick party k level) ↔
        level ∈ party.character.pendingLevels target ∧
          party.ruleset.node? party.character.classId level = none ∧ Reaches pick party k level := by
    simp only [LevelPlan.pending, List.mem_map, exists_exists_and_eq_and, LevelPlan.build_level,
      LevelPlan.build_missing]
    constructor
    · rintro ⟨l, member, rfl, rest⟩
      exact ⟨member, rest⟩
    · rintro ⟨member, rest⟩
      exact ⟨level, member, rfl, rest⟩
  simp only [missing, planned]
  rw [← foreseen_pending first, ← quiet, pending_clamped first]
  simp only [advance, Action.run_bind, loaded] at run
  by_cases reached : clamp target 1 20 ≤ party.character.level
  · rw [if_pos reached] at run
    rw [Character.levelsBetween_nil reached]
    have asked := (lower_asks_nothing party.character (clamp target 1 20)).of_run run
    refine ⟨⟨[], by simpa using asked, List.nil_prefix⟩, ?_, ?_⟩
    · rintro a rfl
      rw [(lower_features run).2]
      simp
    · intro level
      constructor
      · rintro ⟨f, rfl, told⟩
        exact absurd told.ofLevel (lower_goes run)
      · rintro ⟨member, -⟩
        simp at member
  · rw [if_neg reached] at run
    obtain ⟨calls, applied⟩ := climb_planned run
    exact ⟨calls, applied, fun level => climb_misses_iff run⟩

end Journey

open Novice in
-- a pupil is asked at two levels, and takes both
theorem advance_planned_pupil :
    ∃ party k full ending calls,
      (Journey.load pupil.id).run (Journey.setOut ((library pupil).withFaults [])) =
        (.ok party, k) ∧
      (Journey.advance pupil.id 3 (lightUpTo 3)).run
        (Journey.setOut ((library pupil).withFaults [])) = (.ok full, ending) ∧
      full.applied = party.character.pendingLevels 3 ∧ ending.asked = calls ∧
      calls.map .ok <+: (LevelPlan.pending party.ruleset party.character 3).flatMap
        (LevelPlan.calls party.ruleset party.character) := by
  obtain ⟨full, ending, run, uncancelled⟩ := pupil_advances
  obtain ⟨party, k, loaded, -⟩ := Action.bind_eq_ok run
  obtain ⟨⟨calls, asked, within⟩, applied, -⟩ := Journey.advance_planned loaded run
  exact ⟨party, k, full, ending, calls, loaded, run, (applied full rfl).2 uncancelled, asked, within⟩

end Tabletop

import Tabletop.Proofs.OwnFeatures
import Tabletop.Proofs.Stopping

set_option autoImplicit false

namespace Tabletop

namespace LevelPlan

def call (r : Ruleset) (classId subclassId : Option String) (level : Int) (choice : Choice) :
    Except Breakdown Asked :=
  (r.optionsFor classId choice level subclassId).map fun options => ⟨level, choice, options⟩

def calls (r : Ruleset) (c : Character) (plan : LevelPlan) : List (Except Breakdown Asked) :=
  plan.choices.map (call r plan.classId c.subclassId plan.level)

theorem build_missing {r : Ruleset} {c : Character} {level : Int} :
    (build r c level).nodeMissing = true ↔ r.node? c.classId level = none := by
  unfold build
  cases r.node? c.classId level <;> simp [ofNode]

theorem build_level (r : Ruleset) (c : Character) (level : Int) : (build r c level).level = level := by
  unfold build
  cases r.node? c.classId level <;> rfl

theorem calls_build {r : Ruleset} {c : Character} {level : Int} {node : Node}
    (found : r.node? c.classId level = some node) :
    (build r c level).calls r c = node.choices.map (call r c.classId c.subclassId level) := by
  rw [build, found]
  rfl

end LevelPlan

namespace Character

-- levels in a row, cut at one of them
theorem levelsBetween_cut {low high level : Int} {before rest : List Int}
    (whole : before ++ level :: rest = levelsBetween low high) :
    low < level ∧ level ≤ high ∧ before = levelsBetween low (level - 1) := by
  induction before generalizing low with
  | nil =>
    obtain ⟨below, rfl, -⟩ := level_ahead whole
    refine ⟨by omega, by omega, ?_⟩
    rw [Int.add_sub_cancel, levelsBetween_nil (Int.le_refl low)]
  | cons first before ih =>
    obtain ⟨-, rfl, further⟩ := level_ahead whole
    obtain ⟨above, within, rfl⟩ := ih further
    refine ⟨by omega, within, ?_⟩
    exact (levelsBetween_cons (by omega)).symm

theorem levelsBetween_split {low high level : Int} (above : low < level) (within : level ≤ high) :
    ∃ rest, levelsBetween low high = levelsBetween low (level - 1) ++ level :: rest := by
  obtain ⟨before, rest, whole⟩ := List.append_of_mem (mem_levelsBetween.2 ⟨above, within⟩)
  obtain ⟨-, -, rfl⟩ := levelsBetween_cut whole.symm
  exact ⟨rest, whole⟩

end Character

def Failure.IsMissing (level : Int) (f : Failure) : Prop :=
  ∃ classId available, f = .levelUp (.progressionMissing classId level available)

theorem Failure.IsMissing.ofLevel {level : Int} {f : Failure} (missing : f.IsMissing level) :
    f.OfLevel := by
  obtain ⟨classId, available, rfl⟩ := missing
  trivial

namespace Journey

open Character (levelsBetween)

/-- What the player will be asked for some levels, those left out that are applied already. -/
def foreseen (p : Party) (levels : List Int) : List (Except Breakdown Asked) :=
  (levels.filter fun l => !p.character.isApplied l).flatMap fun l =>
    (LevelPlan.build p.ruleset p.character l).calls p.ruleset p.character

structure SamePlan (p q : Party) (levels : List Int) : Prop where
  ruleset : q.ruleset = p.ruleset
  classId : q.character.classId = p.character.classId
  subclassId : q.character.subclassId = p.character.subclassId
  applied : ∀ l ∈ levels, q.character.isApplied l = p.character.isApplied l

variable {pick : Pick} {p q : Progress} {level : Int} {j after : Journey}

theorem SamePlan.pending {a b : Party} {levels : List Int} (same : SamePlan a b levels) :
    (levels.filter fun l => !b.character.isApplied l) =
      levels.filter fun l => !a.character.isApplied l :=
  List.filter_congr fun l member => by rw [same.applied l member]

theorem SamePlan.foreseen {a b : Party} {levels : List Int} (same : SamePlan a b levels) :
    foreseen b levels = Journey.foreseen a levels := by
  rw [Journey.foreseen, Journey.foreseen, same.pending]
  simp only [LevelPlan.build, LevelPlan.calls, same.ruleset, same.classId, same.subclassId]

theorem samePlan_atLevel (p : Progress) (level : Int) (levels : List Int) :
    SamePlan p.party (p.atLevel level).party levels :=
  ⟨rfl, rfl, rfl, fun _ _ => rfl⟩

theorem samePlan_raised (node : Node) (made : List Made) (now : Moment) {levels : List Int}
    (fresh : level ∉ levels) :
    SamePlan p.party (p.raised
      ((risen p.party.ruleset node level made p.party.character).touch now) level).party levels := by
  have applied := risen_applied p.party.ruleset node level made p.party.character
  obtain ⟨_, _, _, _, whole⟩ := risen_frame p.party.ruleset node level made p.party.character
  refine ⟨rfl, ?_, ?_, ?_⟩
  · simp only [Progress.raised, Character.touch, whole]
  · simp only [Progress.raised, Character.touch, whole]
  · intro l member
    have other : l ≠ level := fun same => fresh (same ▸ member)
    have still := applied l
    rwa [if_neg other] at still

theorem foreseen_pass {p : Party} {levels : List Int} (applied : p.character.isApplied level = true) :
    foreseen p (level :: levels) = foreseen p levels := by
  simp [foreseen, applied]

theorem foreseen_cons {p : Party} {levels : List Int} (bare : p.character.isApplied level = false) :
    foreseen p (level :: levels) =
      (LevelPlan.build p.ruleset p.character level).calls p.ruleset p.character ++
        foreseen p levels := by
  simp [foreseen, bare]

-- the calls for one level

/-- The calls that were made are the first of those foreseen, and all of them if nothing stopped them. -/
structure Answers (calls : List Asked) (all : List (Except Breakdown Asked)) (unstopped : Prop) :
    Prop where
  within : calls.map .ok <+: all
  full : unstopped → calls.map .ok = all

theorem Answers.none {all : List (Except Breakdown Asked)} {unstopped : Prop} (stopped : ¬ unstopped) :
    Answers [] all unstopped :=
  ⟨List.nil_prefix, fun goesOn => absurd goesOn stopped⟩

theorem ask_calls {party : Party} {choices : List Choice} {known : Dict String Answer}
    {outcome : Except Failure (Option (Dict String Answer))}
    (asking : (ask pick party level known choices).run j = (outcome, after)) :
    ∃ calls, after.asked = j.asked ++ calls ∧
      Answers calls (choices.map (LevelPlan.call party.ruleset party.character.classId
        party.character.subclassId level)) (∃ given, outcome = .ok (some given)) := by
  induction choices generalizing known j with
  | nil =>
    cases asking
    exact ⟨[], by simp, by simp, fun _ => rfl⟩
  | cons choice choices ih =>
    simp only [ask, Action.run_bind] at asking
    cases offered : party.ruleset.optionsFor party.character.classId choice level
      party.character.subclassId with
    | error cause =>
      rw [offered] at asking
      cases asking
      exact ⟨[], by simp, .none (by simp)⟩
    | ok options =>
      have call : LevelPlan.call party.ruleset party.character.classId party.character.subclassId
          level choice = .ok ⟨level, choice, options⟩ := by
        rw [LevelPlan.call, offered]
        rfl
      simp only [offered, Action.run_ofExcept_ok, note, Action.run_change] at asking
      rcases picked : pick choice options level with _ | _ | answer
      · rw [picked] at asking
        cases asking
        exact ⟨[⟨level, choice, options⟩], rfl, by simp [call], by simp⟩
      · rw [picked] at asking
        cases asking
        exact ⟨[⟨level, choice, options⟩], rfl, by simp [call], by simp⟩
      · rw [picked] at asking
        obtain ⟨calls, more, within, full⟩ := ih asking
        refine ⟨⟨level, choice, options⟩ :: calls, by simp [more], ?_, ?_⟩
        · simpa [call] using within
        · intro answered
          simpa [call] using full answered

theorem step_calls {outcome : Except Failure Progress}
    (stepping : (step pick p level).run j = (outcome, after)) :
    ∃ calls, after.asked = j.asked ++ calls ∧
      Answers calls ((LevelPlan.build p.party.ruleset p.party.character level).calls p.party.ruleset
        p.party.character) (∃ q, outcome = .ok q ∧ q.cancelledAt = none) := by
  simp only [step] at stepping
  cases found : p.party.ruleset.node? p.party.character.classId level with
  | none =>
    rw [found] at stepping
    cases stepping
    exact ⟨[], by simp, .none (by simp)⟩
  | some node =>
    simp only [found, Action.run_bind] at stepping
    rw [LevelPlan.calls_build found]
    rcases asking : (ask pick p.party level .empty node.choices).run j with ⟨answer, k⟩
    obtain ⟨calls, more, within, full⟩ := ask_calls asking
    rw [asking] at stepping
    refine ⟨calls, ?_, within, ?_⟩
    · rw [← more]
      rcases answer with f | _ | given
      · cases stepping
        rfl
      · exact (cancel_asks_nothing p level).of_run stepping
      · exact (commit_asks_nothing p level given).of_run stepping
    · rintro ⟨q, rfl, on⟩
      rcases answer with f | _ | given
      · cases stepping
      · obtain ⟨_, l, -, done⟩ := Action.bind_eq_ok stepping
        cases done
        cases on
      · exact full ⟨given, rfl⟩

-- the walk, level by level

structure AsPlanned (p : Progress) (levels : List Int) (j after : Journey)
    (outcome : Except Failure Progress) : Prop where
  calls : ∃ calls, after.asked = j.asked ++ calls ∧
    Answers calls (foreseen p.party levels) (∃ q, outcome = .ok q ∧ q.cancelledAt = none)
  applied : ∀ q, outcome = .ok q → ∃ done, q.applied = p.applied ++ done ∧
    done <+: levels.filter (fun l => !p.party.character.isApplied l) ∧
    (q.cancelledAt = none → done = levels.filter fun l => !p.party.character.isApplied l)

variable {levels : List Int} {outcome : Except Failure Progress}

theorem AsPlanned.pass (applied : p.party.character.isApplied level = true)
    (planned : AsPlanned (p.atLevel level) levels j after outcome) :
    AsPlanned p (level :: levels) j after outcome where
  calls := by
    rw [foreseen_pass applied, ← (samePlan_atLevel p level levels).foreseen]
    exact planned.calls
  applied := by
    intro q went
    rw [List.filter_cons_of_neg (by simp [applied])]
    exact planned.applied q went

theorem AsPlanned.stop {calls : List Asked} (bare : p.party.character.isApplied level = false)
    (more : after.asked = j.asked ++ calls)
    (within : calls.map .ok <+: (LevelPlan.build p.party.ruleset p.party.character level).calls
      p.party.ruleset p.party.character)
    (stopped : ∀ q, outcome = .ok q → q = { p with cancelledAt := some level }) :
    AsPlanned p (level :: levels) j after outcome where
  calls := by
    refine ⟨calls, more, ?_, ?_⟩
    · rw [foreseen_cons bare]
      exact within.trans (List.prefix_append _ _)
    · rintro ⟨q, went, on⟩
      rw [stopped q went] at on
      cases on
  applied := by
    intro q went
    rw [stopped q went]
    exact ⟨[], by simp, List.nil_prefix, by simp⟩

theorem AsPlanned.raise {k : Journey} {calls : List Asked} {d : Character}
    (bare : p.party.character.isApplied level = false) (more : k.asked = j.asked ++ calls)
    (full : calls.map .ok = (LevelPlan.build p.party.ruleset p.party.character level).calls
      p.party.ruleset p.party.character)
    (same : SamePlan p.party (p.raised d level).party levels)
    (planned : AsPlanned (p.raised d level) levels k after outcome) :
    AsPlanned p (level :: levels) j after outcome where
  calls := by
    obtain ⟨later, asked, within, all⟩ := planned.calls
    rw [same.foreseen] at within all
    refine ⟨calls ++ later, by rw [asked, more, List.append_assoc], ?_, ?_⟩
    · rw [foreseen_cons bare, List.map_append, full]
      exact (List.prefix_append_right_inj _).2 within
    · intro goesOn
      rw [foreseen_cons bare, List.map_append, full, all goesOn]
  applied := by
    intro q went
    obtain ⟨done, further, within, all⟩ := planned.applied q went
    rw [same.pending] at within all
    rw [List.filter_cons_of_pos (by simp [bare])]
    refine ⟨level :: done, ?_, List.prefix_cons_inj level |>.2 within, ?_⟩
    · rw [further]
      simp [Progress.raised]
    · intro goesOn
      rw [all goesOn]

theorem walk_planned (uncancelled : p.cancelledAt = none) (distinct : levels.Nodup)
    (walking : (walk pick p levels).run j = (outcome, after)) : AsPlanned p levels j after outcome := by
  induction levels generalizing p j with
  | nil =>
    cases walking
    constructor
    · exact ⟨[], by simp, List.prefix_rfl, fun _ => rfl⟩
    · rintro q ⟨⟩
      exact ⟨[], by simp, List.prefix_rfl, fun _ => rfl⟩
  | cons level levels ih =>
    rw [List.nodup_cons] at distinct
    cases applied : p.party.character.isApplied level with
    | true =>
      rw [walk_pass applied] at walking
      exact .pass applied (ih uncancelled distinct.2 walking)
    | false =>
      rw [walk, if_neg (by simp [applied]), Action.run_bind] at walking
      rcases stepping : (step pick p level).run j with ⟨f | q, k⟩
      · obtain ⟨calls, more, within, -⟩ := step_calls stepping
        rw [stepping] at walking
        cases walking
        refine .stop applied more within ?_
        rintro q ⟨⟩
      · obtain ⟨calls, more, within, full⟩ := step_calls stepping
        rw [stepping] at walking
        rcases step_eq_ok applied stepping with rfl | ⟨rung, now, -, -, rfl⟩
        · cases walking
          refine .stop applied more within ?_
          rintro q ⟨⟩
          rfl
        · have on : (p.raised ((risen p.party.ruleset rung.node level rung.made
              p.party.character).touch now) level).cancelledAt = none := uncancelled
          simp only [on, Option.isSome_none, Bool.false_eq_true, if_false] at walking
          exact .raise applied more (full ⟨_, rfl, on⟩) (samePlan_raised _ _ now distinct.1)
            (ih on distinct.2 walking)

end Journey

end Tabletop

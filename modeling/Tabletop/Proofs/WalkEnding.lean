import Tabletop.Proofs.Halting

set_option autoImplicit false

namespace Tabletop

namespace Journey

open Character (levelsBetween lastPending)
open Store (Keeps Timely)

variable {pick : Pick} {r : Ruleset} {c d : Character} {level : Int}

-- what fails at a level

theorem checkCount_fails {choice : Choice} {picks : Picks} {f : Failure}
    (failed : checkCount choice picks = .error f) (told : f.OfLevel) :
    f = .levelUp (.choiceCount choice.id choice.label choice.count picks.distinctSize) := by
  unfold checkCount at failed
  split at failed
  · cases failed
  · by_cases short : IsWritten choice.count
    · rw [short.text] at failed
      exact (Except.error.inj failed).symm
    · rw [written_fails short] at failed
      cases failed
      exact told.elim

theorem picksOf_fails {s : Selections} {choices : List Choice} {picks : Dict String Picks} {f : Failure}
    (failed : picksOf s picks choices = .error f) (told : f.OfLevel) :
    choices ≠ [] ∧ ∃ id label count picked, f = .levelUp (.choiceCount id label count picked) := by
  induction choices generalizing picks with
  | nil => cases failed
  | cons choice choices ih =>
    refine ⟨by simp, ?_⟩
    simp only [picksOf, bind, Except.bind] at failed
    cases given : s.picksFor choice.id with
    | error cause =>
      simp only [given, Failure.ofExcept] at failed
      cases failed
      exact told.elim
    | ok p =>
      simp only [given, Failure.ofExcept] at failed
      split at failed
      · rename_i miscounted
        cases failed
        exact ⟨_, _, _, _, checkCount_fails miscounted told⟩
      · exact (ih failed).2

theorem made_fails {node : Node} {s : Selections} {f : Failure} (failed : node.made r s = .error f)
    (told : f.OfLevel) :
    node.choices ≠ [] ∧ ∃ id label count picked, f = .levelUp (.choiceCount id label count picked) := by
  have validated : (node.validate s).result = .error f := by
    unfold Node.made at failed
    cases valid : (node.validate s).result with
    | error g =>
      rw [valid] at failed
      cases failed
      rfl
    | ok picks =>
      rw [valid] at failed
      exact absurd told ((Steady.ofExcept _).other f failed)
  unfold Node.validate at validated
  cases picked : picksOf s .empty node.choices with
  | error g =>
    rw [picked] at validated
    cases validated
    exact picksOf_fails picked told
  | ok picks =>
    rw [picked] at validated
    have steady : Steady (do
        let unknown ← Noted.ofExcept (s.undeclared picks)
        if !unknown.isEmpty then Noted.note (.undeclaredSelections unknown)
        return picks : Noted (Dict String Picks)).result := by
      refine Noted.steady_bind (Noted.steady_ofExcept _) fun unknown => ?_
      split
      · exact Noted.steady_bind (.ok _) fun _ => .ok _
      · exact .ok _
    exact absurd told (steady.other f validated)

-- what was asked last was asked for the level

theorem ask_steady (pick : Pick) (p : Party) (level : Int) (known : Dict String Answer)
    (choices : List Choice) : (ask pick p level known choices).Steady := by
  induction choices generalizing known with
  | nil => exact Action.steady_pure _
  | cons choice choices ih =>
    refine Action.steady_bind (Action.steady_ofExcept _) fun options => ?_
    refine Action.steady_bind (Action.steady_change _) fun _ => ?_
    refine Action.steady_bind (Action.steady_ofExcept _) fun answer? => ?_
    cases answer? with
    | none => exact Action.steady_pure _
    | some answer => exact ih _

theorem ask_last {p : Party} {choices : List Choice} {known : Dict String Answer} {j after : Journey}
    {given : Dict String Answer}
    (asking : (ask pick p level known choices).run j = (.ok (some given), after))
    (asked : choices ≠ [] ∨ j.asked.getLast?.map Asked.level = some level) :
    after.asked.getLast?.map Asked.level = some level := by
  induction choices generalizing known j with
  | nil =>
    cases asking
    exact asked.resolve_left (by simp)
  | cons choice choices ih =>
    simp only [ask, Action.run_bind] at asking
    cases offered : p.ruleset.optionsFor p.character.classId choice level p.character.subclassId with
    | error cause =>
      rw [offered] at asking
      cases asking
    | ok options =>
      simp only [offered, Action.run_ofExcept_ok, note, Action.run_change] at asking
      rcases picked : pick choice options level with _ | _ | answer
      · rw [picked] at asking
        cases asking
      · rw [picked] at asking
        cases asking
      · rw [picked] at asking
        exact ih asking (.inr (by simp))

-- one level more

section Step

variable {start : Character} {p : Progress} {high target : Int} {j after : Journey}
  {outcome : Except Failure Progress}

def Stepped (pick : Pick) (r : Ruleset) (start : Character) (target high : Int) (before : Store)
    (after : Journey) : Except Failure Progress → Prop
  | .ok q =>
    q.cancelledAt = some (high + 1) ∧ Halted pick r start target (high + 1) high after.store ∨
      q.cancelledAt = none ∧ q.party.ruleset = r ∧ after.store.supply = before.ticked.supply ∧
        OnWay pick r start q.party.character (high + 1) q.saved after.store
  | .error f => f.OfLevel → FailsAt (high + 1) after.asked f ∧
    Halted pick r start target (high + 1) (start.lastPending high) after.store

-- a player who cancels has the levels passed so far saved
theorem cancel_stepped (onWay : OnWay pick r start p.party.character high p.saved j.store)
    (below : high < target) (bare : p.party.character.isApplied (high + 1) = false) (before : Store)
    (run : (do
      save p.party.character
      return { p with cancelledAt := some (high + 1) } : Travel Progress).run j = (outcome, after)) :
    Stepped pick r start target high before after outcome := by
  have there : { p.party.character with level := high } = p.party.character := by
    rw [← onWay.level]
  simp only [Action.run_bind, run_save] at run
  obtain ⟨t, -, ⟨saved, kept | ⟨rfl, level⟩⟩ | ⟨⟨file, reason, failed⟩, -⟩⟩ :=
    onWay.kept.put onWay.legible onWay.settled rfl
  · rw [saved] at run
    cases run
    exact .inl ⟨rfl, onWay.halted below bare (there ▸ kept)⟩
  · rw [saved] at run
    cases run
    have same : high = p.saved := onWay.level.symm.trans level
    exact .inl ⟨rfl, onWay.halted below bare (same ▸ onWay.kept)⟩
  · rw [failed] at run
    cases run
    exact fun told => told.elim

theorem commit_stepped {node : Node} {given : Dict String Answer}
    (onWay : OnWay pick r start p.party.character high p.saved j.store)
    (ruleset : p.party.ruleset = r) (uncancelled : p.cancelledAt = none) (below : high < target)
    (bound : target ≤ 20) (clock : j.store.supply.now.Legible)
    (bare : p.party.character.isApplied (high + 1) = false)
    (found : r.node? p.party.character.classId (high + 1) = some node)
    (answered : answers pick r p.party.character (high + 1) .empty node.choices = some given)
    (last : node.choices ≠ [] → j.asked.getLast?.map Asked.level = some (high + 1))
    (run : (commit p (high + 1) given).run j = (outcome, after)) :
    Stepped pick r start target high j.store after outcome := by
  subst ruleset
  have room : high < 20 := by omega
  have short := onWay.short room
  cases chosen : node.made p.party.ruleset (.byChoice given) with
  | error f =>
    rw [run_commit_fails short found chosen bare] at run
    cases run
    intro told
    obtain ⟨asks, id, label, count, picked, rfl⟩ := made_fails chosen told
    exact ⟨last asks, onWay.halted below bare (onWay.last ▸ onWay.kept)⟩
  | ok made =>
    let d := (risen p.party.ruleset node (high + 1) made p.party.character).touch j.store.supply.now
    have kept : j.store.ticked.Keeps { p.party.character with level := p.saved } := onWay.kept
    have goesOn {t : Store} (kept : t.Keeps d) :=
      onWay.raise room bare found answered chosen clock kept
    have legible : d.Legible :=
      risen_legible onWay.legible p.party.ruleset node made (onWay.bounds room) clock
    have settled : d.settled = d :=
      Character.settled_touch (risen_settled onWay.settled _ node _ made) _
    obtain ⟨t, supply, ⟨saved, kept | ⟨-, level⟩⟩ | ⟨⟨file, reason, failed⟩, -⟩⟩ :=
      kept.put legible settled (risen_id ..)
    · rw [run_commit short found chosen bare] at run
      simp only [Action.run_bind, run_save, d] at run saved
      rw [saved] at run
      cases run
      exact .inr ⟨uncancelled, rfl, supply, goesOn kept⟩
    · have lower := onWay.below
      change high + 1 = p.saved at level
      omega
    · rw [run_commit short found chosen bare] at run
      simp only [Action.run_bind, run_save, d] at run failed
      rw [failed] at run
      cases run
      exact fun told => told.elim

theorem step_stepped (onWay : OnWay pick r start p.party.character high p.saved j.store)
    (ruleset : p.party.ruleset = r) (uncancelled : p.cancelledAt = none) (below : high < target)
    (bound : target ≤ 20) (clock : j.store.supply.now.Legible)
    (bare : p.party.character.isApplied (high + 1) = false)
    (run : (step pick p (high + 1)).run j = (outcome, after)) :
    Stepped pick r start target high j.store after outcome := by
  subst ruleset
  simp only [step] at run
  cases found : p.party.ruleset.node? p.party.character.classId (high + 1) with
  | none =>
    rw [found] at run
    cases run
    exact fun _ => ⟨rfl, onWay.halted below bare (onWay.last ▸ onWay.kept)⟩
  | some node =>
    simp only [found, Action.run_bind] at run
    rcases asking : (ask pick p.party (high + 1) .empty node.choices).run j with ⟨answer, k⟩
    have store : k.store = j.store := (ask_leaves_store pick _ _ _ _).of_run asking
    have way : OnWay pick p.party.ruleset start p.party.character high p.saved k.store :=
      store ▸ onWay
    rw [asking] at run
    rcases answer with f | _ | given
    · cases run
      have steady := (ask_steady pick p.party (high + 1) .empty node.choices).run j
      exact fun told => absurd told (steady.other f (by rw [asking]))
    · exact cancel_stepped way below bare _ run
    · rw [← store] at clock ⊢
      exact commit_stepped way rfl uncancelled below bound clock bare found (answers_of_ask asking)
        (fun asks => ask_last asking (.inl asks)) run

end Step

theorem walk_pass {p : Progress} {levels : List Int}
    (applied : p.party.character.isApplied level = true) :
    walk pick p (level :: levels) = walk pick (p.atLevel level) levels := by
  rw [walk, if_pos applied]

theorem walk_missing {p : Progress} {levels : List Int} (j : Journey)
    (bare : p.party.character.isApplied level = false)
    (missing : p.party.ruleset.node? p.party.character.classId level = none) :
    (walk pick p (level :: levels)).run j =
      (.error (.levelUp (.progressionMissing p.party.character.classId level
        (p.party.ruleset.levels p.party.character.classId))), j) := by
  rw [walk, if_neg (by simp [bare])]
  simp only [step, missing, Action.run_bind]
  rfl

def Ended (pick : Pick) (r : Ruleset) (start : Character) (target : Int) (after : Journey) :
    Except Failure Progress → Prop
  | .ok q => ∀ level, q.cancelledAt = some level →
    Halted pick r start target level (level - 1) after.store
  | .error f => f.OfLevel → ∃ level, FailsAt level after.asked f ∧
    Halted pick r start target level (start.lastPending (level - 1)) after.store

theorem walk_ended {start : Character} {p : Progress} {high target : Int} {levels : List Int}
    {j after : Journey} {outcome : Except Failure Progress}
    (onWay : OnWay pick r start p.party.character high p.saved j.store)
    (ruleset : p.party.ruleset = r) (uncancelled : p.cancelledAt = none)
    (ahead : levels = levelsBetween high target) (bound : target ≤ 20)
    (timely : j.store.Timely levels.length)
    (run : (walk pick p levels).run j = (outcome, after)) :
    Ended pick r start target after outcome := by
  induction levels generalizing p high j with
  | nil =>
    cases run
    intro level cancelled
    rw [uncancelled] at cancelled
    cases cancelled
  | cons level levels ih =>
    obtain ⟨below, rfl, further⟩ := Character.level_ahead ahead
    rw [List.length_cons] at timely
    cases applied : p.party.character.isApplied (high + 1) with
    | true =>
      rw [walk_pass applied] at run
      exact ih (p := p.atLevel (high + 1)) (onWay.pass (by omega) applied) ruleset uncancelled further
        (timely.mono (by omega)) run
    | false =>
      rw [walk, if_neg (by simp [applied]), Action.run_bind] at run
      rcases stepping : (step pick p (high + 1)).run j with ⟨f | q, k⟩
      · have stepped := step_stepped onWay ruleset uncancelled below bound timely.legible applied
          stepping
        rw [stepping] at run
        cases run
        intro told
        obtain ⟨here, halted⟩ := stepped told
        exact ⟨high + 1, here, by rwa [Int.add_sub_cancel]⟩
      · have stepped := step_stepped onWay ruleset uncancelled below bound timely.legible applied
          stepping
        rw [stepping] at run
        rcases stepped with ⟨cancelled, halted⟩ | ⟨on, sameRuleset, supply, next⟩
        · simp only [cancelled, Option.isSome_some, if_true] at run
          cases run
          intro level same
          obtain rfl : high + 1 = level := Option.some.inj (cancelled.symm.trans same)
          rwa [Int.add_sub_cancel]
        · simp only [on, Option.isSome_none, Bool.false_eq_true, if_false] at run
          exact ih next sameRuleset on further (timely.tick.of_supply supply) run

end Journey

end Tabletop

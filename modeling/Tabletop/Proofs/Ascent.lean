import Mathlib.Data.Int.Order.Basic
import Mathlib.Data.List.Sort
import Tabletop.Advancement.Advance
import Tabletop.Proofs.StoredRuleset

set_option autoImplicit false

namespace Tabletop

theorem mergeSort_ascends {ns : List Int} (distinct : ns.Nodup) :
    (ns.mergeSort fun a b => decide (a ≤ b)).Pairwise (· < ·) := by
  refine (List.sortedLT_iff_nodup_and_sortedLE.2 ⟨?_, List.sortedLE_mergeSort⟩).pairwise
  exact (List.mergeSort_perm ..).nodup_iff.2 distinct

namespace Character

theorem levelsBetween_nil {low high : Int} (reached : high ≤ low) : levelsBetween low high = [] := by
  have none : (high - low).toNat = 0 := by omega
  rw [levelsBetween, none]
  rfl

theorem levelsBetween_cons {low high : Int} (below : low < high) :
    levelsBetween low high = (low + 1) :: levelsBetween (low + 1) high := by
  have count : (high - low).toNat = (high - (low + 1)).toNat + 1 := by omega
  simp only [levelsBetween, count, List.range_succ_eq_map, List.map_cons, List.map_map]
  congr 1
  · simp
  · refine List.map_congr_left fun i _ => ?_
    simp only [Function.comp_apply, Nat.succ_eq_add_one]
    omega

theorem mem_levelsBetween {low high level : Int} :
    level ∈ levelsBetween low high ↔ low < level ∧ level ≤ high := by
  simp only [levelsBetween, List.mem_map, List.mem_range]
  constructor
  · rintro ⟨i, within, rfl⟩
    omega
  · rintro ⟨above, within⟩
    exact ⟨(level - low - 1).toNat, by omega, by omega⟩

theorem levelsBetween_ascends (low high : Int) : (levelsBetween low high).Pairwise (· < ·) := by
  rw [levelsBetween, List.pairwise_map]
  exact List.pairwise_lt_range.imp fun less => by omega

theorem level_reached {low high : Int} (ahead : [] = levelsBetween low high) : high ≤ low := by
  by_cases below : low < high
  · rw [levelsBetween_cons below] at ahead
    contradiction
  · omega

theorem level_ahead {low high level : Int} {levels : List Int}
    (ahead : level :: levels = levelsBetween low high) :
    low < high ∧ level = low + 1 ∧ levels = levelsBetween (low + 1) high := by
  by_cases below : low < high
  · rw [levelsBetween_cons below, List.cons.injEq] at ahead
    exact ⟨below, ahead⟩
  · rw [levelsBetween_nil (by omega)] at ahead
    contradiction

theorem revert_touch (c : Character) (level : Int) (t : Moment) :
    ((c.touch t).revert level).1 = (c.revert level).1.touch t := by
  have same : (c.touch t).record? level = c.record? level := rfl
  cases recorded : c.record? level with
  | none => rw [revert_of_unrecorded recorded, revert_of_unrecorded (same.trans recorded)]
  | some record =>
    rw [revert_of_recorded recorded, revert_of_recorded (same.trans recorded)]
    rfl

theorem committed_touch (r : Ruleset) (node : Node) (level : Int) (made : List Made) (now t : Moment)
    (c : Character) :
    committed r node level made now (c.touch t) = committed r node level made now c := by
  unfold committed
  simp only [revert_touch, fold_eq]
  rfl

end Character

namespace Journey

open Character (levelsBetween committed)

-- the answers for the choices of a level, if there is one for each
def answers (pick : Pick) (r : Ruleset) (c : Character) (level : Int) :
    Dict String Answer → List Choice → Option (Dict String Answer)
  | given, [] => some given
  | given, choice :: choices =>
    match r.optionsFor c.classId choice level c.subclassId with
    | .error _ => none
    | .ok options =>
      match pick choice options level with
      | .ok (some picks) => answers pick r c level (given.insert choice.id picks) choices
      | _ => none

-- the character with what a level gives it, at the time that it had
def risen (r : Ruleset) (node : Node) (level : Int) (made : List Made) (c : Character) : Character :=
  { committed r node level made c.updatedAt c with level := level }

-- the character after its next level
def rise (pick : Pick) (r : Ruleset) (c : Character) (level : Int) : Option Character :=
  (r.node? c.classId level).bind fun node =>
    (answers pick r c level .empty node.choices).bind fun given =>
      (node.made r (.byChoice given)).toOption.map fun made => risen r node level made c

def ascend (pick : Pick) (r : Ruleset) :
    Character → List Int → Option (Character × List Int)
  | c, [] => some (c, [])
  | c, level :: levels =>
    if c.isApplied level then ascend pick r { c with level := level } levels
    else
      (rise pick r c level).bind fun d =>
        (ascend pick r d levels).map fun reached => (reached.1, level :: reached.2)

-- the time of the character and the time of import have no part in it

theorem risen_touch (r : Ruleset) (node : Node) (level : Int) (made : List Made) (c : Character)
    (t : Moment) : risen r node level made (c.touch t) = (risen r node level made c).touch t := by
  rw [risen, Character.committed_touch]
  rfl

theorem answers_touch (pick : Pick) (r : Ruleset) (c : Character) (level : Int) (t : Moment)
    (given : Dict String Answer) (choices : List Choice) :
    answers pick r (c.touch t) level given choices = answers pick r c level given choices := by
  induction choices generalizing given with
  | nil => rfl
  | cons choice choices ih =>
    simp only [answers, ih]
    rfl

theorem rise_touch (pick : Pick) (r : Ruleset) (c : Character) (level : Int) (t : Moment) :
    rise pick r (c.touch t) level = (rise pick r c level).map fun d => d.touch t := by
  simp only [rise, answers_touch, risen_touch, Option.map_bind, Function.comp_def, Option.map_map]
  rfl

theorem ascend_touch (pick : Pick) (r : Ruleset) (c : Character) (levels : List Int) (t : Moment) :
    ascend pick r (c.touch t) levels =
      (ascend pick r c levels).map fun reached => (reached.1.touch t, reached.2) := by
  induction levels generalizing c with
  | nil => rfl
  | cons level levels ih =>
    have same : (c.touch t).isApplied level = c.isApplied level := rfl
    simp only [ascend, same]
    split
    · exact ih { c with level := level }
    · simp only [rise_touch, Option.bind_map, Option.map_bind, Function.comp_def, ih, Option.map_map]

theorem made_importedOn (r : Ruleset) (node : Node) (s : Selections) (t : Moment) :
    node.made (r.importedOn t) s = node.made r s := by
  have listed (picks : Dict String Picks) (choices : List Choice) :
      madeOf (r.importedOn t) picks choices = madeOf r picks choices := by
    induction choices with
    | nil => rfl
    | cons choice choices ih =>
      simp only [madeOf, ih]
      rfl
  simp only [Node.made, listed]

theorem answers_importedOn (pick : Pick) (r : Ruleset) (c : Character) (level : Int) (t : Moment)
    (given : Dict String Answer) (choices : List Choice) :
    answers pick (r.importedOn t) c level given choices = answers pick r c level given choices := by
  induction choices generalizing given with
  | nil => rfl
  | cons choice choices ih =>
    simp only [answers, ih]
    rfl

theorem rise_importedOn (pick : Pick) (r : Ruleset) (c : Character) (level : Int) (t : Moment) :
    rise pick (r.importedOn t) c level = rise pick r c level := by
  simp only [rise, answers_importedOn, made_importedOn]
  rfl

theorem ascend_importedOn (pick : Pick) (r : Ruleset) (c : Character) (levels : List Int)
    (t : Moment) : ascend pick (r.importedOn t) c levels = ascend pick r c levels := by
  induction levels generalizing c with
  | nil => rfl
  | cons level levels ih => simp only [ascend, rise_importedOn, ih]

-- what a level keeps of the character

theorem rise_eq_some {pick : Pick} {r : Ruleset} {c d : Character} {level : Int}
    (rises : rise pick r c level = some d) :
    ∃ node given made, r.node? c.classId level = some node ∧
      answers pick r c level .empty node.choices = some given ∧
      node.made r (.byChoice given) = .ok made ∧ d = risen r node level made c := by
  simp only [rise, Option.bind_eq_some_iff, Option.map_eq_some_iff] at rises
  obtain ⟨node, found, given, answered, made, chosen, rfl⟩ := rises
  cases outcome : node.made r (.byChoice given) with
  | error f => simp [outcome, Except.toOption] at chosen
  | ok made' =>
    obtain rfl : made' = made := by simpa [outcome, Except.toOption] using chosen
    exact ⟨node, given, made', found, answered, outcome, rfl⟩

theorem risen_frame (r : Ruleset) (node : Node) (level : Int) (made : List Made) (c : Character) :
    ∃ features spells infusions advancement, risen r node level made c =
      { c with
        level := level
        features := features
        spells := spells
        infusions := infusions
        advancement := advancement } := by
  obtain ⟨features, spells, infusions, whole⟩ :=
    Character.committed_frame r node level made c.updatedAt c
  exact ⟨features, spells, infusions, _, by rw [risen, whole]⟩

theorem risen_id (r : Ruleset) (node : Node) (level : Int) (made : List Made) (c : Character) :
    (risen r node level made c).id = c.id := by
  obtain ⟨_, _, _, _, whole⟩ := risen_frame r node level made c
  rw [whole]

theorem risen_record? (r : Ruleset) (node : Node) (level : Int) (made : List Made) (c : Character)
    (l : Int) : (risen r node level made c).record? l =
      if l = level then some (recordOf node made) else c.record? l :=
  Character.record?_committed r node level made c.updatedAt c l

theorem risen_applied (r : Ruleset) (node : Node) (level : Int) (made : List Made) (c : Character)
    (l : Int) : (risen r node level made c).isApplied l = if l = level then true else c.isApplied l := by
  rw [Character.isApplied, risen_record?]
  split <;> rfl

theorem risen_ledger {c : Character} {level : Int} (bare : c.isApplied level = false) (r : Ruleset)
    (node : Node) (made : List Made) : (risen r node level made c).advancement =
      c.advancement.insert (toString level) (recordOf node made) := by
  have unrecorded : c.record? level = none := by simpa [Character.isApplied] using bare
  have ledger := Character.advancement_committed r node level made c.updatedAt c
  rwa [Character.revert_of_unrecorded unrecorded] at ledger

theorem risen_legible {c : Character} (legible : c.Legible) (r : Ruleset) (node : Node) {level : Int}
    (made : List Made) (bounds : 1 ≤ level ∧ level ≤ 20) {now : Moment} (clock : now.Legible) :
    ((risen r node level made c).touch now).Legible :=
  { legible.committed r node made bounds legible.updated with
    level := bounds
    updated := clock }

theorem risen_sound {c : Character} (sound : c.Sound) (r : Ruleset) (node : Node) {level : Int}
    (made : List Made) (bounds : 1 ≤ level ∧ level ≤ 20) : (risen r node level made c).Sound :=
  (sound.committed r node made bounds sound.legible.updated).atLevel bounds

theorem risen_settled {c : Character} (settled : c.settled = c) (r : Ruleset) (node : Node)
    (level : Int) (made : List Made) :
    (risen r node level made c).settled = risen r node level made c := by
  obtain ⟨_, _, _, _, whole⟩ := risen_frame r node level made c
  rw [whole]
  exact Character.settled_of_same settled rfl rfl

-- where the way leads

theorem ascend_step {f : Pick} {r : Ruleset} {c final : Character} {level : Int}
    {levels fresh : List Int} (goes : ascend f r c (level :: levels) = some (final, fresh)) :
    ∃ d left, ascend f r d levels = some (final, left) ∧ d.level = level ∧
      d.id = c.id ∧ d.rulesetId = c.rulesetId ∧ d.classId = c.classId := by
  rw [ascend] at goes
  split at goes
  · exact ⟨_, fresh, goes, rfl, rfl, rfl, rfl⟩
  · rw [Option.bind_eq_some_iff] at goes
    obtain ⟨d, rises, goes⟩ := goes
    rw [Option.map_eq_some_iff] at goes
    obtain ⟨⟨reached, left⟩, goes, whole⟩ := goes
    rw [Prod.mk.injEq] at whole
    obtain ⟨rfl, -⟩ := whole
    obtain ⟨node, given, made, -, -, -, rfl⟩ := rise_eq_some rises
    obtain ⟨_, _, _, _, frame⟩ := risen_frame r node level made c
    refine ⟨_, left, goes, ?_⟩
    rw [frame]
    exact ⟨rfl, rfl, rfl, rfl⟩

theorem ascend_level {f : Pick} {r : Ruleset} {c final : Character} {levels fresh : List Int}
    {target : Int} (ahead : levels = levelsBetween c.level target) (below : c.level ≤ target)
    (goes : ascend f r c levels = some (final, fresh)) : final.level = target := by
  induction levels generalizing c fresh with
  | nil =>
    cases goes
    exact Int.le_antisymm below (Character.level_reached ahead)
  | cons level levels ih =>
    obtain ⟨more, rfl, further⟩ := Character.level_ahead ahead
    obtain ⟨d, left, goes, at_level, -⟩ := ascend_step goes
    exact ih (by rw [at_level, further]) (by omega) goes

theorem ascend_identity {f : Pick} {r : Ruleset} {c final : Character} {levels fresh : List Int}
    (goes : ascend f r c levels = some (final, fresh)) :
    final.id = c.id ∧ final.rulesetId = c.rulesetId ∧ final.classId = c.classId := by
  induction levels generalizing c fresh with
  | nil =>
    cases goes
    exact ⟨rfl, rfl, rfl⟩
  | cons level levels ih =>
    obtain ⟨d, left, goes, -, id, ruleset, cls⟩ := ascend_step goes
    rw [← id, ← ruleset, ← cls]
    exact ih goes

end Journey

end Tabletop

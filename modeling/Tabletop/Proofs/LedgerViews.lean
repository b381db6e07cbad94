import Mathlib.Data.List.Nodup
import Mathlib.Logic.Relation
import Tabletop.Proofs.CleanLedger
import Tabletop.Proofs.Rereading

set_option autoImplicit false

namespace Tabletop

namespace Character

/-- A level is applied from a ruleset that was imported, a level is reverted, or the character is saved and
read again. -/
inductive Turn : Character → Character → Prop where
  | applied {imported : Moment} {document : Value} {a : Application} {level : Int} {force : Bool} {now : Moment}
      {c d : Character} :
      (Ruleset.ofDocument imported document).result = .ok a.ruleset → a.on level force now c = .ok d → Turn c d
  | reverted {level : Int} {c : Character} : Turn c (c.revert level).1
  | reread {supply : Supply} {notices : List Notice} {c d : Character} :
      ofValue supply c.toValue = .ok (d, notices) → Turn c d

/-- Whatever came before, the character is what turns make of one that was read from a record. -/
def IsReached (c : Character) : Prop :=
  ∃ supply v start notices, ofValue supply v = .ok (start, notices) ∧ Relation.ReflTransGen Turn start c

variable {c d : Character}

theorem Turn.keyed (turn : Turn c d) (keyed : Ledger.Keyed c.advancement) : Ledger.Keyed d.advancement := by
  cases turn with
  | @applied _ _ a level force now _ _ parsed went =>
    cases idle : c.isApplied level && !force with
    | true =>
      rwa [Application.on_skip idle went]
    | false =>
      obtain ⟨node, made, ⟨found, -⟩, rfl⟩ := Application.makes_of_on idle went
      have node_parsed := Ruleset.node?_parsed parsed found
      exact committed_keyed keyed a.ruleset node made now ⟨node_parsed.low, node_parsed.high⟩
  | reverted => exact revert_keyed keyed
  | reread read => exact (ofValue_bounds read).2

theorem Turn.bounds (turn : Turn c d) (bounds : 1 ≤ c.level ∧ c.level ≤ 20) :
    1 ≤ d.level ∧ d.level ≤ 20 := by
  cases turn with
  | @applied _ _ a level force now _ _ _ went =>
    cases idle : c.isApplied level && !force with
    | true => rwa [Application.on_skip idle went]
    | false =>
      obtain ⟨node, made, -, rfl⟩ := Application.makes_of_on idle went
      obtain ⟨_, _, _, frame⟩ := committed_frame a.ruleset node level made now c
      rwa [frame]
  | @reverted level _ =>
    obtain ⟨_, _, _, _, frame⟩ := revert_frame c level
    rwa [frame]
  | reread read => exact (ofValue_bounds read).1

theorem IsReached.bounds (reached : c.IsReached) :
    (1 ≤ c.level ∧ c.level ≤ 20) ∧ Ledger.Keyed c.advancement := by
  obtain ⟨supply, v, start, notices, read, turns⟩ := reached
  induction turns with
  | refl => exact ofValue_bounds read
  | tail _ turn before => exact ⟨turn.bounds before.1, turn.keyed before.2⟩

-- what the views say of a ledger with such keys

theorem appliedLevels_ascend (keyed : Ledger.Keyed c.advancement) {applied : List Int}
    (listed : c.appliedLevels = .ok applied) : applied.Pairwise (· < ·) := by
  obtain ⟨ns, texts, sorted⟩ := appliedLevels_keys keyed
  obtain rfl := Except.ok.inj (sorted.symm.trans listed)
  -- the texts of the levels are distinct, and so are the levels
  have distinct : (ns.map toString).Nodup := texts ▸ c.advancement.distinct
  exact mergeSort_ascends (List.Nodup.of_map toString distinct)

theorem pendingLevels_ascend (c : Character) (target : Int) : (c.pendingLevels target).Pairwise (· < ·) :=
  (levelsBetween_ascends c.level (min target 20)).filter _

theorem mem_pendingLevels {target level : Int} : level ∈ c.pendingLevels target ↔
    (c.level + 1 ≤ level ∧ level ≤ min target 20) ∧ ¬c.isApplied level = true := by
  rw [pendingLevels, List.mem_filter, mem_levelsBetween, Bool.not_eq_true', Bool.not_eq_true]
  rfl

-- what the calls give, which look a level up by its text

theorem isWritten_of_applied (keyed : Ledger.Keyed c.advancement) {level : Int}
    (applied : c.isApplied level = true) : IsWritten level := by
  rw [isApplied_iff keyed] at applied
  obtain ⟨e, member, key⟩ := List.mem_map.1 applied
  exact IsLevelKey.isWritten (key ▸ (keyed e member).1)

theorem found_iff (keyed : Ledger.Keyed c.advancement) (level : Int) :
    Ledger.isApplied c level = .ok true ↔ c.isApplied level = true := by
  constructor
  · intro found
    by_cases short : IsWritten level
    · simpa [Ledger.isApplied_eq short] using found
    · simp [Ledger.isApplied_fails short] at found
  · exact fun applied => by rw [Ledger.isApplied_eq (isWritten_of_applied keyed applied), applied]

-- a call that fails leaves the character as it is, and so does reverting a level without a record
theorem revert_called (keyed : Ledger.Keyed c.advancement) (level : Int) :
    (Ledger.revert c level).toOption.getD (c, none) = c.revert level := by
  by_cases short : IsWritten level
  · rw [Ledger.revert, Ledger.lookUp_eq short]
    rfl
  · have bare : c.isApplied level = false :=
      Bool.eq_false_iff.2 fun applied => short (isWritten_of_applied keyed applied)
    rw [isApplied, Option.isSome_eq_false_iff, Option.isNone_iff_eq_none] at bare
    rw [Ledger.revert, Ledger.lookUp_fails short, revert_of_unrecorded bare]
    rfl

theorem withoutApplied_eq {levels : List Int} (short : ∀ level ∈ levels, IsWritten level) :
    Ledger.withoutApplied c levels = .ok (levels.filter fun level => !c.isApplied level) := by
  induction levels with
  | nil => rfl
  | cons level levels ih =>
    rw [List.forall_mem_cons] at short
    rw [Ledger.withoutApplied, Ledger.isApplied_eq short.1, ih short.2]
    cases applied : c.isApplied level <;> simp [applied, bind, Except.bind, pure, Except.pure]

theorem pendingLevels_eq (first : 0 ≤ c.level) (target : Int) :
    Ledger.pendingLevels c target = .ok (c.pendingLevels target) := by
  refine withoutApplied_eq fun level member => ?_
  rw [mem_levelsBetween] at member
  exact isWritten_of_bounds (by omega) (by omega)

/-- The levels that are listed as applied ascend, and they are those that are found applied one by one; only a
number of too many digits, which is never listed, cannot be looked up. The levels that are pending on the way to
a target ascend, and they are all the others on that way. -/
theorem IsReached.views_agree (reached : c.IsReached) :
    ∃ applied, c.appliedLevels = .ok applied ∧ applied.Pairwise (· < ·) ∧
      (∀ level, level ∈ applied ↔ Ledger.isApplied c level = .ok true) ∧
      (∀ level, Ledger.isApplied c level = if IsWritten level then .ok (decide (level ∈ applied))
        else .error (.badValue Text.tooLargeMessage)) ∧
      ∀ target, ∃ pending, Ledger.pendingLevels c target = .ok pending ∧ pending.Pairwise (· < ·) ∧
        ∀ level, level ∈ pending ↔ (c.level + 1 ≤ level ∧ level ≤ min target 20) ∧ level ∉ applied := by
  obtain ⟨bounds, keyed⟩ := reached.bounds
  obtain ⟨applied, listed, each⟩ := appliedLevels_eq_ok keyed
  refine ⟨applied, listed, appliedLevels_ascend keyed listed, fun level => ?_, fun level => ?_,
    fun target => ⟨c.pendingLevels target, pendingLevels_eq (by omega) target,
      pendingLevels_ascend c target, fun level => ?_⟩⟩
  · rw [each, found_iff keyed]
  · split
    · rename_i short
      simp only [Ledger.isApplied_eq short, each, Bool.decide_eq_true]
    · rename_i long
      exact Ledger.isApplied_fails long
  · rw [mem_pendingLevels, each]

end Character

-- a record with padded keys, of which one level is applied anew and then taken back

namespace Recruit

open Ruleset.Primer (shelved single graded)

def logbook : Value :=
  .map [(.str "class_id", .str "wizard"), (.str "level", .int 2), (.str "advancement", .map [
    (.str "02", single "a" (.list [.str "light"])), (.str "4", .map []),
    (.str "007", single "b" (.str "frost"))])]

def scholar : Character :=
  ((Failure.ofChecked (Character.ofValue supply logbook)).toOption.get (by decide +kernel)).1

def drilled : Character :=
  (drill.on 2 true shelved scholar).toOption.get (by decide +kernel)

def recalled : Character :=
  ((Failure.ofChecked (Character.ofValue supply (drilled.revert 2).1.toValue)).toOption.get
    (by decide +kernel)).1

theorem recalled_reached : recalled.IsReached := by
  have read : ∃ notices, Character.ofValue supply logbook = .ok (scholar, notices) :=
    ⟨_, ok_of_ofChecked (ok_of_get (by decide +kernel))⟩
  have reread : ∃ notices, Character.ofValue supply (drilled.revert 2).1.toValue = .ok (recalled, notices) :=
    ⟨_, ok_of_ofChecked (ok_of_get (by decide +kernel))⟩
  have parsed : (Ruleset.ofDocument shelved graded).result = .ok drill.ruleset :=
    ok_of_get (by decide +kernel)
  have went : drill.on 2 true shelved scholar = .ok drilled := ok_of_get (by decide +kernel)
  obtain ⟨notices, read⟩ := read
  obtain ⟨_, reread⟩ := reread
  refine ⟨supply, logbook, scholar, notices, read, ?_⟩
  exact (((Relation.ReflTransGen.single (.applied parsed went)).tail .reverted).tail (.reread reread))

end Recruit

open Recruit in
theorem views_agree_recalled :
    recalled.IsReached ∧ recalled.appliedLevels = .ok [7] ∧
      Ledger.isApplied recalled 7 = .ok true ∧ Ledger.isApplied recalled 2 = .ok false ∧
      Ledger.pendingLevels recalled 9 = .ok [3, 4, 5, 6, 8, 9] ∧
      ∃ applied, recalled.appliedLevels = .ok applied ∧ applied.Pairwise (· < ·) ∧
        (∀ level, level ∈ applied ↔ Ledger.isApplied recalled level = .ok true) ∧
        (∀ level, Ledger.isApplied recalled level =
          if IsWritten level then .ok (decide (level ∈ applied))
          else .error (.badValue Text.tooLargeMessage)) ∧
        ∀ target, ∃ pending, Ledger.pendingLevels recalled target = .ok pending ∧
          pending.Pairwise (· < ·) ∧ ∀ level, level ∈ pending ↔
            (recalled.level + 1 ≤ level ∧ level ≤ min target 20) ∧ level ∉ applied :=
  ⟨recalled_reached, by decide +kernel, by decide +kernel, by decide +kernel, by decide +kernel,
    recalled_reached.views_agree⟩

end Tabletop

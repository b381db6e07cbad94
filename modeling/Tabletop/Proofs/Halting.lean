import Tabletop.Proofs.LeftAlone
import Tabletop.Proofs.Resuming
import Tabletop.Proofs.SettlingKeys
import Tabletop.Proofs.Steady

set_option autoImplicit false

namespace Tabletop

namespace Store

variable {s : Store} {d e : Character}

/-- The store holds a record that reads as the character, but for the time, and remembers it. -/
def Keeps (s : Store) (e : Character) : Prop :=
  ∃ c later, c.Legible ∧ s.Holds c ∧ s.known.get? (.characters, c.id) = some c.fingerprint ∧
    c.settled = e.touch later

theorem Keeps.run_getCharacter (keeps : s.Keeps e) :
    ∃ later t, (getCharacter e.id).run s = (.ok (some (e.touch later)), t) := by
  obtain ⟨c, later, legible, holds, -, settled⟩ := keeps
  have id : c.id = e.id := congrArg (fun d => d.id) settled
  have run := Store.run_getCharacter legible holds
  rw [id, settled] at run
  exact ⟨later, _, run⟩

-- a save that leaves the record alone leaves the level alone; one that fails leaves the record as well
theorem Keeps.put (keeps : s.Keeps e) (legible : d.Legible) (settled : d.settled = d)
    (id : d.id = e.id) :
    ∃ t, t.supply = s.supply ∧
      ((putCharacter d).run s = (.ok (), t) ∧ (t.Keeps d ∨ t = s ∧ d.level = e.level) ∨
        (∃ file reason, (putCharacter d).run s = (.error (.storeWrite file reason), t)) ∧
          t.Keeps e) := by
  obtain ⟨c, later, stored, holds, known, reads⟩ := keeps
  have same : d.id = c.id := id.trans (congrArg (fun d => d.id) reads).symm
  have level : c.level = e.level := congrArg (fun d => d.level) reads
  rcases putCharacter_over holds known same with ⟨print, run⟩ |
    ⟨t, -, supply, ⟨run, held, print⟩ | ⟨failed, held, same, -⟩⟩
  · exact ⟨s, rfl, .inl ⟨run, .inr ⟨rfl, (Character.fingerprint_level print).symm.trans level⟩⟩⟩
  · exact ⟨t, supply, .inl ⟨run, .inl ⟨d, d.updatedAt, legible, held, print, settled⟩⟩⟩
  · exact ⟨t, supply, .inr ⟨failed, c, later, stored, held, same ▸ known, reads⟩⟩

end Store

namespace Character

theorem levelsBetween_succ {low high : Int} (above : low ≤ high) :
    levelsBetween low (high + 1) = levelsBetween low high ++ [high + 1] := by
  have count : (high + 1 - low).toNat = (high - low).toNat + 1 := by omega
  rw [levelsBetween, levelsBetween, count, List.range_succ, List.map_append, List.map_singleton]
  congr 2
  omega

def lastPending (c : Character) (bound : Int) : Int :=
  (c.pendingLevels bound).getLast?.getD c.level

theorem lastPending_self (c : Character) (most : c.level ≤ 20) : c.lastPending c.level = c.level := by
  have none : levelsBetween c.level (min c.level 20) = [] := levelsBetween_nil (by omega)
  simp [lastPending, pendingLevels, none]

theorem lastPending_succ {c : Character} {level : Int} (above : c.level ≤ level)
    (below : level < 20) :
    c.lastPending (level + 1) = if c.isApplied (level + 1) then c.lastPending level else level + 1 := by
  have next : min (level + 1) 20 = level + 1 := by omega
  have this : min level 20 = level := by omega
  rw [lastPending, lastPending, pendingLevels, pendingLevels, next, this, levelsBetween_succ above,
    List.filter_append]
  cases applied : c.isApplied (level + 1) <;> simp [applied]

end Character

namespace Journey

open Character (levelsBetween lastPending)
open Store (Keeps)

-- the levels that the player is taught

def replies (pick : Pick) (r : Ruleset) (c : Character) (level : Int) : Dict String Answer :=
  ((r.node? c.classId level).bind fun node =>
    answers pick r c level .empty node.choices).getD .empty

/-- The character with a level applied as the player answers, unless it is applied already, and at that
level. -/
def taught (pick : Pick) (r : Ruleset) (c : Character) (level : Int) : Except Failure Character :=
  (c.applyLevel r c.classId level (.byChoice (replies pick r c level)) false c.updatedAt).result.map
    fun d => { d with level := level }

variable {pick : Pick} {r : Ruleset} {c d : Character} {level : Int}

theorem taught_applied (short : IsWritten level) (applied : c.isApplied level = true) :
    taught pick r c level = .ok { c with level := level } := by
  rw [taught, Character.applyLevel_result _ _ _ short, applied]
  rfl

theorem taught_risen (short : IsWritten level) {node : Node} {given : Dict String Answer} {made : List Made}
    (bare : c.isApplied level = false) (found : r.node? c.classId level = some node)
    (answered : answers pick r c level .empty node.choices = some given)
    (chosen : node.made r (.byChoice given) = .ok made) :
    taught pick r c level = .ok (risen r node level made c) := by
  have given : replies pick r c level = given := by simp [replies, found, answered]
  rw [taught, given, Character.applyLevel_bare short bare found, chosen]
  rfl

-- how an advance stops

def FailsAt (level : Int) (asked : List Asked) : Failure → Prop
  | .levelUp (.progressionMissing _ l _) => l = level
  | .levelUp (.choiceCount _ _ _ _) => asked.getLast?.map Asked.level = some level
  | _ => False

def Stops : Except Failure Advanced → Prop
  | .ok a => a.cancelled = true
  | .error f => f.OfLevel

def StopsAt (level : Int) (asked : List Asked) : Except Failure Advanced → Prop
  | .ok a => a.cancelled = true ∧ a.note = some ("Cancelled at level " ++ toString level)
  | .error f => FailsAt level asked f

/-- The level that is stored when an advance stopped: levels that it only passed count if the player
cancelled. -/
def savedLevel (start : Character) (level : Int) : Except Failure Advanced → Int
  | .ok _ => level - 1
  | .error _ => start.lastPending (level - 1)

structure Halted (pick : Pick) (r : Ruleset) (start : Character) (target level saved : Int)
    (s : Store) : Prop where
  above : start.level < level
  within : level ≤ target
  left : ∃ x, (levelsBetween start.level (level - 1)).foldlM (taught pick r) start = .ok x ∧
    x.id = start.id ∧ (∀ l, start.level < l → l < level → x.isApplied l = true) ∧
    x.isApplied level = false ∧ s.Keeps { x with level := saved }

theorem Halted.stored {start : Character} {target saved : Int} {s : Store}
    (halted : Halted pick r start target level saved s) :
    ∃ x later t, (levelsBetween start.level (level - 1)).foldlM (taught pick r) start = .ok x ∧
      (∀ l, start.level < l → l < level → x.isApplied l = true) ∧ x.isApplied level = false ∧
      (Store.getCharacter start.id).run s =
        (.ok (some (Character.touch { x with level := saved } later)), t) := by
  obtain ⟨x, reached, id, below, bare, kept⟩ := halted.left
  obtain ⟨later, t, got⟩ := kept.run_getCharacter
  rw [← id]
  exact ⟨x, later, t, reached, below, bare, got⟩

structure OnWay (pick : Pick) (r : Ruleset) (start c : Character) (high saved : Int) (s : Store) :
    Prop where
  legible : c.Legible
  settled : c.settled = c
  id : c.id = start.id
  level : c.level = high
  above : start.level ≤ high
  below : saved ≤ high
  reached : ∃ x now, (levelsBetween start.level high).foldlM (taught pick r) start = .ok x ∧
    c = x.touch now
  passed : ∀ l, start.level < l → l ≤ high → c.isApplied l = true
  ahead : ∀ l, high < l → c.isApplied l = start.isApplied l
  last : saved = start.lastPending high
  kept : s.Keeps { c with level := saved }

theorem foldlM_taught {start x y : Character} {high : Int} (above : start.level ≤ high)
    (reached : (levelsBetween start.level high).foldlM (taught pick r) start = .ok x)
    (next : taught pick r x (high + 1) = .ok y) :
    (levelsBetween start.level (high + 1)).foldlM (taught pick r) start = .ok y := by
  rw [Character.levelsBetween_succ above, List.foldlM_append, reached]
  simp [bind, Except.bind, next, pure, Except.pure]

namespace OnWay

variable {start : Character} {high saved target : Int} {s t : Store}

theorem bounds (onWay : OnWay pick r start c high saved s) (below : high < 20) :
    1 ≤ high + 1 ∧ high + 1 ≤ 20 := by
  have first := onWay.legible.level.1
  rw [onWay.level] at first
  omega

theorem short (onWay : OnWay pick r start c high saved s) (below : high < 20) : IsWritten (high + 1) := by
  have bounds := onWay.bounds below
  exact isWritten_of_bounds (by omega) (by omega)

theorem halted (onWay : OnWay pick r start c high saved s) (within : high < target)
    (bare : c.isApplied (high + 1) = false) {stored : Int}
    (kept : t.Keeps { c with level := stored }) :
    Halted pick r start target (high + 1) stored t := by
  have above := onWay.above
  obtain ⟨x, now, reached, rfl⟩ := onWay.reached
  refine ⟨by omega, by omega, x, ?_, onWay.id, ?_, bare, ?_⟩
  · rw [Int.add_sub_cancel]
    exact reached
  · intro l first last
    exact onWay.passed l first (by omega)
  · obtain ⟨d, later, legible, holds, known, reads⟩ := kept
    exact ⟨d, later, legible, holds, known, reads⟩

theorem pass (onWay : OnWay pick r start c high saved s) (below : high < 20)
    (applied : c.isApplied (high + 1) = true) :
    OnWay pick r start { c with level := high + 1 } (high + 1) saved s := by
  obtain ⟨x, now, reached, rfl⟩ := onWay.reached
  have there := onWay.ahead (high + 1) (Int.lt_succ high)
  rw [applied] at there
  exact {
    legible := { onWay.legible with level := onWay.bounds below }
    settled := Character.settled_atLevel onWay.settled _
    id := onWay.id
    level := rfl
    above := Int.le_add_one onWay.above
    below := Int.le_add_one onWay.below
    reached := ⟨_, now, foldlM_taught onWay.above reached
      (taught_applied (onWay.short below) applied), rfl⟩
    passed := by
      intro l low up
      by_cases new : l = high + 1
      · rw [new]
        exact applied
      · exact onWay.passed l low (by omega)
    ahead := fun l up => onWay.ahead l (by omega)
    last := by
      rw [Character.lastPending_succ onWay.above below, ← there, if_pos rfl]
      exact onWay.last
    kept := onWay.kept }

theorem raise (onWay : OnWay pick r start c high saved s) (below : high < 20) {node : Node}
    {given : Dict String Answer} {made : List Made} {now : Moment}
    (bare : c.isApplied (high + 1) = false) (found : r.node? c.classId (high + 1) = some node)
    (answered : answers pick r c (high + 1) .empty node.choices = some given)
    (chosen : node.made r (.byChoice given) = .ok made) (clock : now.Legible)
    (kept : t.Keeps ((risen r node (high + 1) made c).touch now)) :
    OnWay pick r start ((risen r node (high + 1) made c).touch now) (high + 1) (high + 1) t := by
  have applied (l : Int) : ((risen r node (high + 1) made c).touch now).isApplied l =
      if l = high + 1 then true else c.isApplied l := risen_applied r node _ made c l
  have short := onWay.short below
  have there := onWay.ahead (high + 1) (Int.lt_succ high)
  rw [bare] at there
  obtain ⟨x, before, reached, rfl⟩ := onWay.reached
  rw [answers_touch] at answered
  exact {
    legible := risen_legible onWay.legible r node made (onWay.bounds below) clock
    settled := Character.settled_touch (risen_settled onWay.settled _ node _ made) _
    id := (risen_id ..).trans onWay.id
    level := rfl
    above := Int.le_add_one onWay.above
    below := Int.le_refl _
    reached := by
      refine ⟨_, now, foldlM_taught onWay.above reached
        (taught_risen short bare found answered chosen), ?_⟩
      rw [risen_touch]
      rfl
    passed := by
      intro l low up
      rw [applied]
      split
      · rfl
      · exact onWay.passed l low (by omega)
    ahead := by
      intro l up
      rw [applied, if_neg (by omega)]
      exact onWay.ahead l (by omega)
    last := by
      rw [Character.lastPending_succ onWay.above below]
      simp [← there]
    kept := kept }

end OnWay

end Journey

end Tabletop

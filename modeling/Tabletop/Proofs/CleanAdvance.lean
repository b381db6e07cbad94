import Tabletop.Proofs.CleanLedger
import Tabletop.Proofs.Stopping

set_option autoImplicit false

namespace Tabletop

open Tabletop.Action (Leaves)

namespace Store

variable {s : Store} {r : Ruleset} {id : String}

def KeepsClean (s : Store) (r : Ruleset) (id : String) : Prop :=
  ∃ e, s.Keeps e ∧ e.id = id ∧ e.Clean r

theorem KeepsClean.stored (kept : s.KeepsClean r id) :
    ∃ e t, (getCharacter id).run s = (.ok (some e), t) ∧ e.Clean r := by
  obtain ⟨e, keeps, rfl, clean⟩ := kept
  obtain ⟨later, t, got⟩ := keeps.run_getCharacter
  exact ⟨e.touch later, t, got, (Character.clean_touch later).2 clean⟩

theorem KeepsClean.put (kept : s.KeepsClean r id) {d : Character} (legible : d.Legible)
    (settled : d.settled = d) (same : d.id = id) (clean : d.Clean r) {outcome : Except Failure Unit}
    {t : Store} (run : (putCharacter d).run s = (outcome, t)) :
    t.KeepsClean r id ∧ t.supply = s.supply := by
  obtain ⟨e, keeps, other, before⟩ := kept
  obtain ⟨u, supply, ⟨saved, wrote | ⟨rfl, -⟩⟩ | ⟨⟨file, reason, failed⟩, still⟩⟩ :=
    keeps.put legible settled (same.trans other.symm)
  · obtain ⟨-, rfl⟩ := Prod.mk.inj (run.symm.trans saved)
    exact ⟨⟨d, wrote, same, clean⟩, supply⟩
  · obtain ⟨-, rfl⟩ := Prod.mk.inj (run.symm.trans saved)
    exact ⟨⟨e, keeps, other, before⟩, supply⟩
  · obtain ⟨-, rfl⟩ := Prod.mk.inj (run.symm.trans failed)
    exact ⟨⟨e, still, other, before⟩, supply⟩

end Store

namespace Journey

open Character (levelsBetween)
open Store (KeepsClean Timely)

/-- In the run of the work from here, every character that is saved has the property, and nothing else
changes the disk. -/
inductive OnlySaves (P : Character → Prop) : {α : Type} → Travel α → Journey → Prop
  | quiet {α : Type} {x : Travel α} {j : Journey} (left : Leaves disk x) : OnlySaves P x j
  | save {c : Character} {j : Journey} (fine : P c) : OnlySaves P (save c) j
  | bind {α β : Type} {x : Travel α} {f : α → Travel β} {j : Journey} (first : OnlySaves P x j)
      (next : ∀ a k, x.run j = (.ok a, k) → OnlySaves P (f a) k) : OnlySaves P (x >>= f) j

/-- Work that saves clean characters only and leaves a clean character in the store. If it succeeds, it ends
as `post` has it. -/
structure Tidy (r : Ruleset) (id : String) {α : Type} (x : Travel α) (j : Journey)
    (post : α → Journey → Prop) : Prop where
  saves : OnlySaves (Character.Clean r) x j
  kept : (x.run j).2.store.KeepsClean r id
  next : ∀ a k, x.run j = (.ok a, k) → post a k

variable {r : Ruleset} {id : String} {j : Journey}

section Tidy

variable {α β : Type} {post : α → Journey → Prop} {goal : β → Journey → Prop}

theorem Tidy.bind {x : Travel α} {f : α → Travel β} (first : Tidy r id x j post)
    (next : ∀ a k, post a k → k.store.KeepsClean r id → Tidy r id (f a) k goal) :
    Tidy r id (x >>= f) j goal := by
  have after (a : α) (k : Journey) (ran : x.run j = (.ok a, k)) : Tidy r id (f a) k goal := by
    have kept := first.kept
    rw [ran] at kept
    exact next a k (first.next a k ran) kept
  refine ⟨.bind first.saves fun a k ran => (after a k ran).saves, ?_, ?_⟩
  · rw [Action.run_bind]
    rcases ran : x.run j with ⟨f | a, k⟩
    · have kept := first.kept
      rwa [ran] at kept
    · exact (after a k ran).kept
  · intro b l ran
    obtain ⟨a, k, began, went⟩ := Action.bind_eq_ok ran
    exact (after a k began).next b l went

theorem Tidy.pure {a : α} (kept : j.store.KeepsClean r id) (holds : post a j) :
    Tidy r id (pure a) j post := by
  refine ⟨.quiet (Action.leaves_pure a), kept, ?_⟩
  rintro b k ⟨⟩
  exact holds

theorem Tidy.fail {f : Failure} (kept : j.store.KeepsClean r id) : Tidy r id (.fail f) j post := by
  refine ⟨.quiet (Action.leaves_fail f), kept, ?_⟩
  intro a k ran
  rw [Action.run_fail] at ran
  cases ran

theorem ofResult_tidy (x : Except Failure α) (kept : j.store.KeepsClean r id) :
    Tidy r id (.ofResult x) j fun a k => x = .ok a ∧ k = j := by
  cases x with
  | error f => exact .fail kept
  | ok a => exact .pure kept ⟨rfl, rfl⟩

end Tidy

theorem save_tidy {c : Character} (kept : j.store.KeepsClean r id) (legible : c.Legible)
    (settled : c.settled = c) (same : c.id = id) (clean : c.Clean r) :
    Tidy r id (save c) j fun _ k => k.store.supply = j.store.supply := by
  have put := kept.put legible settled same clean rfl
  refine ⟨.save clean, put.1, ?_⟩
  intro _ k ran
  rw [run_save, Prod.mk.injEq] at ran
  rw [← ran.2]
  exact put.2

theorem now_tidy (kept : j.store.KeepsClean r id) : Tidy r id (onStore Store.now) j fun now k =>
    now = j.store.supply.now ∧ k.store = j.store.ticked := by
  refine ⟨.quiet (onStore_leaves Store.now_leaves), kept, ?_⟩
  rintro now k ⟨⟩
  exact ⟨rfl, rfl⟩

theorem ask_tidy (pick : Pick) (p : Party) (level : Int) (known : Dict String Answer)
    (choices : List Choice) (kept : j.store.KeepsClean r id) :
    Tidy r id (ask pick p level known choices) j fun _ k => k.store = j.store := by
  have left := ask_leaves_store pick p level known choices
  refine ⟨.quiet ⟨fun k => congrArg Store.disk (left.run k)⟩, ?_, fun answer k => left.of_run⟩
  rw [left.run j]
  exact kept

-- one level more

structure Neat (r : Ruleset) (id : String) (p : Progress) (s : Store) : Prop where
  legible : p.party.character.Legible
  settled : p.party.character.settled = p.party.character
  named : p.party.character.id = id
  ruleset : p.party.ruleset = r
  clean : p.party.character.Clean r
  level : p.party.character.level = p.saved
  uncancelled : p.cancelledAt = none
  kept : s.KeepsClean r id

def Stays (r : Ruleset) (id : String) (level : Int) (supply : Supply) (q : Progress) (k : Journey) :
    Prop :=
  q.cancelledAt.isSome = true ∨
    Neat r id q k.store ∧ q.party.character.level = level ∧ k.store.supply = supply

variable {p : Progress} {pick : Pick}

theorem commit_tidy {node : Node} {given : Dict String Answer} (neat : Neat r id p j.store)
    (clock : j.store.supply.now.Legible) (room : p.party.character.level < 20)
    (found : r.node? p.party.character.classId (p.party.character.level + 1) = some node) :
    Tidy r id (commit p (p.party.character.level + 1) given) j
      (Stays r id (p.party.character.level + 1) j.store.ticked.supply) := by
  obtain rfl := neat.ruleset
  let c := p.party.character
  have bare : c.isApplied (c.level + 1) = false :=
    neat.clean.bare neat.legible.ledger (Int.lt_succ c.level)
  have bounds : 1 ≤ c.level + 1 ∧ c.level + 1 ≤ 20 := by
    have first : 1 ≤ c.level := neat.legible.level.1
    change c.level < 20 at room
    omega
  refine (now_tidy neat.kept).bind ?_
  rintro now k ⟨rfl, ticked⟩ kept
  refine (ofResult_tidy _ kept).bind ?_
  rintro d k ⟨applied, rfl⟩ kept
  rw [Character.applyLevel_bare (isWritten_of_bounds (by omega) (by omega)) bare found] at applied
  cases chosen : node.made p.party.ruleset (.byChoice given) with
  | error f =>
    rw [chosen] at applied
    cases applied
  | ok made =>
    rw [chosen] at applied
    cases applied
    let d := (risen p.party.ruleset node (c.level + 1) made c).touch j.store.supply.now
    have legible : d.Legible := risen_legible neat.legible p.party.ruleset node made bounds clock
    have settled : d.settled = d :=
      Character.settled_touch (risen_settled neat.settled p.party.ruleset node _ made) _
    have same : d.id = id := (risen_id p.party.ruleset node _ made c).trans neat.named
    have clean : d.Clean p.party.ruleset :=
      (Character.clean_touch _).2 (neat.clean.risen neat.legible room found chosen)
    have saving : Tidy p.party.ruleset id (save d) k fun _ l => l.store.supply = k.store.supply :=
      save_tidy kept legible settled same clean
    refine saving.bind ?_
    intro _ m supply kept
    refine .pure kept (.inr ⟨⟨legible, settled, same, rfl, clean, rfl, neat.uncancelled, kept⟩, rfl, ?_⟩)
    rw [supply, ticked]

theorem step_tidy (neat : Neat r id p j.store) (clock : j.store.supply.now.Legible)
    (room : p.party.character.level < 20) :
    Tidy r id (step pick p (p.party.character.level + 1)) j
      (Stays r id (p.party.character.level + 1) j.store.ticked.supply) := by
  obtain rfl := neat.ruleset
  simp only [step]
  cases found : p.party.ruleset.node? p.party.character.classId (p.party.character.level + 1) with
  | none => exact .fail neat.kept
  | some node =>
    refine (ask_tidy pick p.party _ .empty node.choices neat.kept).bind ?_
    intro answer k store kept
    cases answer with
    | none =>
      refine (save_tidy kept neat.legible neat.settled neat.named neat.clean).bind ?_
      exact fun _ l _ kept => .pure kept (.inl rfl)
    | some given =>
      rw [← store] at neat clock ⊢
      exact commit_tidy neat clock room found

theorem walk_tidy {levels : List Int} {target : Int} (neat : Neat r id p j.store)
    (ahead : levels = levelsBetween p.party.character.level target) (bound : target ≤ 20)
    (timely : j.store.Timely levels.length) :
    Tidy r id (walk pick p levels) j fun q _ =>
      q.cancelledAt.isSome = true ∨ q.party.character.level = q.saved := by
  induction levels generalizing p j with
  | nil => exact .pure neat.kept (.inr neat.level)
  | cons level levels ih =>
    obtain ⟨below, rfl, further⟩ := Character.level_ahead ahead
    have bare := neat.clean.bare neat.legible.ledger (Int.lt_succ p.party.character.level)
    rw [List.length_cons] at timely
    rw [walk, if_neg (by simp [bare])]
    refine (step_tidy neat timely.legible (by omega)).bind ?_
    rintro q k (cancelled | ⟨neat, level, supply⟩) kept
    · rw [if_pos cancelled]
      exact .pure kept (.inl cancelled)
    · rw [neat.uncancelled, if_neg (by simp)]
      exact ih neat (level.symm ▸ further) (timely.tick.of_supply supply)

theorem finish_tidy (kept : j.store.KeepsClean r id)
    (done : p.cancelledAt.isSome = true ∨ p.party.character.level = p.saved) :
    Tidy r id (finish p) j fun _ _ => True := by
  have still : finish p = pure p.party.character := by
    simp only [finish]
    rw [if_pos (by simpa using done)]
  rw [still]
  exact .pure kept trivial

theorem climb_tidy {party : Party} {target : Int}
    (neat : Neat r id ⟨party, [], party.character.level, none⟩ j.store) (bound : target ≤ 20)
    (timely : j.store.Timely (levelsBetween party.character.level target).length) :
    Tidy r id (climb pick party target) j fun _ _ => True := by
  refine (walk_tidy neat rfl bound timely).bind ?_
  intro q k done kept
  refine (finish_tidy kept done).bind ?_
  exact fun _ _ _ kept => .pure kept trivial

-- a target at the level of the character changes nothing but the time
theorem lower_tidy {c : Character} {target : Int} (legible : c.Legible) (settled : c.settled = c)
    (named : c.id = id) (clean : c.Clean r) (level : target = c.level)
    (clock : j.store.supply.now.Legible) (kept : j.store.KeepsClean r id) :
    Tidy r id (lower c target) j fun _ _ => True := by
  subst level
  have touching : Tidy r id (touched c) j fun d _ => d = c.touch j.store.supply.now := by
    refine (now_tidy kept).bind ?_
    rintro now k ⟨rfl, -⟩ kept
    exact .pure kept rfl
  refine touching.bind ?_
  rintro d k rfl kept
  have legible : (c.touch j.store.supply.now).Legible := { legible with updated := clock }
  have clean : (c.touch j.store.supply.now).Clean r := (Character.clean_touch _).2 clean
  refine (save_tidy kept legible (Character.settled_touch settled _) named clean).bind ?_
  exact fun _ _ _ kept => .pure kept trivial

theorem given_of_class? {name : Option String} {class_ : ClassDef}
    (known : r.class? name = some class_) : ∃ cls, given name = some cls := by
  cases name with
  | none => contradiction
  | some cls =>
    rw [Ruleset.class?] at known
    split at known
    · contradiction
    · rename_i filled
      exact ⟨cls, by simp [given, filled]⟩

theorem load_tidy {c : Character} {s u : Store} {rulesetId : String} {times : Nat}
    (legible : c.Legible) (holds : s.Holds c) (ruled : given c.settled.rulesetId = some rulesetId)
    (served : (Store.getRuleset rulesetId).run (loaded s c) = (.ok (some r), u))
    (clean : c.settled.Clean r) (timely : s.Timely (times + 2)) :
    Tidy r c.id (load c.id) (setOut s) fun p k =>
      p.character = c.settled ∧ p.ruleset = r ∧ k.store.Timely times := by
  obtain ⟨keeps, early⟩ := served_keeps legible holds served timely
  obtain ⟨class_, known⟩ := clean.known
  obtain ⟨cls, classed⟩ := given_of_class? known
  have run : (load c.id).run (setOut s) = (.ok ⟨c.settled, r⟩, setOut u) := by
    have found : (Store.getCharacter c.id).run (setOut s).store =
        (.ok (some c.settled), loaded s c) := Store.run_getCharacter legible holds
    simp only [load, Action.run_bind, run_onStore, found, ruled, served, classed]
    rfl
  refine ⟨.quiet (load_leaves c.id), ?_, ?_⟩
  · rw [run]
    exact ⟨c.settled, keeps, rfl, clean⟩
  · intro p k went
    rw [run] at went
    cases went
    exact ⟨rfl, rfl, early⟩

/-- Nothing is reported of a stored character by its stored ruleset. Then nothing is reported of whatever an
advance to its level or above saves on the way, nor of the character that the advance leaves in the store,
however the player answers and however the advance ends. -/
theorem advance_clean {supply : Supply} {v : Value} {c : Character} {notices : List Notice}
    (json : Json.plain v = .ok v) (now : supply.now.Legible) (next : supply.now.next.Legible)
    (reads : Character.ofValue supply v = .ok (c, notices)) {s : Store} (stored : s.Holds c)
    (clock : s.supply.now.Legible) (year : s.supply.now.date.year < 9999) {start : Character}
    {rulesetId : String} {r : Ruleset} {t u : Store}
    (got : (Store.getCharacter c.id).run s = (.ok (some start), t))
    (ruled : given start.rulesetId = some rulesetId)
    (served : (Store.getRuleset rulesetId).run t = (.ok (some r), u)) (clean : start.Clean r)
    {target : Int} (above : start.level ≤ target) (pick : Pick) :
    OnlySaves (Character.Clean r) (advance c.id target pick) (setOut s) ∧
      ∀ outcome after, (advance c.id target pick).run (setOut s) = (outcome, after) →
        ∃ kept w, (Store.getCharacter c.id).run after.store = (.ok (some kept), w) ∧
          kept.Clean r := by
  obtain ⟨legible, -⟩ := Character.ofValue_legible json now next reads
  have settled : c.settled.settled = c.settled :=
    Character.settled_settled (Character.ofValue_settling reads)
  have timely : s.Timely (20 + 2) := Store.Timely.of_year clock year (by decide)
  have found : (Store.getCharacter c.id).run s = (.ok (some c.settled), loaded s c) :=
    Store.run_getCharacter legible stored
  rw [got, Prod.mk.injEq, Except.ok.injEq, Option.some.injEq] at found
  obtain ⟨rfl, rfl⟩ := found
  have bounds : 1 ≤ c.settled.level ∧ c.settled.level ≤ 20 := legible.level
  have within : clamp target 1 20 ≤ 20 := (clamp_mem (by decide)).2
  have tidy : Tidy r c.id (advance c.id target pick) (setOut s) fun _ _ => True := by
    refine (load_tidy legible stored ruled served clean timely).bind ?_
    rintro ⟨d, q⟩ k ⟨character, ruleset, early⟩ kept
    obtain rfl : d = c.settled := character
    obtain rfl : q = r := ruleset
    by_cases reached : clamp target 1 20 ≤ c.settled.level
    · simp only [if_pos reached]
      have level : clamp target 1 20 = c.settled.level := by
        simp only [clamp] at reached ⊢
        omega
      exact lower_tidy { legible with } settled rfl clean level early.legible kept
    · simp only [if_neg reached]
      have few : (levelsBetween c.settled.level (clamp target 1 20)).length ≤ 20 := by
        simp only [levelsBetween, List.length_map, List.length_range]
        omega
      have neat : Neat q c.id ⟨⟨c.settled, q⟩, [], c.settled.level, none⟩ k.store :=
        ⟨{ legible with }, settled, rfl, rfl, clean, rfl, rfl, kept⟩
      exact climb_tidy neat within (early.mono few)
  refine ⟨tidy.saves, ?_⟩
  intro outcome after ran
  have kept := tidy.kept.stored
  rwa [ran] at kept

end Journey

-- a pupil of level 1 with nothing in the ledger
theorem Novice.pupil_clean : pupil.settled.Clean lessons := by
  have keyed : Ledger.Keyed pupil.settled.advancement := pupil_sound.legible.ledger
  have first : pupil.settled.level = 1 := by decide
  have bare (level : Int) : pupil.settled.isApplied level = false := rfl
  rw [Character.clean_iff keyed]
  refine ⟨_, rfl, ?filled, ?below, ?declared⟩
  case filled =>
    intro level _ low high
    rw [first] at high
    omega
  case below => simp [bare]
  case declared => simp [bare]

open Novice in
-- a pupil takes levels 2 and 3
theorem advance_clean_pupil : ∃ start rulesetId r t u full ending,
    (Store.getCharacter pupil.id).run ((library pupil).withFaults []) = (.ok (some start), t) ∧
      Journey.given start.rulesetId = some rulesetId ∧
      (Store.getRuleset rulesetId).run t = (.ok (some r), u) ∧ start.Clean r ∧ start.level ≤ 3 ∧
      (Journey.advance pupil.id 3 (lightUpTo 3)).run (Journey.setOut ((library pupil).withFaults [])) =
        (.ok full, ending) ∧
      Journey.OnlySaves (Character.Clean r) (Journey.advance pupil.id 3 (lightUpTo 3))
        (Journey.setOut ((library pupil).withFaults [])) ∧
      ∃ kept w, (Store.getCharacter pupil.id).run ending.store = (.ok (some kept), w) ∧
        kept.Clean r := by
  obtain ⟨full, ending, run, -⟩ := pupil_advances
  have holds : ((library pupil).withFaults []).Holds pupil := (library_holds rfl).of_disk rfl rfl rfl
  have json : Json.plain novice.toValue = .ok novice.toValue := novice.proper_toValue.plain
  have reads := pupil_read (library pupil).supply
  obtain ⟨now, next⟩ := library_clock pupil
  have got := Store.run_getCharacter pupil_sound.legible holds
  obtain ⟨u, served⟩ := library_serves pupil
  have same : Store.SameElse (library pupil) (Journey.loaded ((library pupil).withFaults []) pupil) :=
    ⟨rfl, rfl, fun _ _ => rfl⟩
  obtain ⟨imported, key, print, again⟩ := Store.getRuleset_again same served
  have clean : pupil.settled.Clean (lessons.importedOn imported) := pupil_clean
  have above : pupil.settled.level ≤ 3 := by decide
  obtain ⟨saves, left⟩ := Journey.advance_clean json now next reads holds now (by decide) got rfl again
    clean above (lightUpTo 3)
  exact ⟨_, "book", _, _, _, full, ending, got, rfl, again, clean, above, run, saves,
    left (.ok full) ending run⟩

end Tabletop

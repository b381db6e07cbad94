import Tabletop.Proofs.Dated
import Tabletop.Proofs.Stopping

set_option autoImplicit false

namespace Tabletop

open Tabletop.Action (Calm calm_bind calm_pure calm_fail calm_ofResult)
open Journey (Travel)

/-- In the run of the work from a state, every character that is saved is one that `P` has for the store at
that time, and nothing else is written. -/
inductive Saves (P : Store → Character → Prop) :
    {σ : Type} → (σ → Store) → {α : Type} → Action σ α → σ → Prop
  | calm {σ α : Type} {get : σ → Store} {x : Action σ α} {s : σ} (reads : x.Calm get) : Saves P get x s
  | put {c : Character} {s : Store} (fine : P s c) : Saves P (fun s => s) (Store.putCharacter c) s
  | save {c : Character} {j : Journey} (fine : P j.store c) : Saves P Journey.store (Journey.save c) j
  | bind {σ α β : Type} {get : σ → Store} {x : Action σ α} {f : α → Action σ β} {s : σ}
      (first : Saves P get x s) (next : ∀ a t, x.run s = (.ok a, t) → Saves P get (f a) t) :
      Saves P get (x >>= f) s
  | outcome {σ α : Type} {get : σ → Store} {x : Action σ α} {s : σ} (inner : Saves P get x s) :
      Saves P get x.outcome s
  | travel {α : Type} {x : Travel α} {s : Store} (inner : Saves P Journey.store x (Journey.setOut s)) :
      Saves P (fun s => s) (Command.travel x) s

namespace Saves

variable {P : Store → Character → Prop} {σ α : Type} {get : σ → Store} {x : Action σ α} {s : σ}

theorem dated (saves : Saves P get x s) (good : ∀ s c, P s c → c.updatedAt.Upto s.supply.now)
    (dated : (get s).Dated) : (get (x.run s).2).Dated := by
  induction saves with
  | calm reads => exact dated.onward (reads.run _)
  | put fine => exact dated.putCharacter (good _ _ fine)
  | save fine => exact dated.putCharacter (good _ _ fine)
  | @bind σ α β get x f s _ _ first next =>
    have before := first dated
    rw [Action.run_bind]
    rcases ran : x.run s with ⟨e | a, t⟩
    · rwa [ran] at before
    · rw [ran] at before
      exact next a t ran before
  | outcome _ inner => exact inner dated
  | travel _ inner => exact inner dated

end Saves

namespace Character

variable {c d : Character}

def Passes (c d : Character) : Prop :=
  ∃ level, c.level ≤ level ∧ (∀ l, c.level < l → l ≤ level → c.isApplied l = true) ∧
    d = { c with level := level }

theorem Passes.self (c : Character) : c.Passes c :=
  ⟨c.level, Int.le_refl _, fun _ above within => absurd within (Int.not_le_of_gt above), rfl⟩

theorem Passes.next (passes : c.Passes d) (applied : d.isApplied (d.level + 1) = true) :
    c.Passes { d with level := d.level + 1 } := by
  obtain ⟨level, most, below, rfl⟩ := passes
  refine ⟨level + 1, Int.le_add_one most, fun l above within => ?_, rfl⟩
  by_cases last : l = level + 1
  · rw [last]
    exact applied
  · exact below l above (by omega)

theorem applyLevel_time {r : Ruleset} {classId : Option String} {level : Int} {s : Selections}
    {force : Bool} {now : Moment} (ran : (c.applyLevel r classId level s force now).result = .ok d) :
    d = c ∧ c.isApplied level = true ∧ force = false ∨ d.updatedAt = now := by
  rw [applyLevel_result _ _ _ (isWritten_of_applyLevel ran)] at ran
  split at ran
  · rename_i kept
    rw [Bool.and_eq_true, Bool.not_eq_true'] at kept
    cases ran
    exact .inl ⟨rfl, kept⟩
  · split at ran
    · cases ran
    · rename_i node _
      cases chosen : node.made r s with
      | error f =>
        rw [chosen] at ran
        cases ran
      | ok made =>
        rw [chosen] at ran
        cases ran
        exact .inr rfl

end Character

namespace Store

variable {s t : Store} {c d : Character} {excused : Store → Character → Prop}

def Renewed (s : Store) (d : Character) : Prop :=
  ∀ c, s.Stores d.id c → c.updatedAt.less d.updatedAt = true

def Records (s : Store) (c : Character) : Prop :=
  (∃ id, s.Stores id c) ∨
    ∃ p, s.place .characters c.id = .ok p ∧ s.disk.files.get? p = some (.document c.toValue)

/-- The character is one that the store has, come to a higher level by levels that were applied before. -/
def Passed (s : Store) (d : Character) : Prop :=
  ∃ c, s.Records c ∧ c.Passes d

/-- A character that may be saved: it is later than what it replaces, unless it is excused, and not later
than the clock. -/
structure Refiles (excused : Store → Character → Prop) (s : Store) (d : Character) : Prop where
  later : s.Renewed d ∨ excused s d
  time : d.updatedAt.Upto s.supply.now

theorem Passed.onward (passed : s.Passed d) (onward : s.Onward t) : t.Passed d := by
  obtain ⟨c, ⟨id, stores⟩ | ⟨p, placed, file⟩, passes⟩ := passed
  · exact ⟨c, .inl ⟨id, stores.of_disk onward.root.symm onward.disk.symm⟩, passes⟩
  · refine ⟨c, .inr ⟨p, ?_, ?_⟩, passes⟩
    · rw [place, folder, onward.root]
      exact placed
    · rw [onward.disk]
      exact file

-- the time of the clock is later than all that is stored
theorem Past.renewed (past : s.Past) (time : d.updatedAt = s.supply.now) : s.ticked.Renewed d := by
  intro c stores
  rw [time]
  exact (past.times d.id c (stores.of_disk rfl rfl)).past

theorem Past.before_ticked (past : s.Past) (legible : s.supply.now.Legible) :
    s.supply.now.Before s.ticked.supply.now :=
  ⟨legible, past.clock, (Store.before_ticked past.clock).2⟩

theorem Past.refiles (past : s.Past) (legible : s.supply.now.Legible)
    (time : d.updatedAt = s.supply.now) : s.ticked.Refiles excused d where
  later := .inl (past.renewed time)
  time := by
    rw [time]
    exact (past.before_ticked legible).upto (Store.before_ticked past.clock).1

-- a save that goes well replaces the record or leaves all as it was
theorem putCharacter_ends (run : (putCharacter d).run s = (.ok (), t)) : t.Records d ∨ t = s := by
  rw [putCharacter, saveCharacter_record] at run
  cases record : Record.ofEntries d.toEntries with
  | error cause =>
    rw [record] at run
    cases run
  | ok r =>
    obtain rfl := document_of_ofEntries record
    rw [record] at run
    obtain ⟨p, placed, ⟨same, -⟩ | ⟨-, file, root⟩⟩ := put_ends run
    · exact .inr same
    · exact .inl (.inr ⟨p, (place_of_root root _ _).trans placed, file⟩)

end Store

namespace Journey

open Character (levelsBetween)
open Store (Past Renewed Passed Refiles Timely onward_ticked putCharacter_ends putCharacter_leaves_supply)

/-- The player cancels, after levels that were only passed. -/
def Cancels (pick : Pick) (s : Store) (d : Character) : Prop :=
  (∃ choice options level, pick choice options level = .ok none) ∧ s.Passed d

structure Marches (c : Character) (s : Store) : Prop where
  past : s.Past
  time : c.updatedAt.Before s.supply.now
  since : s.Renewed c ∨ s.Passed c

variable {pick : Pick} {p q : Progress} {c d : Character} {s t : Store} {level target : Int}
  {times : Nat} {j after : Journey}

theorem Marches.pass (marches : Marches c s) (applied : c.isApplied (c.level + 1) = true) :
    Marches { c with level := c.level + 1 } s := by
  refine ⟨marches.past, marches.time, ?_⟩
  rcases marches.since with renewed | ⟨e, recorded, passes⟩
  · exact .inl renewed
  · exact .inr ⟨e, recorded, passes.next applied⟩

theorem Marches.of_put (past : s.Past) (time : d.updatedAt.Before s.supply.now)
    (renewed : s.Renewed d) (run : (Store.putCharacter d).run s = (.ok (), t)) : Marches d t := by
  have after := past.putCharacter time
  have supply := (putCharacter_leaves_supply d).of_run run
  rw [run] at after
  refine ⟨after, supply ▸ time, ?_⟩
  obtain recorded | rfl := putCharacter_ends run
  · exact .inr ⟨d, recorded, .self d⟩
  · exact .inl renewed

-- a character with the time of the clock
theorem save_touched {excused : Store → Character → Prop} (past : j.store.Past)
    (legible : j.store.supply.now.Legible) (time : d.updatedAt = j.store.supply.now) :
    Saves (Refiles excused) Journey.store (save d) { j with store := j.store.ticked } :=
  .save (past.refiles legible time)

theorem touched_saves {α : Type} {excused : Store → Character → Prop} (past : j.store.Past)
    (legible : j.store.supply.now.Legible) (answer : Character → α) :
    Saves (Refiles excused) Journey.store (do
      let c ← touched c
      save c
      return answer c) j := by
  refine .bind (.calm (touched_calm c)) fun d k run => ?_
  cases run
  exact .bind (save_touched past legible rfl) fun _ _ _ => .calm (calm_pure _)

theorem ask_cancels {party : Party} {choices : List Choice} {known : Dict String Answer}
    (asking : (ask pick party level known choices).run j = (.ok none, after)) :
    ∃ choice options, pick choice options level = .ok none := by
  induction choices generalizing known j with
  | nil => cases asking
  | cons choice choices ih =>
    simp only [ask, Action.run_bind] at asking
    cases offered : party.ruleset.optionsFor party.character.classId choice level
      party.character.subclassId with
    | error cause =>
      rw [offered] at asking
      cases asking
    | ok options =>
      simp only [offered, Action.run_ofExcept_ok, note, Action.run_change] at asking
      rcases picked : pick choice options level with _ | _ | answer
      · rw [picked] at asking
        cases asking
      · exact ⟨choice, options, picked⟩
      · rw [picked] at asking
        exact ih asking

-- one level

theorem commit_saves (pick : Pick) (marches : Marches p.party.character j.store)
    (bare : p.party.character.isApplied level = false) (timely : j.store.Timely (times + 1))
    (given : Dict String Answer) :
    Saves (Refiles (Cancels pick)) Journey.store (commit p level given) j ∧
      ∀ q after, (commit p level given).run j = (.ok q, after) →
        Marches q.party.character after.store ∧ q.party.character.level = level ∧
          after.store.Timely times := by
  have fresh {now : Moment} {updated : Character} (ran : (p.party.character.applyLevel
      p.party.ruleset p.party.character.classId level (.byChoice given) false now).result =
        .ok updated) : updated.updatedAt = now := by
    rcases Character.applyLevel_time ran with ⟨-, applied, -⟩ | time
    · rw [bare] at applied
      cases applied
    · exact time
  constructor
  · refine .bind (.calm (onStore_calm Store.now_onlyReads)) fun now k ticked => ?_
    cases ticked
    refine .bind (.calm (calm_ofResult _)) fun updated l applying => ?_
    obtain ⟨ran, rfl⟩ := Action.ofResult_eq_ok applying
    refine .bind ?_ fun _ _ _ => .calm (calm_pure _)
    have time : updated.updatedAt = j.store.supply.now := fresh ran
    exact save_touched marches.past timely.legible time
  · intro q after went
    obtain ⟨now, k, ticked, went⟩ := Action.bind_eq_ok went
    cases ticked
    obtain ⟨updated, l, applying, went⟩ := Action.bind_eq_ok went
    obtain ⟨ran, rfl⟩ := Action.ofResult_eq_ok applying
    obtain ⟨_, m, saved, went⟩ := Action.bind_eq_ok went
    cases went
    simp only [run_save, Prod.mk.injEq] at saved
    obtain ⟨done, rfl⟩ := saved
    have time : updated.updatedAt = j.store.supply.now := fresh ran
    have run : (Store.putCharacter { updated with level := level }).run j.store.ticked = (.ok (), _) :=
      Prod.ext done rfl
    have supply := (putCharacter_leaves_supply { updated with level := level }).of_run run
    refine ⟨?_, rfl, (Timely.tick timely).of_supply supply⟩
    have before : updated.updatedAt.Before j.store.ticked.supply.now := by
      rw [time]
      exact marches.past.before_ticked timely.legible
    exact .of_put (marches.past.onward (onward_ticked _)) before (marches.past.renewed time) run

theorem step_saves (pick : Pick) (marches : Marches p.party.character j.store)
    (bare : p.party.character.isApplied level = false) (timely : j.store.Timely (times + 1)) :
    Saves (Refiles (Cancels pick)) Journey.store (step pick p level) j ∧
      ∀ q after, (step pick p level).run j = (.ok q, after) → q.cancelledAt = none →
        Marches q.party.character after.store ∧ q.party.character.level = level ∧
          after.store.Timely times := by
  unfold step
  simp only
  cases found : p.party.ruleset.node? p.party.character.classId level with
  | none =>
    refine ⟨.calm (calm_fail _), fun q after went => ?_⟩
    cases went
  | some node =>
    have quiet := ask_leaves_store pick p.party level .empty node.choices
    constructor
    · refine .bind (.calm (ask_calm ..)) fun answers? k asking => ?_
      have store : k.store = j.store := quiet.of_run asking
      rw [← store] at marches timely
      cases answers? with
      | some given => exact (commit_saves pick marches bare timely given).1
      | none =>
        obtain ⟨choice, options, cancelled⟩ := ask_cancels asking
        refine .bind (.save ⟨?_, marches.time.upto marches.past.clock⟩) fun _ _ _ => .calm (calm_pure _)
        exact marches.since.imp_right fun passed => ⟨⟨choice, options, level, cancelled⟩, passed⟩
    · intro q after went on
      obtain ⟨answers?, k, asking, went⟩ := Action.bind_eq_ok went
      have store : k.store = j.store := quiet.of_run asking
      rw [← store] at marches timely
      cases answers? with
      | some given => exact (commit_saves pick marches bare timely given).2 q after went
      | none =>
        obtain ⟨_, _, -, went⟩ := Action.bind_eq_ok went
        cases went
        cases on

-- all levels

theorem walk_saves (pick : Pick) {levels : List Int} (marches : Marches p.party.character j.store)
    (ahead : levels = levelsBetween p.party.character.level target)
    (timely : j.store.Timely (levels.length + 1)) :
    Saves (Refiles (Cancels pick)) Journey.store (walk pick p levels) j ∧
      ∀ q after, (walk pick p levels).run j = (.ok q, after) → q.cancelledAt = none →
        after.store.Past ∧ after.store.supply.now.Legible := by
  induction levels generalizing p j with
  | nil =>
    refine ⟨.calm (calm_pure _), fun q after went _ => ?_⟩
    cases went
    exact ⟨marches.past, timely.legible⟩
  | cons level levels ih =>
    obtain ⟨-, rfl, further⟩ := Character.level_ahead ahead
    cases applied : p.party.character.isApplied (p.party.character.level + 1) with
    | true =>
      rw [walk_pass applied]
      exact ih (p := p.atLevel _) (marches.pass applied) further (timely.mono (by simp))
    | false =>
      rw [walk, if_neg (by simp [applied])]
      have spare : j.store.Timely (levels.length + 1 + 1) := timely
      obtain ⟨saves, goes⟩ := step_saves pick marches applied spare
      constructor
      · refine .bind saves fun q k stepped => ?_
        split
        · exact .calm (calm_pure _)
        · rename_i on
          rw [Option.not_isSome_iff_eq_none] at on
          obtain ⟨marches, there, timely⟩ := goes q k stepped on
          exact (ih marches (there ▸ further) timely).1
      · intro r after went on
        obtain ⟨q, k, stepped, went⟩ := Action.bind_eq_ok went
        split at went
        · rename_i cancelled
          cases went
          rw [on] at cancelled
          cases cancelled
        · rename_i on'
          rw [Option.not_isSome_iff_eq_none] at on'
          obtain ⟨marches, there, timely⟩ := goes q k stepped on'
          exact (ih marches (there ▸ further) timely).2 r after went on

theorem finish_saves {excused : Store → Character → Prop}
    (goes : p.cancelledAt = none → j.store.Past ∧ j.store.supply.now.Legible) :
    Saves (Refiles excused) Journey.store (finish p) j := by
  unfold finish
  simp only
  split
  · exact .calm (calm_pure _)
  · rename_i ended
    rw [Bool.or_eq_true, not_or, Option.not_isSome_iff_eq_none] at ended
    obtain ⟨past, legible⟩ := goes ended.1
    exact touched_saves past legible fun c => c

theorem lower_saves {excused : Store → Character → Prop} (past : j.store.Past)
    (legible : j.store.supply.now.Legible) : Saves (Refiles excused) Journey.store (lower c target) j :=
  touched_saves past legible _

theorem climb_saves (pick : Pick) {party : Party} (marches : Marches party.character j.store)
    (timely : j.store.Timely ((levelsBetween party.character.level target).length + 1)) :
    Saves (Refiles (Cancels pick)) Journey.store (climb pick party target) j := by
  obtain ⟨saves, goes⟩ := walk_saves pick
    (p := ⟨party, [], party.character.level, none⟩) marches rfl timely
  refine .bind saves fun q k walked => ?_
  exact .bind (finish_saves (goes q k walked)) fun _ _ _ => .calm (calm_pure _)

theorem advance_saves (id : String) (target : Int) (pick : Pick) (dated : s.Dated)
    (timely : s.Timely 22) :
    Saves (Refiles (Cancels pick)) Journey.store (advance id target pick) (setOut s) := by
  refine .bind (.calm (load_calm id)) fun party k loaded => ?_
  obtain ⟨t, u, rulesetId, cls, got, -, -, served, rfl⟩ := load_eq_ok loaded
  obtain ⟨bounds, -⟩ := Store.getCharacter_bounds got
  obtain ⟨stores, s', onward, supply, rfl⟩ := Store.getCharacter_eq_ok got
  obtain ⟨t', onward', supply', rfl⟩ := Store.getRuleset_eq_ok served
  have timely' : t'.ticked.Timely 20 :=
    Timely.tick (.of_supply (Timely.tick (timely.of_supply supply)) supply')
  have further : s'.ticked.Onward t'.ticked := onward'.trans (onward_ticked _)
  have past : s'.ticked.Past := (dated.onward onward).ticked
  have kept : s'.ticked.Stores id party.character :=
    stores.of_disk onward.root.symm onward.disk.symm
  have before := past.times id _ kept
  obtain ⟨unzoned, forward⟩ := further.clock past.clock
  have marches : Marches party.character t'.ticked :=
    ⟨past.onward further, before.later unzoned forward,
      .inr (Passed.onward ⟨_, .inl ⟨id, kept⟩, .self _⟩ further)⟩
  have most : clamp target 1 20 ≤ 20 := (clamp_mem (by decide)).2
  simp only
  split
  · exact lower_saves marches.past timely'.legible
  · have few : (levelsBetween party.character.level (clamp target 1 20)).length + 1 ≤ 20 := by
      simp only [levelsBetween, List.length_map, List.length_range]
      omega
    exact climb_saves pick marches (timely'.mono few)

end Journey

end Tabletop

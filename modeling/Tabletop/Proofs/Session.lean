import Tabletop.Proofs.LaterTimes
import Tabletop.Proofs.LevelByLevel

set_option autoImplicit false

namespace Tabletop

open Tabletop.Action (Leaves leaves_bind leaves_pure leaves_state leaves_fail leaves_ofExcept calm_pure
  calm_fail calm_ofResult calm_ofExcept)
open Store (Work OnlyReads Dated Refiles Timely)
open Journey (Cancels setOut)

variable {s t : Store}

namespace Store

variable {α β : Type}

theorem Dated.run {w : Work α} (dated : s.Dated) (reads : OnlyReads w) : (w.run s).2.Dated :=
  dated.onward (reads.run s)

theorem Dated.bind {x : Work α} {f : α → Work β} (first : (x.run s).2.Dated)
    (next : ∀ a t, x.run s = (.ok a, t) → t.Dated → ((f a).run t).2.Dated) :
    ((x >>= f).run s).2.Dated := by
  rw [Action.run_bind]
  rcases ran : x.run s with ⟨e | a, t⟩
  · rwa [ran] at first
  · rw [ran] at first
    exact next a t ran first

-- a backup is no record: it has no id
theorem Dated.exported (dated : s.Dated) {p : Place} {b : Backup} {v : Value}
    (plain : Json.plain b.toValue = .ok v) :
    Dated { s with disk := { s.disk with files := s.disk.files.insert p (.document v) } } := by
  refine dated.written rfl (dated.times.changed rfl fun id q content placed file => ?_)
  simp only [Dict.get?_insert] at file
  split at file
  · cases file
    refine .inr fun es loaded given => ?_
    simp only [Backup.toValue, Json.plain, Json.plainEntries, Json.memberName?, bind_eq_ok, pure_eq_ok,
      Except.ok.injEq] at plain
    obtain ⟨_, ⟨_, -, _, ⟨x, -, _, ⟨y, -, _, rfl, rfl⟩, rfl⟩, rfl⟩, rfl⟩ := plain
    cases loaded
    cases given
  · exact .inl file

end Store

namespace Command

-- who is meant, and by which rules

theorem idOrActive_leaves_supply (given : Option String) (setting : String) :
    Leaves Store.supply (idOrActive given setting) := by
  unfold idOrActive
  split
  · exact leaves_pure _
  · refine leaves_bind ?_ fun v => ?_
    · refine leaves_bind leaves_state fun s => leaves_bind (leaves_ofExcept _) fun v? => ?_
      split
      · exact leaves_pure _
      · exact leaves_fail _
      · exact leaves_pure _
    · split
      · exact leaves_pure _
      · split
        · exact leaves_pure _
        · exact leaves_fail _

theorem findCharacter_eq_ok {id : Option String} {c : Character}
    (found : (findCharacter id).run s = (.ok (some c), t)) :
    ∃ own u, s.Stores own c ∧ s.Onward u ∧ u.supply = s.supply ∧ t = u.ticked := by
  obtain ⟨own?, u, active, got⟩ := Action.bind_eq_ok found
  have onward := (idOrActive_onlyReads id Store.activeCharacter).run s
  have supply := (idOrActive_leaves_supply id Store.activeCharacter).of_run active
  rw [active] at onward
  cases own? with
  | none => cases got
  | some own =>
    obtain ⟨stores, v, onward', supply', rfl⟩ := Store.getCharacter_eq_ok got
    exact ⟨own, v, stores.of_disk onward.root onward.disk, onward.trans onward', supply'.trans supply, rfl⟩

theorem rulesetOf_eq_ok {c : Character} {r : Ruleset} (found : (rulesetOf c).run s = (.ok (some r), t)) :
    ∃ u, s.Onward u ∧ u.supply = s.supply ∧ t = u.ticked := by
  unfold rulesetOf at found
  split at found
  · exact Store.getRuleset_eq_ok found
  · cases found

theorem onWriteFailure_saves {P : Store → Character → Prop} {title : String} {w : Work String}
    (saves : Saves P (fun s => s) w s) : Saves P (fun s => s) (onWriteFailure title w) s := by
  refine .bind (.outcome saves) fun outcome t _ => .calm ?_
  split
  · exact calm_pure _
  · exact calm_pure _
  · exact calm_fail _

def Skips (level : Int) (force : Bool) (s : Store) (d : Character) : Prop :=
  force = false ∧ ∃ id c, s.Stores id c ∧ c.isApplied level = true ∧ d = Sheet.raiseLevel c level

theorem raiseLevel_time (c : Character) (level : Int) :
    (Sheet.raiseLevel c level).updatedAt = c.updatedAt := by
  unfold Sheet.raiseLevel
  split <;> rfl

theorem applyLevel_saves (level : Int) (selections : Selections) (force : Bool) (id : Option String)
    (dated : s.Dated) (timely : s.Timely 3) :
    Saves (Refiles (Skips level force)) (fun s => s) (applyLevel level selections force id) s := by
  refine .bind (.calm (findCharacter_onlyReads id)) fun c? t found => ?_
  cases c? with
  | none => exact .calm (calm_pure _)
  | some c =>
    obtain ⟨own, u, stores, onward, supply, rfl⟩ := findCharacter_eq_ok found
    refine .bind (.calm (rulesetOf_onlyReads c)) fun r? v ruled => ?_
    cases r? with
    | none => exact .calm (calm_pure _)
    | some r =>
      obtain ⟨w, onward', supply', rfl⟩ := rulesetOf_eq_ok ruled
      have past : w.ticked.Past :=
        (dated.onward onward).ticked.onward (onward'.trans (Store.onward_ticked _))
      have kept : w.ticked.ticked.Stores own c :=
        stores.of_disk (onward'.root.trans onward.root).symm (onward'.disk.trans onward.disk).symm
      have early : u.ticked.Timely 2 := Timely.tick (timely.of_supply supply)
      have legible : w.ticked.supply.now.Legible := (Timely.tick (early.of_supply supply')).legible
      refine .bind (.calm Store.now_onlyReads) fun now x ticked => ?_
      cases ticked
      refine .bind (.calm (calm_ofResult _)) fun answer y applying => ?_
      obtain ⟨ran, rfl⟩ := Action.ofResult_eq_ok applying
      rcases answer with ⟨_ | d, message⟩
      · exact .calm (calm_pure _)
      · refine onWriteFailure_saves (.bind (.put ?_) fun _ _ _ => .calm (calm_pure _))
        obtain ⟨updated, applied, rfl⟩ := Sheet.applyLevel_eq_ok ran
        have unzoned := (Store.before_ticked past.clock).1
        rcases Character.applyLevel_time applied with ⟨rfl, taken, rfl⟩ | time
        · refine ⟨.inr ⟨rfl, own, updated, kept, taken, rfl⟩, ?_⟩
          rw [raiseLevel_time]
          exact ((past.onward (Store.onward_ticked _)).times own _ kept).upto unzoned
        · exact past.refiles legible ((raiseLevel_time ..).trans time)

-- the level rises, and the time stays
theorem applyLevel_again {c : Character} {r : Ruleset} {level : Int} (sound : c.Sound)
    (settled : c.settled = c) (holds : s.Holds c) (served : Journey.Served s c r)
    (applied : c.isApplied level = true) (below : c.level < level) (most : level ≤ 20)
    (timely : s.Timely 2) (spared : true ∉ s.disk.faults) (selections : Selections) :
    ∃ answer t, (applyLevel level selections false (some c.id)).run s = (.ok answer, t) ∧
      t.Holds { c with level := level } ∧ t.supply = s.ticked.ticked.ticked.supply := by
  have first := sound.legible.level.1
  obtain ⟨ruleset, imported, t, hasRuleset, found, got, since, -, reads, -⟩ :=
    Journey.run_served sound holds served (show s.Timely (0 + 2) from timely)
  rw [settled] at found reads
  have kept : t.ticked.Reads c := reads
  have clock : t.ticked.supply = s.ticked.ticked.ticked.supply := by
    obtain ⟨v, -, supply, rfl⟩ := Store.getRuleset_eq_ok got
    simp only [Store.ticked, supply, Journey.loaded]
  have raised : Sheet.raiseLevel c level = { c with level := level } := by
    rw [Sheet.raiseLevel, if_pos below]
  have brought (now : Moment) :
      Sheet.applyLevel c (r.importedOn imported) level selections false now =
        .ok (some { c with level := level }, Sheet.levelMessage c { c with level := level }) := by
    have short : IsWritten level := isWritten_of_bounds (by omega) (by omega)
    simp only [Sheet.applyLevel, Character.applyLevel_result _ _ _ short, applied, Bool.not_false,
      Bool.and_true, if_true, raised, short.text]
    rfl
  obtain ⟨u, -, supply, ⟨saved, holds', -⟩ | ⟨-, -, fault⟩⟩ := Store.putCharacter_raised kept
    (sound.atLevel ⟨by omega, most⟩) (Character.settled_atLevel settled level) rfl (Int.ne_of_gt below)
  · refine ⟨Sheet.levelMessage c { c with level := level }, u, ?_, holds', supply.trans clock⟩
    simp only [applyLevel, withRuleset, findCharacter, idOrActive, given_id holds, Action.run_bind,
      Action.run_pure, found, rulesetOf, hasRuleset, got, Store.run_now, brought,
      Action.run_ofResult_ok, onWriteFailure, Action.run_outcome, saved]
  · exact absurd (since.faults _ fault) spared

theorem levelUp_saves (target : Int) (pick : Pick) (id : Option String) (dated : s.Dated)
    (timely : s.Timely 22) :
    Saves (Refiles (Cancels pick)) (fun s => s) (levelUp target pick id) s := by
  refine .bind (.calm (idOrActive_onlyReads id _)) fun own? t active => ?_
  have onward := (idOrActive_onlyReads id Store.activeCharacter).run s
  have supply := (idOrActive_leaves_supply id Store.activeCharacter).of_run active
  rw [active] at onward
  cases own? with
  | none => exact .calm (calm_pure _)
  | some own =>
    refine .bind (.outcome (.travel ?_)) fun outcome u _ => .calm ?_
    · exact Journey.advance_saves own target pick (dated.onward onward) (timely.of_supply supply)
    · split
      · exact calm_pure _
      · exact calm_pure _
      · exact calm_pure _
      · exact calm_fail _

-- the other commands keep the store dated

theorem onWriteFailure_dated {title : String} {w : Work String} (dated : (w.run s).2.Dated) :
    ((onWriteFailure title w).run s).2.Dated := by
  have outcome : (w.outcome.run s).2.Dated := dated
  refine outcome.bind fun outcome t _ after => after.run ?_
  split
  · exact calm_pure _
  · exact calm_pure _
  · exact calm_fail _

theorem field?_given_absent {es : Field.Entries} {names : List String} {name : String}
    (listed : es.map (·.1) = names.map .str) (absent : name ∉ names) :
    Value.field? name (nonNull es) = none := by
  refine field?_nonNull_none fun e member key => absurd ?_ absent
  have there : e.1 ∈ es.map (·.1) := List.mem_map_of_mem member
  rw [listed, mem_of_isKey key] at there
  simpa using there

theorem updatedAt_new {n : NewCharacter} {rulesetId : String} {supply : Supply} {c : Character}
    {notices : List Notice} (reads : Character.ofValue supply (n.toValue rulesetId) = .ok (c, notices)) :
    c.updatedAt = supply.now.next := by
  have listed : (Value.entriesOrEmpty (n.toValue rulesetId)).map (·.1) =
      ["name", "ruleset_id", "class_id", "subclass_id", "abilities", "hp", "ac"].map .str := rfl
  refine Character.updatedAt_of_absent ?_ reads
  have current : Character.givenEntries (n.toValue rulesetId) =
      nonNull (Value.entriesOrEmpty (n.toValue rulesetId)) := by
    have apart : ∀ old ∈ Character.legacyNames,
        old.1 ∉ ["name", "ruleset_id", "class_id", "subclass_id", "abilities", "hp", "ac"] := by decide
    exact Character.foldl_renameField fun old member => field?_given_absent listed (apart old member)
  rw [current]
  exact field?_given_absent listed (by decide)

theorem saveNew_dated (n : NewCharacter) (rulesetId : String) (dated : s.Dated) (timely : s.Timely 1) :
    ((saveNew n rulesetId).run s).2.Dated := by
  have next : s.supply.now.next.Legible :=
    (Moment.next_next_legible (n := 0) timely.legible timely.spare).1
  refine .bind (dated.run Store.tick_onlyReads) fun supply t ticked after => ?_
  cases ticked
  refine .bind (after.run (calm_ofResult _)) fun read u reading after => ?_
  obtain ⟨reads, rfl⟩ := Action.ofResult_eq_ok reading
  obtain ⟨c, notices⟩ := read
  cases value : Character.ofValue s.supply (n.toValue rulesetId) with
  | refused faults =>
    rw [value] at reads
    cases reads
  | broken cause =>
    rw [value] at reads
    cases reads
  | ok read =>
    rw [value] at reads
    cases reads
    have unzoned : s.supply.now.next.offset = none := (Moment.offset_next _).trans dated.clock
    have time : c.updatedAt.Upto s.ticked.supply.now := by
      rw [updatedAt_new value]
      refine ⟨next, unzoned, Moment.not_less_of_less unzoned ?_ (Moment.less_next _ unzoned)⟩
      exact (Moment.offset_next _).trans unzoned
    refine onWriteFailure_dated (.bind (after.putCharacter time) fun _ t _ after => ?_)
    exact .bind (after.putSetting _ _) fun _ t _ after => after

theorem createCharacter_dated (n : NewCharacter) (rulesetId : Option String) (dated : s.Dated)
    (timely : s.Timely 2) : ((createCharacter n rulesetId).run s).2.Dated := by
  refine .bind (dated.run (idOrActive_onlyReads ..)) fun id? t active after => ?_
  have supply := (idOrActive_leaves_supply rulesetId Store.activeRuleset).of_run active
  cases id? with
  | none => exact after
  | some id =>
    refine .bind (after.run (Store.getRuleset_onlyReads id)) fun r? u got after => ?_
    cases r? with
    | none => exact after
    | some r =>
      obtain ⟨v, -, supply', rfl⟩ := Store.getRuleset_eq_ok got
      simp only
      split
      · exact saveNew_dated n r.id after (Timely.tick ((timely.of_supply supply).of_supply supply'))
      · exact after

theorem importRuleset_dated (source format : String) (dated : s.Dated) :
    ((importRuleset source format).run s).2.Dated := by
  have loaded : ((loadSource source format).run s).2.Dated :=
    dated.run (loadSource_onlyReads source format)
  refine Store.Dated.bind (x := (loadSource source format).outcome) loaded fun outcome t _ after => ?_
  split
  · exact after
  · exact after
  · rename_i r _
    refine onWriteFailure_dated (.bind (after.putRuleset r) fun _ u _ after => ?_)
    exact .bind (after.putSetting _ _) fun _ v _ after => after

theorem exportBackup_dated (path : Option String) (dated : s.Dated) :
    ((exportBackup path).run s).2.Dated := by
  refine .bind (dated.run Store.exportBackup_onlyReads) fun backup t _ after => ?_
  split
  · exact after.run (Action.calm_bind (calm_ofExcept _) fun _ => calm_pure _)
  · refine .bind after fun u v here after => ?_
    cases here
    simp only
    split
    · exact after
    · refine .bind (after.run (calm_ofExcept _)) fun document w writing after => ?_
      obtain ⟨plain, rfl⟩ := Action.ofExcept_eq_ok writing
      exact after.exported plain

-- sessions

inductive Call where
  | apply (level : Int) (selections : Selections) (force : Bool) (id : Option String)
  | levelUp (target : Int) (pick : Pick) (id : Option String)
  | advance (id : String) (target : Int) (pick : Pick)
  | create (n : NewCharacter) (rulesetId : Option String)
  | importRuleset (source format : String)
  | exportBackup (path : Option String)
  | importBackup (path : String)
  | listRulesets
  | listCharacters
  | sheet (id : Option String)
  | plan (target : Int) (id : Option String)
  | options (level : Int) (choiceId : String) (id : Option String)

namespace Call

-- what it answers is left aside
def quiet {α : Type} (w : Work α) : Work Unit := do
  let _ ← w
  return ()

def work : Call → Work Unit
  | apply level selections force id => quiet (Command.applyLevel level selections force id)
  | levelUp target pick id => quiet (Command.levelUp target pick id)
  | advance id target pick => quiet (travel (Journey.advance id target pick))
  | create n rulesetId => quiet (createCharacter n rulesetId)
  | importRuleset source format => quiet (Command.importRuleset source format)
  | exportBackup path => quiet (Command.exportBackup path)
  | importBackup path => quiet (Command.importBackup path)
  | listRulesets => quiet Command.listRulesets
  | listCharacters => quiet Command.listCharacters
  | sheet id => quiet (characterSheet id)
  | plan target id => quiet (levelUpPlan target id)
  | options level choiceId id => quiet (choiceOptions level choiceId id)

/-- A level up, with the characters that it may save at an old time. -/
inductive LevelsUp : Call → (Store → Character → Prop) → Prop
  | apply (level : Int) (selections : Selections) (force : Bool) (id : Option String) :
      LevelsUp (.apply level selections force id) (Skips level force)
  | levelUp (target : Int) (pick : Pick) (id : Option String) :
      LevelsUp (.levelUp target pick id) (Cancels pick)
  | advance (id : String) (target : Int) (pick : Pick) :
      LevelsUp (.advance id target pick) (Cancels pick)

/-- The clock shows a time of the calendar, and the calendar does not end soon. A backup that is restored
holds no character from the future. -/
structure Fair (c : Call) (s : Store) : Prop where
  clock : s.supply.now.Legible
  year : s.supply.now.date.year < 9999
  restores : ∀ path, c = .importBackup path → (c.work.run s).2.Dated

theorem Fair.timely {c : Call} {times : Nat} (fair : c.Fair s) (few : 2 * times < Moment.dayMicros) :
    s.Timely times :=
  .of_year fair.clock fair.year few

variable {c : Call} {excused : Store → Character → Prop}

theorem saves (up : c.LevelsUp excused) (dated : s.Dated) (fair : c.Fair s) :
    Saves (Refiles excused) (fun s => s) c.work s := by
  cases up with
  | apply level selections force id =>
    exact .bind (applyLevel_saves level selections force id dated (fair.timely (by decide)))
      fun _ _ _ => .calm (calm_pure _)
  | levelUp target pick id =>
    exact .bind (levelUp_saves target pick id dated (fair.timely (by decide)))
      fun _ _ _ => .calm (calm_pure _)
  | advance id target pick =>
    exact .bind (.travel (Journey.advance_saves id target pick dated (fair.timely (by decide))))
      fun _ _ _ => .calm (calm_pure _)

theorem dated_of_saves (up : c.LevelsUp excused) (dated : s.Dated) (fair : c.Fair s) :
    (c.work.run s).2.Dated :=
  (saves up dated fair).dated (fun _ _ refiles => refiles.time) dated

theorem dated_quiet {α : Type} {w : Work α} (dated : (w.run s).2.Dated) :
    ((quiet w).run s).2.Dated :=
  dated.bind fun _ _ _ after => after

theorem dated (dated : s.Dated) (fair : c.Fair s) : (c.work.run s).2.Dated := by
  cases c with
  | apply level selections force id => exact dated_of_saves (.apply ..) dated fair
  | levelUp target pick id => exact dated_of_saves (.levelUp ..) dated fair
  | advance id target pick => exact dated_of_saves (.advance ..) dated fair
  | create n rulesetId =>
    exact dated_quiet (createCharacter_dated n rulesetId dated (fair.timely (by decide)))
  | importRuleset source format => exact dated_quiet (importRuleset_dated source format dated)
  | exportBackup path => exact dated_quiet (exportBackup_dated path dated)
  | importBackup path => exact fair.restores path rfl
  | listRulesets => exact dated_quiet (dated.run listRulesets_onlyReads)
  | listCharacters => exact dated_quiet (dated.run listCharacters_onlyReads)
  | sheet id => exact dated_quiet (dated.run (characterSheet_onlyReads id))
  | plan target id => exact dated_quiet (dated.run (levelUpPlan_onlyReads target id))
  | options level choiceId id => exact dated_quiet (dated.run (choiceOptions_onlyReads level choiceId id))

end Call

inductive Session (s : Store) : Store → Prop
  | start : Session s s
  | call {t : Store} (earlier : Session s t) (c : Call) (fair : c.Fair t) : Session s (c.work.run t).2
  | wait {t : Store} (earlier : Session s t) (supply : Supply) (unzoned : supply.now.offset = none)
      (forward : supply.now.less t.supply.now = false) : Session s { t with supply := supply }

theorem Session.dated (session : Session s t) (dated : s.Dated) : t.Dated := by
  induction session with
  | start => exact dated
  | call earlier c fair before => exact Call.dated before fair
  | wait earlier supply unzoned forward before =>
    exact before.onward ⟨rfl, rfl, fun _ => ⟨unzoned, forward⟩⟩

/-- In a session on a store whose records were last changed up to now, what a level up saves is later than
what it replaces. Only a character that was brought to its level by levels it had applied before may be
saved as it was: by a command for one such level, or when the player cancels after them. -/
theorem session_renews {c : Call} {excused : Store → Character → Prop} (dated : s.Dated)
    (session : Session s t) (up : c.LevelsUp excused) (fair : c.Fair t) :
    t.Dated ∧ Saves (Refiles excused) (fun s => s) c.work t :=
  ⟨session.dated dated, Call.saves up (session.dated dated) fair⟩

end Command

namespace Novice

theorem library_dated {c : Character} (time : c.updatedAt.Upto firstDay) : (library c).Dated := by
  refine ⟨rfl, ?_⟩
  rintro id d ⟨p, es, placed, loaded, -, supply, notices, reads⟩
  obtain ⟨name, -, rfl⟩ := Store.place_eq_ok placed
  have only (content : Content)
      (file : (library c).disk.files.get? ((library c).folder .characters ++ [name]) = some content) :
      content = .document c.toValue := by
    have apart : ["characters", name] ≠ ["rulesets", "book.json"] := by simp
    simp only [library, Store.folder, Collection.name, Dict.get?_insert, List.nil_append,
      List.singleton_append, if_neg apart] at file
    split at file
    · exact (Option.some.inj file).symm
    · cases file
  cases file : (library c).disk.files.get? ((library c).folder .characters ++ [name]) with
  | none => simp [Disk.load?, file] at loaded
  | some content =>
    have own : c.toValue = .map es := by
      simpa [Disk.load?, file, only content file, Content.load?, c.proper_toValue.back] using loaded
    rw [← own] at reads
    rw [Character.updatedAt_of_toValue time.legible reads]
    exact time

theorem returner_dated (ledger : Ledger) : (library (returner ledger)).Dated :=
  library_dated ⟨firstDay_legible, rfl, Moment.less_self firstDay rfl⟩

theorem library_fair (c : Character) {call : Command.Call}
    (other : ∀ path, call ≠ .importBackup path) : call.Fair (library c) :=
  ⟨firstDay_legible, show firstDay.date.year < 9999 by decide, fun path same => absurd same (other path)⟩

open Command in
-- level 2 is applied already, and the character is brought to it
theorem returner_brought :
    ∃ answer t, (applyLevel 2 (.byChoice .empty) false (some "hero")).run (library (returner second)) =
        (.ok answer, t) ∧
      t.Holds { returner second with level := 2 } ∧
      t.supply = (library (returner second)).ticked.ticked.ticked.supply := by
  obtain ⟨u, found⟩ := library_serves (returner second)
  have served : Journey.Served (library (returner second)) (returner second) lessons :=
    ⟨"book", library (returner second), u, rfl, .refl _, found⟩
  have timely : (library (returner second)).Timely 2 :=
    .of_year firstDay_legible (show firstDay.date.year < 9999 by decide) (by decide)
  exact applyLevel_again (returner_sound second_keyed) (returner_settled second) (library_holds rfl) served
    (show (returner second).isApplied 2 = true by decide) (by decide) (by decide) timely List.not_mem_nil
    (.byChoice .empty)

end Novice

open Novice Command in
-- the character keeps the time it had
theorem returner_keeps_time :
    (library (returner second)).Dated ∧
      Call.Fair (.apply 2 (.byChoice .empty) false (some "hero")) (library (returner second)) ∧
      ∃ answer t, (applyLevel 2 (.byChoice .empty) false (some "hero")).run (library (returner second)) =
          (.ok answer, t) ∧
        (library (returner second)).Holds (returner second) ∧
        t.Holds { returner second with level := 2 } ∧
        (returner second).updatedAt.less
          (Character.updatedAt { returner second with level := 2 }) = false := by
  obtain ⟨answer, t, run, kept, -⟩ := returner_brought
  exact ⟨returner_dated second, library_fair _ nofun, answer, t, run, library_holds rfl, kept, by decide⟩

open Novice Command in
-- first brought to level 2, the character advances to level 3
theorem session_renews_returner :
    (library (returner second)).Dated ∧
      ∃ answer t, (applyLevel 2 (.byChoice .empty) false (some "hero")).run (library (returner second)) =
          (.ok answer, t) ∧
        t.Holds { returner second with level := 2 } ∧
        Session (library (returner second)) t ∧ Call.Fair (.advance "hero" 3 (lightUpTo 3)) t ∧ t.Dated ∧
        Saves (Refiles (Cancels (lightUpTo 3))) (fun s => s)
          (Call.work (.advance "hero" 3 (lightUpTo 3))) t := by
  let call : Call := .apply 2 (.byChoice .empty) false (some "hero")
  have dated := returner_dated second
  obtain ⟨answer, t, run, kept, supply⟩ := returner_brought
  have worked : (call.work.run (library (returner second))).2 = t := by
    simp only [call, Call.work, Call.quiet, Action.run_bind, run]
    rfl
  have fair : call.Fair (library (returner second)) := library_fair _ nofun
  have session : Session (library (returner second)) t := worked ▸ .call .start call fair
  have clock : t.supply.now = ⟨⟨2020, 1, 1⟩, ⟨0, 0, 0, 6⟩, none⟩ := by
    rw [supply]
    decide
  have fair' : Call.Fair (.advance "hero" 3 (lightUpTo 3)) t := by
    refine ⟨?_, ?_, nofun⟩
    · rw [clock]
      exact ⟨rfl, rfl, by decide, by simp⟩
    · rw [clock]
      decide
  exact ⟨dated, answer, t, run, kept, session, fair', session_renews dated session (.advance ..) fair'⟩

end Tabletop

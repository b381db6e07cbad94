import Tabletop.Proofs.Onward
import Tabletop.Proofs.Stocked

set_option autoImplicit false

namespace Tabletop

open Tabletop.Action (Leaves leaves_bind leaves_pure leaves_state leaves_ofExcept)

namespace Moment

structure Upto (m now : Moment) : Prop where
  legible : m.Legible
  unzoned : m.offset = none
  past : now.less m = false

structure Before (m now : Moment) : Prop where
  legible : m.Legible
  unzoned : m.offset = none
  past : m.less now = true

variable {m now soon : Moment}

theorem Upto.later (upto : m.Upto now) (unzoned : now.offset = none) (unzoned' : soon.offset = none)
    (forward : soon.less now = false) : m.Upto soon where
  legible := upto.legible
  unzoned := upto.unzoned
  past := by
    rw [← Bool.not_eq_true]
    intro future
    have between := less_of_not_less unzoned unzoned' forward future
    rw [upto.past] at between
    cases between

theorem Upto.before (upto : m.Upto now) (unzoned : now.offset = none) (passed : now.less soon = true) :
    m.Before soon :=
  ⟨upto.legible, upto.unzoned, less_of_not_less upto.unzoned unzoned upto.past passed⟩

theorem Before.later (before : m.Before now) (unzoned : soon.offset = none)
    (forward : soon.less now = false) : m.Before soon :=
  ⟨before.legible, before.unzoned, less_of_less_of_not_less before.unzoned unzoned before.past forward⟩

theorem Before.upto (before : m.Before now) (unzoned : now.offset = none) : m.Upto now :=
  ⟨before.legible, before.unzoned, not_less_of_less before.unzoned unzoned before.past⟩

end Moment

namespace Character

theorem updatedAt_of_toValue {c d : Character} {supply : Supply} {notices : List Notice}
    (legible : d.updatedAt.Legible) (reads : ofValue supply d.toValue = .ok (c, notices)) :
    c.updatedAt = d.updatedAt := by
  obtain ⟨s, -, fields⟩ := ofValue_fields reads
  have given : givenEntries d.toValue = nonNull d.entries := currentNames_entries d
  have written : Field.withDefault "updated_at" supply.now.next Field.moment (nonNull d.entries)
      = .ok d.updatedAt := by
    refine Field.withDefault_ok (field?_nonNull rfl rfl) ?_
    rw [Field.moment, legible.ofText_recordText]
    rfl
  have read := (readFields_eq_ok fields).updated
  rw [given, written] at read
  exact (Checked.ok.inj read).symm

-- a record that says nothing of its time is dated when it is read
theorem updatedAt_of_absent {c : Character} {supply : Supply} {v : Value} {notices : List Notice}
    (absent : Value.field? "updated_at" (givenEntries v) = none)
    (reads : ofValue supply v = .ok (c, notices)) : c.updatedAt = supply.now.next := by
  obtain ⟨s, -, fields⟩ := ofValue_fields reads
  have read := (readFields_eq_ok fields).updated
  rw [Field.withDefault, absent] at read
  exact (Checked.ok.inj read).symm

end Character

namespace Store

variable {s t : Store} {c d : Character} {id : String} {P Q : Moment → Prop}

def Stores (s : Store) (id : String) (c : Character) : Prop :=
  ∃ p es, s.place .characters id = .ok p ∧ s.disk.load? p = .ok (some (.map es)) ∧
    (Value.field "id" es).isTruthy = true ∧
      ∃ supply notices, Character.ofValue supply (.map es) = .ok (c, notices)

def Times (s : Store) (P : Moment → Prop) : Prop :=
  ∀ id c, s.Stores id c → P c.updatedAt

structure Dated (s : Store) : Prop where
  clock : s.supply.now.offset = none
  times : s.Times fun m => m.Upto s.supply.now

structure Past (s : Store) : Prop where
  clock : s.supply.now.offset = none
  times : s.Times fun m => m.Before s.supply.now

-- what is read

theorem Stores.of_disk (stores : t.Stores id c) (root : t.root = s.root) (disk : t.disk = s.disk) :
    s.Stores id c := by
  obtain ⟨p, es, placed, loaded, reads⟩ := stores
  refine ⟨p, es, ?_, disk ▸ loaded, reads⟩
  rwa [place, folder, root] at placed

theorem Times.of_disk (times : s.Times P) (root : t.root = s.root) (disk : t.disk = s.disk)
    (later : ∀ m, P m → Q m) : t.Times Q :=
  fun id c stores => later _ (times id c (stores.of_disk root disk))

theorem Dated.onward (dated : s.Dated) (onward : s.Onward t) : t.Dated := by
  obtain ⟨unzoned, forward⟩ := onward.clock dated.clock
  exact ⟨unzoned, dated.times.of_disk onward.root onward.disk fun m upto =>
    upto.later dated.clock unzoned forward⟩

theorem Past.onward (past : s.Past) (onward : s.Onward t) : t.Past := by
  obtain ⟨unzoned, forward⟩ := onward.clock past.clock
  exact ⟨unzoned, past.times.of_disk onward.root onward.disk fun m before => before.later unzoned forward⟩

theorem Dated.ticked (dated : s.Dated) : s.ticked.Past := by
  obtain ⟨unzoned, later⟩ := before_ticked dated.clock
  exact ⟨unzoned, dated.times.of_disk rfl rfl fun m upto => upto.before dated.clock later⟩

theorem get_eq_ok {c : Collection} {es : Field.Entries} (got : (get c id).run s = (.ok (some es), t)) :
    ∃ p, s.place c id = .ok p ∧ s.disk.load? p = .ok (some (.map es)) ∧
      (Value.field "id" es).isTruthy = true := by
  simp only [get, Action.run_bind, Action.run_state] at got
  cases placed : s.place c id with
  | error cause =>
    rw [placed] at got
    cases got
  | ok p =>
    simp only [placed, Action.run_ofExcept_ok] at got
    rcases there : s.disk.holds p with cause | held
    · rw [there] at got
      cases got
    · simp only [there, Action.run_ofExcept_ok] at got
      cases held with
      | false => cases got
      | true =>
        obtain ⟨print, loaded, given, -⟩ := readRecord_eq_ok got
        exact ⟨p, rfl, loaded, given⟩

theorem get_leaves_supply (c : Collection) (id : String) : Leaves Store.supply (get c id) := by
  have reads (p : Place) : Leaves Store.supply (readRecord c p) := by
    refine leaves_bind leaves_state fun s => leaves_bind (leaves_ofExcept _) fun v? => ?_
    split
    · simp only
      split
      · exact leaves_bind (leaves_ofExcept _) fun print => leaves_bind ⟨fun _ => rfl⟩ fun _ => leaves_pure _
      · exact leaves_pure _
    · exact leaves_pure _
  refine leaves_bind leaves_state fun s => leaves_bind (leaves_ofExcept _) fun p => ?_
  refine leaves_bind (leaves_ofExcept _) fun there => ?_
  split
  · exact reads p
  · exact leaves_pure _

theorem getCharacter_eq_ok (got : (getCharacter id).run s = (.ok (some c), t)) :
    s.Stores id c ∧ ∃ u, s.Onward u ∧ u.supply = s.supply ∧ t = u.ticked := by
  obtain ⟨record?, u, found, reading⟩ := Action.bind_eq_ok got
  have onward := (get_onlyReads .characters id).run s
  have supply := (get_leaves_supply .characters id).of_run found
  rw [found] at onward
  cases record? with
  | none => cases reading
  | some es =>
    obtain ⟨p, placed, loaded, given⟩ := get_eq_ok found
    simp only [readCharacter, Action.run_bind, run_tick, characterOf] at reading
    cases read : Character.ofValue u.supply (.map es) with
    | ok reads =>
      simp only [read, Failure.ofChecked] at reading
      cases reading
      exact ⟨⟨p, es, placed, loaded, given, u.supply, _, read⟩, u, onward, supply, rfl⟩
    | refused faults =>
      simp only [read, Failure.ofChecked] at reading
      cases reading
    | broken cause =>
      simp only [read, Failure.ofChecked] at reading
      cases reading

theorem getRuleset_eq_ok {r : Ruleset} (got : (getRuleset id).run s = (.ok (some r), t)) :
    ∃ u, s.Onward u ∧ u.supply = s.supply ∧ t = u.ticked := by
  obtain ⟨record?, u, found, reading⟩ := Action.bind_eq_ok got
  have onward := (get_onlyReads .rulesets id).run s
  have supply := (get_leaves_supply .rulesets id).of_run found
  rw [found] at onward
  cases record? with
  | none => cases reading
  | some es =>
    simp only [Action.run_bind, run_now] at reading
    cases read : rulesetOf u.supply.now es with
    | error f =>
      rw [read] at reading
      cases reading
    | ok r? =>
      rw [read] at reading
      cases reading
      exact ⟨u, onward, supply, rfl⟩

-- what is written

theorem Times.changed (times : s.Times P) (root : t.root = s.root)
    (files : ∀ id p content, s.place .characters id = .ok p → t.disk.files.get? p = some content →
      s.disk.files.get? p = some content ∨ ∀ es, content.load? = .ok (some (.map es)) →
        (Value.field "id" es).isTruthy = true → ∀ supply c notices,
          Character.ofValue supply (.map es) = .ok (c, notices) → P c.updatedAt) : t.Times P := by
  rintro id c ⟨p, es, placed, loaded, given, supply, notices, reads⟩
  rw [place, folder, root] at placed
  cases file : t.disk.files.get? p with
  | none =>
    rw [Disk.load?, file] at loaded
    cases loaded
  | some content =>
    simp only [Disk.load?, file] at loaded
    rcases files id p content placed file with old | fresh
    · refine times id c ⟨p, es, placed, ?_, given, supply, notices, reads⟩
      simpa only [Disk.load?, old] using loaded
    · exact fresh es loaded given supply c notices reads

-- what is put elsewhere is no character
theorem Times.elsewhere (times : s.Times P) {r : Record} (adds : s.Adds .rulesets r t) : t.Times P := by
  refine times.changed adds.root fun id p content placed file => ?_
  rcases adds.files _ content file with old | ⟨elsewhere, -⟩
  · exact .inl old
  · obtain ⟨_, -, same⟩ := place_eq_ok placed
    obtain ⟨_, -, rfl⟩ := place_eq_ok elsewhere
    exact absurd (List.append_inj' same rfl).1 (folder_apart s)

theorem Times.added (times : s.Times P) {r : Record} (adds : s.Adds .characters r t)
    (document : r.document = d.toValue) (legible : d.updatedAt.Legible) (time : P d.updatedAt) :
    t.Times P := by
  refine times.changed adds.root fun id p content placed file => ?_
  rcases adds.files _ content file with old | ⟨-, -, rfl⟩
  · exact .inl old
  · refine .inr fun es loaded given supply c notices reads => ?_
    rw [document, Content.load?, d.proper_toValue.back] at loaded
    have own : d.toValue = .map es := Option.some.inj (Except.ok.inj loaded)
    rw [← own] at reads
    rw [Character.updatedAt_of_toValue legible reads]
    exact time

theorem saveCharacter_record {force : Bool} (d : Character) (s : Store) :
    (saveCharacter d force).run s = match Record.ofEntries d.toEntries with
      | .ok r => (put .characters r force).run s
      | .error cause => (.error (.breakdown cause), s) := by
  simp only [saveCharacter, Action.run_bind]
  cases Record.ofEntries d.toEntries <;> rfl

theorem document_of_ofEntries {r : Record} (record : Record.ofEntries d.toEntries = .ok r) :
    r = ⟨d.id, d.toValue, d.fingerprint⟩ := by
  have filled : d.id.isEmpty = false := Record.filled_of_ofEntries rfl record
  exact (Except.ok.inj ((Record.ofEntries_character filled).symm.trans record)).symm

theorem Times.putCharacter (times : s.Times P) (legible : d.updatedAt.Legible) (time : P d.updatedAt) :
    ((putCharacter d).run s).2.Times P := by
  rw [Store.putCharacter, saveCharacter_record]
  cases record : Record.ofEntries d.toEntries with
  | error cause => exact times
  | ok r =>
    obtain rfl := document_of_ofEntries record
    exact times.added (put_adds s .characters _ false) rfl legible time

theorem Times.putRuleset (times : s.Times P) (r : Ruleset) : ((putRuleset r).run s).2.Times P := by
  cases record : Record.ofEntries r.toEntries with
  | error cause =>
    simp only [Store.putRuleset, record, Action.run_bind]
    exact times
  | ok r =>
    simp only [Store.putRuleset, record, Action.run_bind, Action.run_ofExcept_ok]
    exact times.elsewhere (put_adds s .rulesets r false)

-- the settings are no record of a character
theorem Times.write_settings (times : s.Times P) (v : Value) :
    ((write s.settingsPlace v).run s).2.Times P := by
  rcases wrote : s.disk.write s.settingsPlace v with ⟨outcome, e⟩
  have after : ((write s.settingsPlace v).run s).2 = { s with disk := e } := by
    simp only [write, wrote]
  rw [after]
  refine times.changed rfl fun id p content placed file => ?_
  rcases Disk.write_adds wrote file with old | ⟨-, here, -⟩
  · exact .inl old
  · obtain ⟨_, -, rfl⟩ := place_eq_ok placed
    have lengths := congrArg List.length here
    simp [settingsPlace, folder] at lengths

theorem Times.putSetting (times : s.Times P) (key : String) (v : Value) :
    ((putSetting key v).run s).2.Times P := by
  have writes (x : Except Breakdown Value) :
      ((do write s.settingsPlace (← .ofExcept x) : Work Unit).run s).2.Times P := by
    cases x with
    | error cause => exact times
    | ok v => exact times.write_settings v
  simp only [Store.putSetting, Action.run_bind, Action.run_state]
  rcases s.disk.load? s.settingsPlace with cause | v?
  · exact times
  · simp only [Action.run_ofExcept_ok]
    split
    · exact writes _
    · exact times
    · exact writes _

-- writing takes no time

theorem write_leaves_supply (p : Place) (v : Value) : Leaves Store.supply (write p v) :=
  ⟨fun _ => rfl⟩

theorem put_leaves_supply (c : Collection) (r : Record) (force : Bool) :
    Leaves Store.supply (put c r force) := by
  have writes (p : Place) :
      Leaves Store.supply (do write p r.document; remember c r.id r.fingerprint : Work Unit) :=
    leaves_bind (write_leaves_supply p _) fun _ => ⟨fun _ => rfl⟩
  refine leaves_bind leaves_state fun s => leaves_bind (leaves_ofExcept _) fun p => ?_
  cases force with
  | true => exact writes p
  | false =>
    refine leaves_bind (leaves_ofExcept _) fun unchanged => ?_
    cases unchanged with
    | true => exact leaves_pure _
    | false => exact writes p

theorem putCharacter_leaves_supply (c : Character) : Leaves Store.supply (putCharacter c) :=
  leaves_bind (leaves_ofExcept _) fun _ => put_leaves_supply ..

theorem putRuleset_leaves_supply (r : Ruleset) : Leaves Store.supply (putRuleset r) :=
  leaves_bind (leaves_ofExcept _) fun _ => put_leaves_supply ..

theorem putSetting_leaves_supply (key : String) (v : Value) : Leaves Store.supply (putSetting key v) := by
  have writes (p : Place) (x : Except Breakdown Value) :
      Leaves Store.supply (do write p (← .ofExcept x) : Work Unit) :=
    leaves_bind (leaves_ofExcept _) fun _ => write_leaves_supply p _
  refine leaves_bind leaves_state fun s => leaves_bind (leaves_ofExcept _) fun v? => ?_
  split
  · exact writes _ _
  · exact ⟨fun _ => rfl⟩
  · exact writes _ _

theorem Dated.written (dated : s.Dated) (supply : t.supply = s.supply)
    (times : t.Times fun m => m.Upto s.supply.now) : t.Dated :=
  ⟨supply ▸ dated.clock, supply ▸ times⟩

theorem Dated.putCharacter (dated : s.Dated) (time : d.updatedAt.Upto s.supply.now) :
    ((putCharacter d).run s).2.Dated :=
  dated.written ((putCharacter_leaves_supply d).run s) (dated.times.putCharacter time.legible time)

theorem Past.putCharacter (past : s.Past) (time : d.updatedAt.Before s.supply.now) :
    ((putCharacter d).run s).2.Past := by
  have supply := (putCharacter_leaves_supply d).run s
  exact ⟨supply ▸ past.clock, supply ▸ past.times.putCharacter time.legible time⟩

theorem Dated.putRuleset (dated : s.Dated) (r : Ruleset) : ((putRuleset r).run s).2.Dated :=
  dated.written ((putRuleset_leaves_supply r).run s) (dated.times.putRuleset r)

theorem Dated.putSetting (dated : s.Dated) (key : String) (v : Value) :
    ((putSetting key v).run s).2.Dated :=
  dated.written ((putSetting_leaves_supply key v).run s) (dated.times.putSetting key v)

end Store

end Tabletop

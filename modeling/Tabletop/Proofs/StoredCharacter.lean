import Tabletop.Proofs.DiskWrites
import Tabletop.Proofs.SoundCharacter

set_option autoImplicit false

namespace Tabletop

namespace Action

variable {σ α β : Type}

@[simp] theorem run_ofExcept_ok (a : α) (s : σ) :
    (ofExcept (.ok a) : Action σ α).run s = (.ok a, s) := rfl

@[simp] theorem run_ofResult_ok (a : α) (s : σ) :
    (ofResult (.ok a) : Action σ α).run s = (.ok a, s) := rfl

theorem bind_eq_ok {x : Action σ α} {f : α → Action σ β} {s t : σ} {b : β}
    (went : (x >>= f).run s = (.ok b, t)) :
    ∃ a u, x.run s = (.ok a, u) ∧ (f a).run u = (.ok b, t) := by
  rw [run_bind] at went
  rcases first : x.run s with ⟨_ | a, u⟩
  · rw [first] at went
    cases went
  · rw [first] at went
    exact ⟨a, u, rfl, went⟩

theorem ofResult_eq_ok {x : Except Failure α} {s t : σ} {a : α}
    (ran : (ofResult x : Action σ α).run s = (.ok a, t)) : x = .ok a ∧ s = t := by
  cases x <;> cases ran
  exact ⟨rfl, rfl⟩

theorem ofExcept_eq_ok {x : Except Breakdown α} {s t : σ} {a : α}
    (ran : (ofExcept x : Action σ α).run s = (.ok a, t)) : x = .ok a ∧ s = t := by
  cases x <;> cases ran
  exact ⟨rfl, rfl⟩

end Action

theorem Json.Proper.fingerprinted {v : Value} (proper : Json.Proper v) :
    ∃ print, Record.fingerprintOf v = .ok print := by
  obtain ⟨w, sorts, plain⟩ := proper.sorts
  refine ⟨w, ?_⟩
  rw [Record.fingerprintOf, sorts]
  exact plain

theorem Record.ofEntries_named {es : Field.Entries} {id : String} {print : Value}
    (named : Value.field "id" es = .str id) (filled : id.isEmpty = false)
    (found : Record.fingerprintOf (.map es) = .ok print) (plain : Json.plain (.map es) = .ok (.map es)) :
    Record.ofEntries es = .ok ⟨id, .map es, print⟩ := by
  have given : (Value.str id).isTruthy = true := by simp [Value.isTruthy, filled]
  simp only [Record.ofEntries, named, given, found, plain]
  rfl

theorem Record.ofEntries_character {c : Character} (id : c.id.isEmpty = false) :
    Record.ofEntries c.toEntries = .ok ⟨c.id, c.toValue, c.fingerprint⟩ :=
  Record.ofEntries_named rfl id c.fingerprintOf_toValue c.proper_toValue.plain

theorem Record.filled_of_ofEntries {es : Field.Entries} {id : String} {r : Record}
    (named : Value.field "id" es = .str id) (stored : Record.ofEntries es = .ok r) :
    id.isEmpty = false := by
  unfold Record.ofEntries at stored
  simp only [named, Value.isTruthy] at stored
  cases filled : id.isEmpty with
  | false => rfl
  | true => simp [filled] at stored

namespace Store

variable {s t : Store} {c : Character}

-- what work on characters leaves alone

structure SameElse (s t : Store) : Prop where
  root : t.root = s.root
  folders : t.disk.folders = s.disk.folders
  files : ∀ p : Place, p.dropLast ≠ s.folder .characters →
    t.disk.files.get? p = s.disk.files.get? p

theorem SameElse.refl (s : Store) : SameElse s s :=
  ⟨rfl, rfl, fun _ _ => rfl⟩

theorem SameElse.folder (same : SameElse s t) (c : Collection) : t.folder c = s.folder c := by
  rw [Store.folder, same.root, Store.folder]

theorem SameElse.trans {u : Store} (first : SameElse s t) (second : SameElse t u) : SameElse s u where
  root := second.root.trans first.root
  folders := second.folders.trans first.folders
  files p apart := by rw [second.files p (by rwa [first.folder]), first.files p apart]

theorem SameElse.symm (same : SameElse s t) : SameElse t s where
  root := same.root.symm
  folders := same.folders.symm
  files p apart := (same.files p (by rwa [← same.folder])).symm

theorem SameElse.place (same : SameElse s t) (c : Collection) (id : String) :
    t.place c id = s.place c id :=
  place_of_root same.root c id

-- and no faults of the disk come up anew
structure Since (s t : Store) : Prop where
  same : SameElse s t
  faults : ∀ fault ∈ t.disk.faults, fault ∈ s.disk.faults

theorem Since.refl (s : Store) : Since s s :=
  ⟨.refl s, fun _ member => member⟩

theorem Since.trans {u : Store} (first : Since s t) (second : Since t u) : Since s u where
  same := first.same.trans second.same
  faults fault member := first.faults fault (second.faults fault member)

-- the clock

def ticked (s : Store) : Store :=
  { s with supply := ⟨s.supply.serial + 1, s.supply.now.next.next⟩ }

theorem since_ticked (s : Store) : Since s s.ticked :=
  ⟨⟨rfl, rfl, fun _ _ => rfl⟩, fun _ member => member⟩

theorem run_tick (s : Store) : tick.run s = (.ok s.supply, s.ticked) := rfl

theorem run_now (s : Store) : now.run s = (.ok s.supply.now, s.ticked) := rfl

-- the clock can be asked so many times before the calendar ends
structure Timely (s : Store) (times : Nat) : Prop where
  legible : s.supply.now.Legible
  spare : s.supply.now.Spare (2 * times)

theorem Timely.mono {m n : Nat} (timely : s.Timely n) (fewer : m ≤ n) : s.Timely m :=
  ⟨timely.legible, timely.spare.mono (by omega)⟩

theorem Timely.of_supply {times : Nat} (timely : s.Timely times) (supply : t.supply = s.supply) :
    t.Timely times :=
  ⟨supply ▸ timely.legible, supply ▸ timely.spare⟩

theorem Timely.tick {times : Nat} (timely : s.Timely (times + 1)) : s.ticked.Timely times := by
  obtain ⟨-, second, rest⟩ := Moment.next_next_legible (n := 2 * times) timely.legible timely.spare
  exact ⟨second, rest⟩

theorem Timely.of_year {times : Nat} (legible : s.supply.now.Legible)
    (year : s.supply.now.date.year < 9999) (few : 2 * times < Moment.dayMicros) : s.Timely times :=
  ⟨legible, .inl ⟨year, few⟩⟩

-- a character and its file

/-- The file of the character's id holds its record, and can be written. -/
def Holds (s : Store) (c : Character) : Prop :=
  ∃ p, s.place .characters c.id = .ok p ∧ s.disk.Open p ∧
    s.disk.files.get? p = some (.document c.toValue)

def Reads (s : Store) (e : Character) : Prop :=
  ∃ c, c.Sound ∧ s.Holds c ∧ s.known.get? (.characters, c.id) = some c.fingerprint ∧ c.settled = e

theorem Holds.id_filled (holds : s.Holds c) : c.id.isEmpty = false := by
  obtain ⟨p, placed, -⟩ := holds
  obtain ⟨name, named, -⟩ := place_eq_ok placed
  exact Store.id_filled named

theorem remembered (s : Store) (c : Character) :
    (remember .characters c.id c.fingerprint).run s =
      (.ok (), { s with known := s.known.insert (.characters, c.id) c.fingerprint }) := rfl

-- whatever the store holds, a character that comes out of it was read from a record
theorem getCharacter_read {id : String} (got : (getCharacter id).run s = (.ok (some c), t)) :
    ∃ supply v notices, Character.ofValue supply v = .ok (c, notices) := by
  obtain ⟨record?, u, -, rest⟩ := Action.bind_eq_ok got
  cases record? with
  | none => cases rest
  | some record =>
    obtain ⟨supply, w, -, reading⟩ := Action.bind_eq_ok rest
    refine ⟨supply, .map record, ?_⟩
    cases read : Character.ofValue supply (.map record) with
    | ok reads =>
      simp only [characterOf, read, Failure.ofChecked] at reading
      cases reading
      exact ⟨_, rfl⟩
    | refused faults =>
      simp only [characterOf, read, Failure.ofChecked] at reading
      cases reading
    | broken cause =>
      simp only [characterOf, read, Failure.ofChecked] at reading
      cases reading

theorem getCharacter_bounds {id : String} (got : (getCharacter id).run s = (.ok (some c), t)) :
    (1 ≤ c.level ∧ c.level ≤ 20) ∧ Ledger.Keyed c.advancement := by
  obtain ⟨supply, v, notices, reads⟩ := getCharacter_read got
  exact Character.ofValue_bounds reads

theorem run_getCharacter (legible : c.Legible) (holds : s.Holds c) :
    (getCharacter c.id).run s =
      (.ok (some c.settled),
        { s with known := s.known.insert (.characters, c.id) c.fingerprint }.ticked) := by
  obtain ⟨p, placed, place, file⟩ := holds
  have id : c.id.isEmpty = false := Holds.id_filled ⟨p, placed, place, file⟩
  have there : s.disk.holds p = .ok true := by
    simp [Disk.holds, place.short, Dict.contains, file]
  have loaded : s.disk.load? p = .ok (some (.map c.entries)) := by
    simp only [Disk.load?, file, Content.load?, c.proper_toValue.back]
    rfl
  have field : Value.field "id" c.entries = .str c.id := rfl
  have given : (Value.str c.id).isTruthy = true := by simp [Value.isTruthy, id]
  have print : Record.fingerprintOf (.map c.entries) = .ok c.fingerprint := c.fingerprintOf_toValue
  have text : (Value.str c.id).text = c.id := rfl
  have read : (readRecord .characters p).run s = (.ok (some c.entries),
      { s with known := s.known.insert (.characters, c.id) c.fingerprint }) := by
    simp only [readRecord, Action.run_bind, Action.run_state, loaded, Action.run_ofExcept_ok, field,
      given, if_true, print, text, remembered, Action.run_pure]
  have got : (get .characters c.id).run s = (.ok (some c.entries),
      { s with known := s.known.insert (.characters, c.id) c.fingerprint }) := by
    simp only [get, Action.run_bind, Action.run_state, placed, Action.run_ofExcept_ok, there]
    exact read
  have settled (supply : Supply) :
      characterOf supply (.map c.entries) = .ok (some c.settled) := by
    change characterOf supply c.toValue = _
    rw [characterOf, Character.ofValue_toValue legible]
    rfl
  simp only [getCharacter, Action.run_bind, got, readCharacter, run_tick, settled,
    Action.run_ofResult_ok, ticked]

def rewritten (s : Store) (e : Disk) (c : Character) : Store :=
  { s with disk := e, known := s.known.insert (.characters, c.id) c.fingerprint }

theorem run_putCharacter {p : Place} (placed : s.place .characters c.id = .ok p)
    (place : s.disk.Open p) :
    (putCharacter c).run s =
      if s.disk.files.contains p ∧ s.known.get? (.characters, c.id) = some c.fingerprint then
        (.ok (), s)
      else
        match s.disk.write p c.toValue with
        | (.ok (), e) => (.ok (), s.rewritten e c)
        | (.error f, e) => (.error f, { s with disk := e }) := by
  obtain ⟨name, named, -⟩ := place_eq_ok placed
  have record := Record.ofEntries_character (c := c) (Store.id_filled named)
  have there : s.disk.holds p = .ok (s.disk.files.contains p) := by
    simp [Disk.holds, place.short, place.free]
  have unchanged : isUnchanged s .characters p ⟨c.id, c.toValue, c.fingerprint⟩ =
      .ok (decide (s.disk.files.contains p ∧
        s.known.get? (.characters, c.id) = some c.fingerprint)) := by
    simp only [isUnchanged, there, bind, Except.bind]
    cases s.disk.files.contains p <;> simp [pure, Except.pure]
  simp only [putCharacter, saveCharacter, record, put, Action.run_bind, Action.run_ofExcept_ok,
    Action.run_state, placed, unchanged, Bool.not_false, if_true]
  by_cases same : s.disk.files.contains p ∧ s.known.get? (.characters, c.id) = some c.fingerprint
  · simp only [same, and_self, decide_true, if_true, Action.run_pure]
  · rw [if_neg same, decide_eq_false same, if_neg Bool.false_ne_true, Action.run_bind]
    simp only [write]
    rcases s.disk.write p c.toValue with ⟨_ | _, e⟩ <;> rfl

theorem since_after {p : Place} {id : String} {e : Disk} (placed : s.place .characters id = .ok p)
    (after : s.disk.After p e) (known : Dict (Collection × String) Value) :
    Since s { s with disk := e, known := known } where
  same := {
    root := rfl
    folders := after.folders
    files := by
      intro q apart
      refine after.files q ?_ ?_
      · rintro rfl
        exact apart (place_dropLast placed)
      · rintro rfl
        exact apart ((scratch_dropLast p).trans (place_dropLast placed)) }
  faults := after.faults

theorem putCharacter_over {d : Character} (holds : s.Holds c)
    (known : s.known.get? (.characters, c.id) = some c.fingerprint) (id : d.id = c.id) :
    c.fingerprint = d.fingerprint ∧ (putCharacter d).run s = (.ok (), s) ∨
      ∃ t, Since s t ∧ t.supply = s.supply ∧
        ((putCharacter d).run s = (.ok (), t) ∧ t.Holds d ∧
            t.known.get? (.characters, d.id) = some d.fingerprint ∨
          (∃ file reason, (putCharacter d).run s = (.error (.storeWrite file reason), t)) ∧
            t.Holds c ∧ t.known = s.known ∧ true ∈ s.disk.faults) := by
  obtain ⟨p, placed, place, file⟩ := holds
  have placedD : s.place .characters d.id = .ok p := by rw [id, placed]
  have there : s.disk.files.contains p = true := by simp [Dict.contains, file]
  by_cases same : c.fingerprint = d.fingerprint
  · refine .inl ⟨same, ?_⟩
    rw [run_putCharacter placedD place, if_pos ⟨there, by rw [id, known, same]⟩]
  · have changed : ¬ (s.disk.files.contains p ∧
        s.known.get? (.characters, d.id) = some d.fingerprint) := by
      rw [id, known]
      simp [same]
    obtain ⟨e, after, ⟨wrote, file'⟩ | ⟨failed, file', fault⟩⟩ := Disk.write_open place d.toValue
    · refine .inr ⟨s.rewritten e d, since_after placed after _, rfl, .inl ⟨?_, ?_, ?_⟩⟩
      · rw [run_putCharacter placedD place, if_neg changed, wrote]
      · exact ⟨p, placedD, place.of_folders after.folders, file'⟩
      · simp [rewritten]
    · refine .inr ⟨{ s with disk := e }, since_after placed after _, rfl, .inr
        ⟨⟨Disk.fileName p, Disk.fullReason, ?_⟩, ?_, rfl, fault⟩⟩
      · rw [run_putCharacter placedD place, if_neg changed, failed]
      · exact ⟨p, placed, place.of_folders after.folders, file'.trans file⟩

-- the same, for a record that reads as a character
theorem putCharacter_cases {d e : Character} (reads : s.Reads e) (id : d.id = e.id) :
    (∃ c, c.Sound ∧ s.Holds c ∧ c.settled = e ∧ c.fingerprint = d.fingerprint ∧
        (putCharacter d).run s = (.ok (), s)) ∨
      ∃ t, Since s t ∧ t.supply = s.supply ∧
        ((putCharacter d).run s = (.ok (), t) ∧ t.Holds d ∧
            t.known.get? (.characters, d.id) = some d.fingerprint ∨
          (∃ file reason, (putCharacter d).run s = (.error (.storeWrite file reason), t)) ∧
            t.Reads e ∧ true ∈ s.disk.faults) := by
  obtain ⟨c, sound, holds, known, rfl⟩ := reads
  rcases putCharacter_over holds known id with ⟨same, run⟩ |
    ⟨t, since, supply, saved | ⟨failed, kept, remembered, fault⟩⟩
  · exact .inl ⟨c, sound, holds, rfl, same, run⟩
  · exact .inr ⟨t, since, supply, .inl saved⟩
  · exact .inr ⟨t, since, supply, .inr ⟨failed, ⟨c, sound, kept, remembered ▸ known, rfl⟩, fault⟩⟩

theorem putCharacter_raised {d e : Character} (reads : s.Reads e) (sound : d.Sound)
    (settled : d.settled = d) (id : d.id = e.id) (level : d.level ≠ e.level) :
    ∃ t, Since s t ∧ t.supply = s.supply ∧
      ((putCharacter d).run s = (.ok (), t) ∧ t.Holds d ∧ t.Reads d ∨
        (∃ file reason, (putCharacter d).run s = (.error (.storeWrite file reason), t)) ∧
          t.Reads e ∧ true ∈ s.disk.faults) := by
  rcases putCharacter_cases reads id with ⟨c, -, -, rfl, same, -⟩ |
    ⟨t, since, supply, ⟨saved, holds, known⟩ | failed⟩
  · exact absurd (Character.fingerprint_level same).symm level
  · exact ⟨t, since, supply, .inl ⟨saved, holds, d, sound, holds, known, settled⟩⟩
  · exact ⟨t, since, supply, .inr failed⟩

-- a character that is saved as it was, but for the time, stays as it was, but for the time
theorem putCharacter_touched {d e : Character} (reads : s.Reads e) (sound : d.Sound)
    (settled : d.settled = d) {now : Moment} (touched : d = e.touch now) :
    ∃ t, Since s t ∧ t.supply = s.supply ∧
      ((putCharacter d).run s = (.ok (), t) ∧
          (∃ later, t.Holds (d.touch later) ∧ t.Reads (d.touch later)) ∨
        (∃ file reason, (putCharacter d).run s = (.error (.storeWrite file reason), t)) ∧
          t.Reads e ∧ true ∈ s.disk.faults) := by
  have id : d.id = e.id := by rw [touched, Character.touch]
  rcases putCharacter_cases reads id with ⟨c, soundC, holds, rfl, same, saved⟩ |
    ⟨t, since, supply, ⟨saved, holds, known⟩ | failed⟩
  · rw [touched] at same
    have own := Character.settled_of_fingerprint soundC same
    have back : d.touch c.updatedAt = c := by
      rw [touched, own]
      rfl
    refine ⟨s, .refl s, rfl, .inl ⟨saved, c.updatedAt, ?_⟩⟩
    rw [back]
    exact ⟨holds, own ▸ reads⟩
  · exact ⟨t, since, supply, .inl ⟨saved, d.updatedAt, holds, d, sound, holds, known, settled⟩⟩
  · exact ⟨t, since, supply, .inr failed⟩

end Store

end Tabletop

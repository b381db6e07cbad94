import Tabletop.Proofs.RecordNames
import Tabletop.Proofs.StoredCharacter
import Tabletop.Store.Backup

set_option autoImplicit false

namespace Tabletop

open Tabletop.Field (Entries)

-- the ids and time that the next entry is read with

def Supply.next (s : Supply) : Supply :=
  ⟨s.serial + 1, s.now.next.next⟩

def Supply.after (s : Supply) : Nat → Supply
  | 0 => s
  | n + 1 => s.next.after n

def Supply.dealt (s : Supply) : List Value → List (Supply × Value)
  | [] => []
  | v :: vs => (s, v) :: s.next.dealt vs

namespace Collection

def stored (es : Entries) : Except Failure (Option Record) :=
  (Failure.ofExcept (Record.ofEntries es)).map some

def judgeRuleset (supply : Supply) (v : Value) : Except Failure (Option Record) :=
  match Store.acceptRuleset supply.now v with
  | .ok (some es) => stored es
  | .ok none => .ok none
  | .error f => .error f

def judgeCharacter (supply : Supply) (v : Value) : Except Failure (Option Record) :=
  match Store.characterOf supply v with
  | .ok (some c) => stored c.toEntries
  | .ok none => if v.isMap then .ok none else .error (.breakdown .notAMap)
  | .error f => .error f

def judge : Collection → Supply → Value → Except Failure (Option Record)
  | rulesets => judgeRuleset
  | characters => judgeCharacter

def recordIn (c : Collection) (e : Supply × Value) : Option Record :=
  (c.judge e.1 e.2).toOption.join

-- an entry that is passed over, or is a record whose id has a file
def Fits (c : Collection) (e : Supply × Value) : Prop :=
  ∃ record?, c.judge e.1 e.2 = .ok record? ∧ ∀ r ∈ record?, Store.Nameable r.id

def recordsIn (c : Collection) (supply : Supply) (vs : List Value) : List (Collection × Record) :=
  ((supply.dealt vs).filterMap c.recordIn).map fun r => (c, r)

end Collection

namespace Store

variable {s t u : Store} {c d : Collection} {id : String} {p q : Place} {r : Record}
  {rs more : List (Collection × Record)}

def restore (c : Collection) : List Value → Work Nat
  | [] => return 0
  | v :: vs => do
    match ← .ofResult (c.judge (← tick) v) with
    | none => restore c vs
    | some r =>
      put c r true
      return (← restore c vs) + 1

theorem restoreRulesets_run (vs : List Value) (s : Store) :
    (restoreRulesets vs).run s = (restore .rulesets vs).run s := by
  induction vs generalizing s with
  | nil => rfl
  | cons v vs ih =>
    simp only [restoreRulesets, restore, Action.run_bind, run_now, run_tick, Collection.judge,
      Collection.judgeRuleset]
    rcases acceptRuleset s.supply.now v with f | _ | es
    · rfl
    · exact ih _
    · rcases stored : Record.ofEntries es with cause | r
      · simp only [Action.run_ofResult_ok, Action.run_bind, stored, Collection.stored]
        rfl
      · simp only [Action.run_ofResult_ok, Action.run_bind, stored, Collection.stored, ih]
        rfl

theorem restoreCharacters_run (vs : List Value) (s : Store) :
    (restoreCharacters vs).run s = (restore .characters vs).run s := by
  induction vs generalizing s with
  | nil => rfl
  | cons v vs ih =>
    simp only [restoreCharacters, restore, readCharacter, saveCharacter, Action.run_bind, run_tick,
      Collection.judge, Collection.judgeCharacter]
    rcases characterOf s.supply v with f | _ | c
    · rfl
    · cases isMap : v.isMap with
      | false => rfl
      | true => exact ih _
    · rcases stored : Record.ofEntries c.toEntries with cause | r
      · simp only [Action.run_ofResult_ok, Action.run_bind, stored, Collection.stored]
        rfl
      · simp only [Action.run_ofResult_ok, Action.run_bind, stored, Collection.stored, ih]
        rfl

-- stores that can be written to

/-- No folder stands where records are kept, and no write fails. -/
structure Usable (s : Store) : Prop where
  short : Disk.isLong s.root = false
  free : ∀ c name, s.disk.isFolder (s.folder c ++ [name]) = false
  sure : true ∉ s.disk.faults

theorem Usable.ticked (usable : s.Usable) : s.ticked.Usable :=
  ⟨usable.short, usable.free, usable.sure⟩

theorem put_due {force : Bool} (usable : s.Usable) (nameable : Nameable r.id)
    (placed : s.place c r.id = .ok p)
    (due : force = true ∨ s.known.get? (c, r.id) ≠ some r.fingerprint) :
    (put c r force).run s = (.ok (),
      { s with
        disk := s.disk.written p r.document
        known := s.known.insert (c, r.id) r.fingerprint }) := by
  have place := nameable.open usable.short (usable.free c) placed
  have writes := Disk.write_run place r.document
  have goes : (Disk.twoAttempts s.disk.faults).1 = true := by
    rw [← Bool.not_eq_false]
    exact fun failed => usable.sure (Disk.fault_of_twoAttempts failed)
  cases force with
  | true => simp [put, write, remember, Action.run_bind, placed, writes, goes]
  | false =>
    have new := due.resolve_left Bool.false_ne_true
    have there : s.disk.holds p = .ok (s.disk.files.contains p) := by
      simp [Disk.holds, place.short, place.free]
    have changed : s.isUnchanged c p r = .ok false := by
      rw [isUnchanged, there]
      cases s.disk.files.contains p <;> simp [new, bind, Except.bind, pure, Except.pure]
    simp [put, write, remember, Action.run_bind, placed, writes, goes, changed]

theorem put_ends (went : (put c r false).run s = (.ok (), t)) :
    ∃ p, s.place c r.id = .ok p ∧
      (t = s ∧ s.disk.holds p = .ok true ∧ s.known.get? (c, r.id) = some r.fingerprint ∨
        s.disk.Open p ∧ t.disk.files.get? p = some (.document r.document) ∧ t.root = s.root) := by
  obtain ⟨_, _, here, went⟩ := Action.bind_eq_ok went
  cases here
  obtain ⟨p, u, placing, went⟩ := Action.bind_eq_ok went
  obtain ⟨placed, rfl⟩ := Action.ofExcept_eq_ok placing
  obtain ⟨unchanged, u, judging, went⟩ := Action.bind_eq_ok went
  obtain ⟨judged, rfl⟩ := Action.ofExcept_eq_ok judging
  refine ⟨p, placed, ?_⟩
  cases unchanged with
  | true =>
    cases went
    rw [isUnchanged, bind_eq_ok] at judged
    obtain ⟨there, holds, judged⟩ := judged
    cases there with
    | false => cases judged
    | true =>
      rw [if_pos rfl, pure_eq_ok, decide_eq_true_eq] at judged
      exact .inl ⟨rfl, holds, judged⟩
  | false =>
    obtain ⟨_, u, writing, went⟩ := Action.bind_eq_ok went
    cases went
    rcases wrote : s.disk.write p r.document with ⟨outcome, e⟩
    simp only [write, wrote, Prod.mk.injEq] at writing
    obtain ⟨rfl, rfl⟩ := writing
    have place := Disk.open_of_write (place_scratch placed) wrote
    obtain ⟨_, -, ⟨again, file⟩ | ⟨failed, -⟩⟩ := Disk.write_open place r.document
    · rw [wrote] at again
      cases again
      exact .inr ⟨place, file, rfl⟩
    · rw [wrote] at failed
      cases failed

theorem nameable_of_put (went : (put c r true).run s = (.ok (), t)) : Nameable r.id := by
  simp only [put, Action.run_bind, Action.run_state] at went
  cases placed : s.place c r.id with
  | error cause =>
    rw [placed] at went
    cases went
  | ok p =>
    simp only [placed, Action.run_ofExcept_ok, Bool.not_true, Bool.false_eq_true, if_false,
      Action.run_bind, write] at went
    rcases wrote : s.disk.write p r.document with ⟨_ | _, e⟩
    · simp [wrote] at went
    · exact nameable_of_open (Disk.open_of_write (place_scratch placed) wrote) placed

-- what is stored under each id, and what becomes of the scratch files

def latest (c : Collection) (id : String) (rs : List (Collection × Record)) : Option Content :=
  (rs.reverse.find? fun r => r.1 = c ∧ r.2.id = id).map fun r => .document r.2.document

theorem latest_append (c : Collection) (id : String) (rs more : List (Collection × Record)) :
    latest c id (rs ++ more) = (latest c id more).or (latest c id rs) := by
  simp only [latest, List.reverse_append, List.find?_append]
  cases more.reverse.find? fun r => r.1 = c ∧ r.2.id = id <;> simp

theorem latest_none (none : ∀ r ∈ rs, ¬ (r.1 = c ∧ r.2.id = id)) : latest c id rs = .none := by
  have absent : rs.reverse.find? (fun r => r.1 = c ∧ r.2.id = id) = .none := by
    rw [List.find?_eq_none]
    intro r member
    simpa using none r (List.mem_reverse.1 member)
  rw [latest, absent]
  rfl

theorem latest_apart {α : Type} (apart : d ≠ c) (record : α → Record) (xs : List α) (id : String) :
    latest c id (xs.map fun x => (d, record x)) = none := by
  refine latest_none fun r member => ?_
  obtain ⟨x, -, rfl⟩ := List.mem_map.1 member
  exact fun same => apart same.1

theorem latest_last (r : Record) (before : List (Collection × Record)) {after : List (Collection × Record)}
    (last : ∀ q ∈ after, ¬ (q.1 = c ∧ q.2.id = r.id)) :
    latest c r.id (before ++ (c, r) :: after) = some (.document r.document) := by
  have here : latest c r.id [(c, r)] = some (.document r.document) := by simp [latest]
  rw [latest_append, ← List.singleton_append, latest_append, latest_none last, here]
  rfl

def IsScratch (s : Store) (rs : List (Collection × Record)) (q : Place) : Prop :=
  ∃ r ∈ rs, ∃ p, s.place r.1 r.2.id = .ok p ∧ Disk.scratch p = q

structure Filed (rs : List (Collection × Record)) (s t : Store) : Prop where
  root : t.root = s.root
  folders : t.disk.folders = s.disk.folders
  faults : ∀ fault ∈ t.disk.faults, fault ∈ s.disk.faults
  files : ∀ c id p, s.place c id = .ok p →
    t.disk.files.get? p = (latest c id rs).or (s.disk.files.get? p)
  scratch : ∀ q, s.IsScratch rs q → t.disk.files.get? q = none
  beside : ∀ q, ¬ s.IsScratch rs q → (∀ c id, s.place c id ≠ .ok q) →
    t.disk.files.get? q = s.disk.files.get? q

theorem Filed.place (filed : Filed rs s t) (c : Collection) (id : String) :
    t.place c id = s.place c id :=
  place_of_root filed.root c id

theorem Filed.refl (s : Store) : Filed [] s s where
  root := rfl
  folders := rfl
  faults _ member := member
  files _ _ _ _ := rfl
  scratch := by simp [IsScratch]
  beside _ _ _ := rfl

theorem filed_ticked (s : Store) : Filed [] s s.ticked :=
  { Filed.refl s with }

theorem Filed.usable (filed : Filed rs s t) (usable : s.Usable) : t.Usable where
  short := by rw [filed.root, usable.short]
  free c name := by
    rw [Disk.isFolder, filed.folders, Store.folder, filed.root]
    exact usable.free c name
  sure member := usable.sure (filed.faults _ member)

theorem Filed.trans (first : Filed rs s t) (second : Filed more t u) : Filed (rs ++ more) s u where
  root := second.root.trans first.root
  folders := second.folders.trans first.folders
  faults fault member := first.faults fault (second.faults fault member)
  files c id p placed := by
    rw [second.files c id p (by rwa [first.place]), first.files c id p placed, latest_append,
      Option.or_assoc]
  scratch q isScratch := by
    obtain ⟨r, member, p, placed, same⟩ := isScratch
    by_cases later : t.IsScratch more q
    · exact second.scratch q later
    · have apart : ∀ c id, t.place c id ≠ .ok q := by
        intro c id placed'
        rw [first.place] at placed'
        exact scratch_ne_place placed placed' same
      rw [second.beside q later apart]
      refine first.scratch q ⟨r, ?_, p, placed, same⟩
      refine (List.mem_append.1 member).resolve_right fun member => later ⟨r, member, p, ?_, same⟩
      rwa [first.place]
  beside q apart none := by
    have before : ¬ s.IsScratch rs q := fun ⟨r, member, rest⟩ =>
      apart ⟨r, List.mem_append_left _ member, rest⟩
    have after : ¬ t.IsScratch more q := fun ⟨r, member, p, placed, same⟩ =>
      apart ⟨r, List.mem_append_right _ member, p, by rwa [← first.place], same⟩
    rw [second.beside q after fun c id => first.place c id ▸ none c id, first.beside q before none]

-- putting the same records once more changes no file
theorem Filed.again (first : Filed rs s t) (second : Filed rs t u) (q : Place) :
    u.disk.files.get? q = t.disk.files.get? q := by
  have scratch : t.IsScratch rs q ↔ s.IsScratch rs q := by simp only [IsScratch, first.place]
  by_cases placed : ∃ c id, s.place c id = .ok q
  · obtain ⟨c, id, placed⟩ := placed
    rw [second.files c id q (by rwa [first.place]), first.files c id q placed, ← Option.or_assoc,
      Option.or_self]
  · by_cases cleared : s.IsScratch rs q
    · rw [second.scratch q (scratch.2 cleared), first.scratch q cleared]
    · refine second.beside q (fun isScratch => cleared (scratch.1 isScratch)) fun c id placed' => ?_
      rw [first.place] at placed'
      exact placed ⟨c, id, placed'⟩

theorem place_length (placed : s.place c id = .ok p) : p.length = s.root.length + 2 := by
  obtain ⟨name, -, rfl⟩ := place_eq_ok placed
  simp [folder]

-- files outside the folders of the collections are left alone
theorem Filed.outside (filed : Filed rs s t) (apart : q.length ≠ s.root.length + 2) :
    t.disk.files.get? q = s.disk.files.get? q := by
  refine filed.beside q ?_ fun c id placed => apart (place_length placed)
  rintro ⟨r, -, p, placed, rfl⟩
  have long := place_length placed
  refine apart ?_
  rw [Disk.scratch, List.length_append, List.length_dropLast, List.length_singleton, long]
  rfl

theorem filed_put (placed : s.place c r.id = .ok p) (known : Dict (Collection × String) Value) :
    Filed [(c, r)] s { s with disk := s.disk.written p r.document, known := known } where
  root := rfl
  folders := rfl
  faults := Disk.twoAttempts_left
  files d id q placed' := by
    by_cases here : c = d ∧ r.id = id
    · obtain ⟨rfl, rfl⟩ := here
      cases placed.symm.trans placed'
      simp [latest, Disk.written]
    · have apart : q ≠ p := fun same => here (place_injective placed (same ▸ placed'))
      have beside : q ≠ Disk.scratch p := (scratch_ne_place placed placed').symm
      simp [latest, here, Disk.written, Disk.tried, apart, beside]
  scratch q isScratch := by
    obtain ⟨r', member, p', placed', rfl⟩ := isScratch
    cases List.mem_singleton.1 member
    cases placed.symm.trans placed'
    simp [Disk.written, Disk.tried, place_scratch placed]
  beside q apart none := by
    have beside : q ≠ Disk.scratch p := fun same =>
      apart ⟨(c, r), List.mem_singleton_self _, p, placed, same.symm⟩
    have away : q ≠ p := fun same => none c r.id (same ▸ placed)
    simp [Disk.written, Disk.tried, beside, away]

-- one collection

theorem recordsIn_cons {record? : Option Record} {supply : Supply} {v : Value}
    (judged : c.judge supply v = .ok record?) (vs : List Value) :
    c.recordsIn supply (v :: vs) = (record?.toList.map fun r => (c, r)) ++ c.recordsIn supply.next vs := by
  have read : c.recordIn (supply, v) = record? := by
    rw [Collection.recordIn, judged]
    cases record? <;> rfl
  rw [Collection.recordsIn, Supply.dealt, List.filterMap_cons, read, Collection.recordsIn]
  cases record? <;> rfl

theorem restore_run (usable : s.Usable) (vs : List Value) :
    (∀ e ∈ s.supply.dealt vs, c.Fits e) ∧
        (∃ t, (restore c vs).run s = (.ok (c.recordsIn s.supply vs).length, t) ∧
          Filed (c.recordsIn s.supply vs) s t ∧ t.supply = s.supply.after vs.length) ∨
      ¬ (∀ e ∈ s.supply.dealt vs, c.Fits e) ∧ ∃ f t, (restore c vs).run s = (.error f, t) := by
  induction vs generalizing s with
  | nil => exact .inl ⟨by simp [Supply.dealt], s, rfl, .refl s, rfl⟩
  | cons v vs ih =>
    simp only [Supply.dealt, List.forall_mem_cons, restore, Action.run_bind, run_tick]
    cases judged : c.judge s.supply v with
    | error f =>
      refine .inr ⟨?_, f, s.ticked, rfl⟩
      rintro ⟨⟨_, same, -⟩, -⟩
      cases judged.symm.trans same
    | ok record? =>
      rw [recordsIn_cons judged]
      have fits : c.Fits (s.supply, v) ↔ ∀ r ∈ record?, Nameable r.id := by
        constructor
        · rintro ⟨_, same, nameable⟩
          cases judged.symm.trans same
          exact nameable
        · exact fun nameable => ⟨record?, judged, nameable⟩
      cases record? with
      | none =>
        have here : c.Fits (s.supply, v) := fits.2 nofun
        rcases ih usable.ticked with ⟨rest, t, run, filed, supply⟩ | ⟨rest, f, t, run⟩
        · exact .inl ⟨⟨here, rest⟩, t, run, (filed_ticked s).trans filed, supply⟩
        · exact .inr ⟨fun all => rest all.2, f, t, run⟩
      | some r =>
        by_cases nameable : Nameable r.id
        · have here : c.Fits (s.supply, v) := fits.2 (by simpa using nameable)
          obtain ⟨name, -, placed⟩ := nameable.place s.ticked c
          have first := filed_put placed (s.ticked.known.insert (c, r.id) r.fingerprint)
          have filed := (filed_ticked s).trans first
          have run := put_due usable.ticked nameable placed (.inl rfl)
          simp only [Action.run_ofResult_ok, Action.run_bind, run]
          rcases ih (filed.usable usable) with ⟨rest, t, run, more, supply⟩ | ⟨rest, f, t, run⟩
          · refine .inl ⟨⟨here, rest⟩, t, ?_, filed.trans more, supply⟩
            rw [run]
            simp [Nat.add_comm, ticked, Supply.next]
          · exact .inr ⟨fun all => rest all.2, f, t, by rw [run]⟩
        · refine .inr ⟨fun all => nameable (by simpa using fits.1 all.1), ?_⟩
          simp only [Action.run_ofResult_ok, Action.run_bind]
          rcases put' : (put c r true).run s.ticked with ⟨f | _, t⟩
          · exact ⟨f, t, rfl⟩
          · exact absurd (nameable_of_put put') nameable

-- both collections, one after the other

structure FitIn (supply : Supply) (rulesets characters : List Value) : Prop where
  fitRulesets : ∀ e ∈ supply.dealt rulesets, Collection.rulesets.Fits e
  fitCharacters : ∀ e ∈ (supply.after rulesets.length).dealt characters, Collection.characters.Fits e

def restocked (supply : Supply) (rulesets characters : List Value) : List (Collection × Record) :=
  Collection.rulesets.recordsIn supply rulesets ++
    Collection.characters.recordsIn (supply.after rulesets.length) characters

theorem importBackup_run {backup : Entries} {rulesets characters : List Value} (usable : s.Usable)
    (first : Value.looped (Value.field "rulesets" backup) = .ok rulesets)
    (second : Value.looped (Value.field "characters" backup) = .ok characters) :
    FitIn s.supply rulesets characters ∧
        (∃ t, (importBackup backup).run s =
            (.ok ⟨(Collection.rulesets.recordsIn s.supply rulesets).length,
              (Collection.characters.recordsIn (s.supply.after rulesets.length) characters).length⟩, t) ∧
          Filed (restocked s.supply rulesets characters) s t) ∨
      ¬ FitIn s.supply rulesets characters ∧ ∃ f t, (importBackup backup).run s = (.error f, t) := by
  simp only [importBackup, first, second, Action.run_bind, Action.run_ofExcept_ok,
    restoreRulesets_run, restoreCharacters_run]
  rcases restore_run (c := .rulesets) usable rulesets with
    ⟨fits, t, run, filed, supply⟩ | ⟨stops, f, t, run⟩
  · rw [run]
    rcases restore_run (c := .characters) (filed.usable usable) characters with
      ⟨fits', u, run', filed', -⟩ | ⟨stops, f, u, run'⟩
    · rw [supply] at fits' run' filed'
      simp only [run']
      exact .inl ⟨⟨fits, fits'⟩, u, rfl, filed.trans filed'⟩
    · rw [supply] at stops
      simp only [run']
      exact .inr ⟨fun all => stops all.fitCharacters, f, u, rfl⟩
  · rw [run]
    exact .inr ⟨fun all => stops all.fitRulesets, f, t, rfl⟩

theorem importBackup_unlisted {backup : Entries} {rulesets : List Value} {cause : Breakdown} (s : Store)
    (first : Value.looped (Value.field "rulesets" backup) = .ok rulesets)
    (second : Value.looped (Value.field "characters" backup) = .error cause) :
    ∃ f t, (importBackup backup).run s = (.error f, t) := by
  simp only [importBackup, first, second, Action.run_bind, Action.run_ofExcept_ok]
  rcases (restoreRulesets rulesets).run s with ⟨f | n, t⟩
  · exact ⟨f, t, rfl⟩
  · exact ⟨_, t, rfl⟩

end Store

end Tabletop

import Tabletop.Proofs.Stocked

set_option autoImplicit false

namespace Tabletop

open Tabletop.Field (Entries)

def Backup.reread (b : Backup) : Except Breakdown Value :=
  (Json.plain b.toValue).map Json.readBack

namespace Store

variable {s t u : Store} {c : Collection} {ds rs cs : List Deposit} {id : String} {p q : Place}

-- what is listed under an id

theorem Holdings.latest (holdings : s.Holdings c ds) (placed : s.place c id = .ok p) :
    Store.latest c id (ds.map fun d => (c, d.record)) = s.disk.files.get? p := by
  cases file : s.disk.files.get? p with
  | none =>
    refine latest_none fun r member => ?_
    obtain ⟨d, found, rfl⟩ := List.mem_map.1 member
    obtain ⟨holds, rfl⟩ := holdings.kept d found
    rintro ⟨-, rfl⟩
    have there := holds.file p placed
    rw [file] at there
    cases there
  | some content =>
    obtain ⟨d, member, rfl⟩ := holdings.listed placed (by rw [Dict.contains, file]; rfl)
    obtain ⟨holds, rfl⟩ := holdings.kept d member
    obtain ⟨before, after, rfl⟩ := List.append_of_mem member
    have distinct := holdings.distinct
    rw [List.map_append, List.map_cons, List.nodup_append, List.nodup_cons] at distinct
    rw [List.map_append, List.map_cons, ← file, holds.file p placed]
    refine latest_last d.record _ fun r member => ?_
    obtain ⟨e, later, rfl⟩ := List.mem_map.1 member
    rintro ⟨-, same⟩
    have same : e.id = d.id := same
    exact distinct.2.1.1 (same ▸ List.mem_map_of_mem later)

theorem restored_deposits (kept : ∀ d ∈ ds, s.Contains d ∧ d.collection = c) (supply : Supply) :
    c.recordsIn supply (ds.map fun d => .map d.entries) = ds.map (fun d => (c, d.record)) ∧
      ∀ e ∈ supply.dealt (ds.map fun d => .map d.entries), c.Fits e := by
  induction ds generalizing supply with
  | nil => exact ⟨rfl, by simp [Supply.dealt]⟩
  | cons d ds ih =>
    rw [List.forall_mem_cons] at kept
    obtain ⟨⟨holds, rfl⟩, others⟩ := kept
    obtain ⟨records, fits⟩ := ih others supply.next
    obtain ⟨name, named, -⟩ := holds.nameable
    have judged := holds.fair.judged (id_filled named) supply
    refine ⟨by rw [List.map_cons, recordsIn_cons judged, records]; rfl, ?_⟩
    rw [List.map_cons, Supply.dealt, List.forall_mem_cons]
    refine ⟨⟨_, judged, fun r same => ?_⟩, fits⟩
    cases same
    exact holds.nameable

-- the records of both collections

def recordsOf (rs cs : List Deposit) : List (Collection × Record) :=
  (rs.map fun d => (.rulesets, d.record)) ++ cs.map fun d => (.characters, d.record)

theorem latest_recordsOf (rulesets : s.Holdings .rulesets rs) (characters : s.Holdings .characters cs)
    (placed : s.place c id = .ok p) : Store.latest c id (recordsOf rs cs) = s.disk.files.get? p := by
  rw [recordsOf, latest_append]
  cases c with
  | rulesets => rw [rulesets.latest placed, latest_apart (by decide)]; rfl
  | characters => rw [characters.latest placed, latest_apart (by decide)]; simp

def listing (now : Moment) (rs cs : List Deposit) : Backup :=
  ⟨now, rs.map Deposit.entries, cs.map Deposit.entries⟩

def backupOf (now : Moment) (rs cs : List Deposit) : Entries :=
  Value.entriesOrEmpty (listing now rs cs).toValue

theorem reread_listing (rulesets : s.Holdings .rulesets rs) (characters : s.Holdings .characters cs)
    (now : Moment) : (listing now rs cs).reread = .ok (.map (backupOf now rs cs)) := by
  have proper {c : Collection} {ds : List Deposit} (holdings : s.Holdings c ds) :
      Json.Proper (.list ((ds.map Deposit.entries).map .map)) := by
    refine .list fun v member => ?_
    simp only [List.mem_map, exists_exists_and_eq_and] at member
    obtain ⟨d, member, rfl⟩ := member
    exact (holdings.kept d member).1.fair.proper
  have whole : Json.Proper (listing now rs cs).toValue := by
    refine .map (.of_names ["exported_at", "rulesets", "characters"] rfl (by decide)) ?_
    simp only [List.forall_mem_cons]
    exact ⟨.str _, proper rulesets, proper characters, by simp⟩
  rw [Backup.reread, whole.plain, Except.map, whole.back]
  rfl

theorem looped_list (xs : List Value) : Value.looped (.list xs) = .ok xs := by
  cases xs <;> rfl

theorem importBackup_backupOf (rulesets : s.Holdings .rulesets rs)
    (characters : s.Holdings .characters cs) (now : Moment) (usable : t.Usable) :
    ∃ u, (importBackup (backupOf now rs cs)).run t = (.ok ⟨rs.length, cs.length⟩, u) ∧
      Filed (recordsOf rs cs) t u := by
  have first : Value.looped (Value.field "rulesets" (backupOf now rs cs)) =
      .ok (rs.map fun d => .map d.entries) := by
    rw [show Value.field "rulesets" (backupOf now rs cs) = .list ((rs.map Deposit.entries).map .map) from rfl,
      looped_list, List.map_map]
    rfl
  have second : Value.looped (Value.field "characters" (backupOf now rs cs)) =
      .ok (cs.map fun d => .map d.entries) := by
    rw [show Value.field "characters" (backupOf now rs cs) = .list ((cs.map Deposit.entries).map .map) from rfl,
      looped_list, List.map_map]
    rfl
  obtain ⟨records, fit⟩ := restored_deposits rulesets.kept t.supply
  obtain ⟨records', fit'⟩ := restored_deposits characters.kept (t.supply.after rs.length)
  rcases importBackup_run usable first second with ⟨-, u, run, filed⟩ | ⟨stops, -⟩
  · rw [restocked] at filed
    rw [List.length_map] at run filed
    rw [records, records'] at run filed
    exact ⟨u, by simpa using run, filed⟩
  · refine absurd ⟨fit, ?_⟩ stops
    rw [List.length_map]
    exact fit'

-- what the other store gives after that

def Has (s : Store) (c : Collection) (id : String) : Prop :=
  ∃ p, s.place c id = .ok p ∧ s.disk.files.contains p = true

/-- The third store gives what the first one gives under its ids, and else has the files of the second. -/
structure Joins (s t : Store) (n : Restored) (u : Store) : Prop where
  countRulesets : n.rulesets = (s.disk.names (s.folder .rulesets)).length
  countCharacters : n.characters = (s.disk.names (s.folder .characters)).length
  rulesets : ∀ id, s.Has .rulesets id →
    ∃ r, ((getRuleset id).run s).1 = .ok (some r) ∧ ((getRuleset id).run u).1 = .ok (some r)
  characters : ∀ id, s.Has .characters id →
    ∃ e, ((getCharacter id).run s).1 = .ok (some e) ∧ ((getCharacter id).run u).1 = .ok (some e)
  root : u.root = t.root
  folders : u.disk.folders = t.disk.folders
  others : ∀ c id p, ¬ s.Has c id → t.place c id = .ok p →
    u.disk.files.get? p = t.disk.files.get? p
  settings : u.disk.files.get? t.settingsPlace = t.disk.files.get? t.settingsPlace

-- the file of an id in the first store is that in the third
theorem served_alike (stocked : s.Stocked) (rulesets : s.Holdings .rulesets rs)
    (characters : s.Holdings .characters cs) (usable : t.Usable) (filed : Filed (recordsOf rs cs) t u)
    (has : s.Has c id) :
    ∃ d : Deposit, d.collection = c ∧ d.id = id ∧ Deposit.Serves s d ∧ Deposit.Serves u d := by
  obtain ⟨p, placed, file⟩ := has
  obtain ⟨d, holds, rfl, rfl⟩ : ∃ d : Deposit, s.Contains d ∧ d.collection = c ∧ d.id = id := by
    cases c with
    | rulesets =>
      obtain ⟨d, member, same⟩ := rulesets.listed placed file
      exact ⟨d, (rulesets.kept d member).1, (rulesets.kept d member).2, same⟩
    | characters =>
      obtain ⟨d, member, same⟩ := characters.listed placed file
      exact ⟨d, (characters.kept d member).1, (characters.kept d member).2, same⟩
  obtain ⟨name, named, placed'⟩ := holds.nameable.place t d.collection
  have usable' := filed.usable usable
  have there : u.place d.collection d.id = .ok (t.folder d.collection ++ [name]) := by
    rw [filed.place, placed']
  refine ⟨d, rfl, rfl, ?_, ?_⟩
  · exact holds.fair.serves placed (holds.nameable.open stocked.short (stocked.free _) placed)
      (holds.file p placed)
  · refine holds.fair.serves there (holds.nameable.open usable'.short (usable'.free _) there) ?_
    rw [filed.files _ _ _ placed', latest_recordsOf rulesets characters placed, holds.file p placed]
    rfl

theorem joins_of_filed (stocked : s.Stocked) (rulesets : s.Holdings .rulesets rs)
    (characters : s.Holdings .characters cs) (usable : t.Usable)
    (filed : Filed (recordsOf rs cs) t u) : Joins s t ⟨rs.length, cs.length⟩ u where
  countRulesets := rulesets.count
  countCharacters := characters.count
  rulesets id has := by
    obtain ⟨d, collection, rfl, here, there⟩ :=
      served_alike stocked rulesets characters usable filed has
    cases d with
    | ruleset r => exact ⟨r, here, there⟩
    | character => cases collection
  characters id has := by
    obtain ⟨d, collection, rfl, here, there⟩ :=
      served_alike stocked rulesets characters usable filed has
    cases d with
    | ruleset => cases collection
    | character e => exact ⟨e, here, there⟩
  root := filed.root
  folders := filed.folders
  others c id p absent placed := by
    obtain ⟨name, named, rfl⟩ := place_eq_ok placed
    have here := place_of_recordName named s c
    have none : s.disk.files.get? (s.folder c ++ [name]) = none := by
      rw [← Option.not_isSome_iff_eq_none]
      exact fun file => absent ⟨_, here, file⟩
    rw [filed.files c id _ placed, latest_recordsOf rulesets characters here, none]
    rfl
  settings := filed.outside (by simp [settingsPlace])

/-- A backup of a store, taken through its JSON text into another store, makes that store give every
ruleset and character of the first one, and changes nothing else there; taking it in again changes no
file. -/
theorem importBackup_exportBackup (filled : s.Filled) (usable : t.Usable) :
    ∃ b backup n u v, (exportBackup.run s).1 = .ok b ∧ b.reread = .ok (.map backup) ∧
      (importBackup backup).run t = (.ok n, u) ∧ Joins s t n u ∧
      (importBackup backup).run u = (.ok n, v) ∧
      v.disk.folders = u.disk.folders ∧ ∀ p, v.disk.files.get? p = u.disk.files.get? p := by
  have stocked := filled.stocked
  obtain ⟨rs, cs, s', exports, rulesets, characters⟩ := stocked.exportBackup
  obtain ⟨u, first, filed⟩ := importBackup_backupOf rulesets characters s.supply.now usable
  obtain ⟨v, second, again⟩ :=
    importBackup_backupOf rulesets characters s.supply.now (filed.usable usable)
  refine ⟨_, _, _, u, v, congrArg Prod.fst exports, reread_listing rulesets characters s.supply.now,
    first, ?_, second, again.folders, filed.again again⟩
  exact joins_of_filed stocked rulesets characters usable filed

theorem create_usable {root : Place} (short : Disk.isLong root = false) (base : String)
    (supply : Supply) : (create (.blank base []) root supply).Usable := by
  have mirrors := create_mirrors short base [] supply
  exact ⟨short, mirrors.free, by simp [mirrors.faults]⟩

end Store

-- a store with a ruleset and a character, and an empty one

namespace Recruit

open Ruleset.Primer (shelved graded)

def opened (base : String) : Store :=
  .create (.blank base []) [] supply

def chest : Store :=
  ((Deposit.character hero).put.run ((Deposit.ruleset drills).put.run (opened "data")).2).2

theorem drills_fair : (Deposit.ruleset drills).IsFair :=
  .ruleset Ruleset.Primer.graded_json shelved_legible (ok_of_get (by decide +kernel))

theorem hero_fair : (Deposit.character hero).IsFair := by
  have spare : supply.now.Spare (0 + 1) := .inl (by decide)
  have next : supply.now.next.Legible := (Moment.next_legible shelved_legible spare).1
  exact .character record_json record_plainKeys shelved_legible next
    (ok_of_ofChecked (ok_of_get (by decide +kernel)))

theorem drills_nameable : Store.Nameable (Deposit.ruleset drills).id :=
  ⟨"r.json", by decide +kernel, by decide⟩

theorem hero_nameable : Store.Nameable (Deposit.character hero).id :=
  ⟨"gen000000000000.json", by decide +kernel, by decide⟩

-- both puts are written
theorem chest_filed :
    Store.Filed [(.rulesets, (Deposit.ruleset drills).record), (.characters, (Deposit.character hero).record)]
      (opened "data") chest := by
  have usable : (opened "data").Usable := Store.create_usable rfl "data" supply
  obtain ⟨s, first, filed, known⟩ := drills_fair.put_new usable drills_nameable rfl
  obtain ⟨t, second, filed', -⟩ :=
    hero_fair.put_new (filed.usable usable) hero_nameable ((known _ (by simp [Deposit.collection])).trans rfl)
  have whole : chest = t := by rw [chest, first, second]
  rw [whole]
  exact filed.trans filed'

end Recruit

open Recruit in
theorem importBackup_exportBackup_recruit :
    chest.Filled ∧ (opened "other").Usable ∧ chest.Has .rulesets drills.id ∧
      chest.Has .characters hero.id ∧
      ∃ b backup n u v, (Store.exportBackup.run chest).1 = .ok b ∧ b.reread = .ok (.map backup) ∧
        (Store.importBackup backup).run (opened "other") = (.ok n, u) ∧
        Store.Joins chest (opened "other") n u ∧ (Store.importBackup backup).run u = (.ok n, v) ∧
        v.disk.folders = u.disk.folders ∧ ∀ p, v.disk.files.get? p = u.disk.files.get? p := by
  have filled : chest.Filled := .put (.put (.opened rfl "data" [] supply) drills_fair) hero_fair
  have usable : (opened "other").Usable := Store.create_usable rfl "other" supply
  have has {c : Collection} {id : String} (nameable : Store.Nameable id)
      (latest : (Store.latest c id [(.rulesets, (Deposit.ruleset drills).record),
        (.characters, (Deposit.character hero).record)]).isSome = true) : chest.Has c id := by
    obtain ⟨name, -, placed⟩ := nameable.place (opened "data") c
    refine ⟨_, (chest_filed.place c id).trans placed, ?_⟩
    rw [Dict.contains, chest_filed.files c id _ placed, Option.isSome_or, latest, Bool.true_or]
  exact ⟨filled, usable, has drills_nameable rfl, has hero_nameable rfl,
    Store.importBackup_exportBackup filled usable⟩

end Tabletop

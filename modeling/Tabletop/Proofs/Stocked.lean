import Tabletop.Proofs.Archive
import Tabletop.Proofs.Deposits

set_option autoImplicit false

namespace Tabletop

namespace Disk

variable {d e : Disk} {p q : Place} {v : Value} {content : Content}

-- a write adds nothing but its document, and that only if it succeeds

theorem of_erase (file : (d.files.erase p).get? q = some content) : d.files.get? q = some content := by
  rw [Dict.get?_erase] at file
  split at file
  · cases file
  · exact file

theorem attempt_adds {x : Except Breakdown (Option String)} (tried : d.attempt p v = (x, e))
    (file : e.files.get? q = some content) :
    d.files.get? q = some content ∨ x = .ok none ∧ q = p ∧ content = .document v := by
  unfold attempt at tried
  simp only at tried
  split at tried
  · cases tried
    exact .inl file
  · split at tried
    · cases tried
      exact .inl file
    · split at tried
      · cases tried
        exact .inl (of_erase file)
      · split at tried
        · cases tried
          exact .inl (of_erase file)
        · cases tried
          simp only [Dict.get?_insert] at file
          split at file
          · cases file
            exact .inr ⟨rfl, ‹_›, rfl⟩
          · exact .inl (of_erase file)

theorem write_adds {x : Except Failure Unit} (wrote : d.write p v = (x, e))
    (file : e.files.get? q = some content) :
    d.files.get? q = some content ∨ x = .ok () ∧ q = p ∧ content = .document v := by
  unfold write at wrote
  split at wrote
  · rename_i first
    cases wrote
    exact (attempt_adds first file).imp_right fun added => ⟨rfl, added.2⟩
  · rename_i first
    cases wrote
    exact (attempt_adds first file).imp_right fun added => by cases added.1
  · rename_i first
    have earlier {other : Disk} {reason : String} (failed : d.attempt p v = (.ok (some reason), other))
        (file : other.files.get? q = some content) : d.files.get? q = some content :=
      (attempt_adds failed file).resolve_right fun added => by cases added.1
    split at wrote
    · rename_i second
      cases wrote
      exact (attempt_adds second file).imp (earlier first) fun added => ⟨rfl, added.2⟩
    · rename_i second
      cases wrote
      exact .inl (earlier first ((attempt_adds second file).resolve_right fun added => by cases added.1))
    · rename_i second
      cases wrote
      exact .inl (earlier first ((attempt_adds second file).resolve_right fun added => by cases added.1))

theorem write_folders {x : Except Failure Unit} (wrote : d.write p v = (x, e)) : e.folders = d.folders := by
  have first := attempt_folders d p v
  unfold write at wrote
  split at wrote
  · rename_i tried
    cases wrote
    rw [← first, tried]
  · rename_i tried
    cases wrote
    rw [← first, tried]
  · rename_i other tried
    rw [tried] at first
    have second := attempt_folders other p v
    split at wrote <;> rename_i again <;> cases wrote <;> rw [← first, ← second, again]

end Disk

namespace Store

variable {s t : Store} {c : Collection} {r : Record} {d : Deposit}

structure Adds (s : Store) (c : Collection) (r : Record) (t : Store) : Prop where
  root : t.root = s.root
  folders : t.disk.folders = s.disk.folders
  files : ∀ q content, t.disk.files.get? q = some content → s.disk.files.get? q = some content ∨
    s.place c r.id = .ok q ∧ Nameable r.id ∧ content = .document r.document

theorem Adds.refl (s : Store) (c : Collection) (r : Record) : s.Adds c r s :=
  ⟨rfl, rfl, fun _ _ => .inl⟩

theorem write_remember_adds {p : Place} (placed : s.place c r.id = .ok p) :
    s.Adds c r ((do write p r.document; remember c r.id r.fingerprint : Work Unit).run s).2 := by
  simp only [Action.run_bind, write]
  rcases wrote : s.disk.write p r.document with ⟨f | _, e⟩
  · refine ⟨rfl, Disk.write_folders wrote, fun q content file => ?_⟩
    exact (Disk.write_adds wrote file).imp_right fun added => by cases added.1
  · refine ⟨rfl, Disk.write_folders wrote, fun q content file => ?_⟩
    refine (Disk.write_adds wrote file).imp_right fun added => ?_
    obtain ⟨-, here, content⟩ := added
    refine ⟨?_, ?_, content⟩
    · rw [placed, here]
    · exact nameable_of_open (Disk.open_of_write (place_scratch placed) wrote) placed

theorem put_adds (s : Store) (c : Collection) (r : Record) (force : Bool) :
    s.Adds c r ((put c r force).run s).2 := by
  simp only [put, Action.run_bind, Action.run_state]
  cases placed : s.place c r.id with
  | error cause => exact .refl s c r
  | ok p =>
    have writes := write_remember_adds placed
    cases force with
    | true => exact writes
    | false =>
      simp only [Action.run_ofExcept_ok, Bool.not_false, if_true, Action.run_bind]
      rcases s.isUnchanged c p r with cause | unchanged
      · exact .refl s c r
      · cases unchanged with
        | true => exact .refl s c r
        | false => exact writes

structure Stocked (s : Store) : Prop where
  short : Disk.isLong s.root = false
  free : ∀ c name, s.disk.isFolder (s.folder c ++ [name]) = false
  each : ∀ c name content, s.disk.files.get? (s.folder c ++ [name]) = some content →
    ∃ d : Deposit, d.IsFair ∧ Nameable d.id ∧ d.collection = c ∧ recordName d.id = .ok name ∧
      content = .document (.map d.entries)

theorem Stocked.added (stocked : s.Stocked) (fair : d.IsFair)
    (adds : s.Adds d.collection d.record t) : t.Stocked := by
  have folder (c : Collection) : t.folder c = s.folder c := by
    rw [Store.folder, Store.folder, adds.root]
  refine ⟨adds.root ▸ stocked.short, fun c name => ?_, fun c name content file => ?_⟩
  · rw [Disk.isFolder, adds.folders, folder]
    exact stocked.free c name
  · rw [folder] at file
    rcases adds.files _ content file with old | ⟨placed, nameable, rfl⟩
    · exact stocked.each c name content old
    · obtain ⟨name', named, same⟩ := place_eq_ok placed
      obtain ⟨folders, names⟩ := List.append_inj' same rfl
      cases folder_injective folders
      cases List.singleton_inj.1 names
      exact ⟨d, fair, nameable, rfl, named, rfl⟩

theorem Stocked.put (stocked : s.Stocked) (fair : d.IsFair) : (d.put.run s).2.Stocked := by
  rw [d.put_run, Action.run_bind]
  cases record : Record.ofEntries d.entries with
  | error cause => exact stocked
  | ok r =>
    have filled : d.id.isEmpty = false := Record.filled_of_ofEntries d.field_id record
    obtain rfl : d.record = r := Except.ok.inj ((fair.ofEntries filled).symm.trans record)
    exact stocked.added fair (put_adds s d.collection d.record false)

theorem create_free {disk : Disk} {root : Place}
    (free : ∀ c name, disk.isFolder (root ++ [Collection.name c] ++ [name]) = false) (supply : Supply)
    (c : Collection) (name : String) :
    (create disk root supply).disk.isFolder (root ++ [c.name] ++ [name]) = false := by
  have apart : root ++ [c.name] ++ [name] ∉ disk.folders := by
    simpa [Disk.isFolder] using free c name
  have deep : root ++ [c.name] ++ [name] ∉ (create disk root supply).disk.folders := by
    intro member
    simp only [create, Collection.all, List.foldl_cons, List.foldl_nil] at member
    have long (p : Place) (same : root ++ [c.name] ++ [name] = p) : p.length = root.length + 2 := by
      simp [← same]
    rcases mem_addFolder member with same | member
    · simpa using long _ same
    rcases mem_addFolder member with same | member
    · simpa using long _ same
    split at member
    · exact apart member
    · rcases mem_addFolder member with same | member
      · simpa using long _ same
      · exact apart member
  simpa [Disk.isFolder] using deep

/-- A store into which nothing but rulesets and characters was put since its directory was empty. -/
inductive Filled : Store → Prop where
  | opened {root : Place} (short : Disk.isLong root = false) (base : String) (faults : List Bool)
      (supply : Supply) : Filled (create (.blank base faults) root supply)
  | reopened {s : Store} (filled : Filled s) (supply : Supply) : Filled (create s.disk s.root supply)
  | put {s : Store} {d : Deposit} (filled : Filled s) (fair : d.IsFair) : Filled (d.put.run s).2

theorem Filled.stocked (filled : Filled s) : s.Stocked := by
  induction filled with
  | opened short base faults supply =>
    refine ⟨short, create_free (fun c name => ?_) supply, fun c name content file => ?_⟩
    · simp [Disk.isFolder, Disk.blank]
    · rw [create_files] at file
      cases file
  | @reopened s filled supply stocked =>
    refine ⟨stocked.short, create_free stocked.free supply, fun c name content file => ?_⟩
    rw [create_files] at file
    exact stocked.each c name content file
  | put filled fair stocked => exact stocked.put fair

-- what a backup lists

structure Contains (s : Store) (d : Deposit) : Prop where
  fair : d.IsFair
  nameable : Nameable d.id
  file : ∀ p, s.place d.collection d.id = .ok p → s.disk.files.get? p = some (.document (.map d.entries))

structure Holdings (s : Store) (c : Collection) (ds : List Deposit) : Prop where
  kept : ∀ d ∈ ds, s.Contains d ∧ d.collection = c
  names : ds.map (fun d => recordName d.id) = (s.disk.names (s.folder c)).map .ok

theorem Contains.readRecord (holds : s.Contains d) (disk : t.disk = s.disk) {p : Place}
    (placed : s.place d.collection d.id = .ok p) :
    ∃ known, (readRecord d.collection p).run t = (.ok (some d.entries), { t with known := known }) := by
  obtain ⟨print, found⟩ := holds.fair.proper.fingerprinted
  have loaded : t.disk.load? p = .ok (some (.map d.entries)) := by
    rw [disk, Disk.load?, holds.file p placed]
    simp only [Content.load?, holds.fair.proper.back]
  have given : (Value.field "id" d.entries).isTruthy = true := by
    obtain ⟨name, named, -⟩ := holds.nameable
    simp [d.field_id, Value.isTruthy, id_filled named]
  exact ⟨_, readRecord_run loaded given found⟩

theorem Stocked.readAll (stocked : s.Stocked) (c : Collection) (names : List String)
    (live : ∀ name ∈ names, s.disk.files.contains (s.folder c ++ [name]) = true) (disk : t.disk = s.disk) :
    ∃ (ds : List Deposit) (known : Dict (Collection × String) Value),
      (Store.readAll c (names.map fun name => s.folder c ++ [name])).run t =
        (.ok (ds.map Deposit.entries), { t with known := known }) ∧
      (∀ d ∈ ds, s.Contains d ∧ d.collection = c) ∧
      ds.map (fun d => recordName d.id) = names.map .ok := by
  induction names generalizing t with
  | nil => exact ⟨[], t.known, rfl, by simp, rfl⟩
  | cons name names ih =>
    rw [List.forall_mem_cons] at live
    obtain ⟨content, file⟩ := Option.isSome_iff_exists.1 live.1
    obtain ⟨d, fair, nameable, rfl, named, rfl⟩ := stocked.each c name content file
    have placed := place_of_recordName named s d.collection
    have holds : s.Contains d := by
      refine ⟨fair, nameable, fun p placed' => ?_⟩
      cases placed.symm.trans placed'
      exact file
    obtain ⟨known, reads⟩ := holds.readRecord disk placed
    obtain ⟨ds, known', readsRest, kept, named'⟩ := ih live.2 (t := { t with known := known }) disk
    refine ⟨d :: ds, known', ?_, List.forall_mem_cons.2 ⟨⟨holds, rfl⟩, kept⟩, ?_⟩
    · simp [Store.readAll, Action.run_bind, reads, readsRest]
    · rw [List.map_cons, List.map_cons, named, named']

theorem Stocked.listAll (stocked : s.Stocked) (c : Collection) (disk : t.disk = s.disk)
    (root : t.root = s.root) :
    ∃ (ds : List Deposit) (known : Dict (Collection × String) Value),
      (Store.listAll c).run t = (.ok (ds.map Deposit.entries), { t with known := known }) ∧
        s.Holdings c ds := by
  have folder : t.folder c = s.folder c := by rw [Store.folder, Store.folder, root]
  have all : (t.disk.names (t.folder c)).filter isRecordName = s.disk.names (s.folder c) := by
    rw [disk, folder, List.filter_eq_self]
    intro name member
    obtain ⟨content, file⟩ := Option.isSome_iff_exists.1 (Disk.mem_names.1 member)
    obtain ⟨d, -, -, -, named, -⟩ := stocked.each c name content file
    exact isRecordName_recordName named
  obtain ⟨ds, known, reads, kept, named⟩ :=
    stocked.readAll c _ (fun name => Disk.mem_names.1) disk
  refine ⟨ds, known, ?_, kept, named⟩
  simp only [Store.listAll, Action.run_bind, Action.run_state, folder, ← all] at reads ⊢
  exact reads

theorem Stocked.exportBackup (stocked : s.Stocked) :
    ∃ (rs cs : List Deposit) (t : Store), Store.exportBackup.run s =
        (.ok ⟨s.supply.now, rs.map Deposit.entries, cs.map Deposit.entries⟩, t) ∧
      s.Holdings .rulesets rs ∧ s.Holdings .characters cs := by
  obtain ⟨rs, known, first, rulesets⟩ := stocked.listAll .rulesets (t := s.ticked) rfl rfl
  obtain ⟨cs, known', second, characters⟩ :=
    stocked.listAll .characters (t := { s.ticked with known := known }) rfl rfl
  refine ⟨rs, cs, { s.ticked with known := known' }, ?_, rulesets, characters⟩
  simp only [Store.exportBackup, Action.run_bind, run_now, first, second]
  rfl

-- what is listed under an id

variable {ds : List Deposit} {id : String} {p : Place}

theorem Holdings.count (holdings : s.Holdings c ds) : ds.length = (s.disk.names (s.folder c)).length := by
  simpa using congrArg List.length holdings.names

theorem Holdings.distinct (holdings : s.Holdings c ds) : (ds.map Deposit.id).Nodup := by
  have distinct : ((ds.map Deposit.id).map recordName).Nodup := by
    rw [List.map_map, Function.comp_def, holdings.names]
    exact (Disk.names_nodup _ _).map fun _ _ => Except.ok.inj
  exact distinct.of_map

theorem Holdings.listed (holdings : s.Holdings c ds) (placed : s.place c id = .ok p)
    (file : s.disk.files.contains p = true) : ∃ d ∈ ds, d.id = id := by
  obtain ⟨name, named, rfl⟩ := place_eq_ok placed
  have member : Except.ok name ∈ ds.map fun d => recordName d.id := by
    rw [holdings.names]
    exact List.mem_map_of_mem (Disk.mem_names.2 file)
  obtain ⟨d, member, named'⟩ := List.mem_map.1 member
  exact ⟨d, member, recordName_injective named' named⟩

end Store

end Tabletop

import Tabletop.Proofs.Mirrors

set_option autoImplicit false

namespace Tabletop

namespace Store

variable {s t : Store} {a b : Archive} {c d : Collection} {id : String} {record : Field.Entries}
  {p : Place} {file : Option Content} {fingerprint? : Option Value} {fingerprint : Value}

-- reading a record

theorem readRecord_mirrors (mirrors : s.Mirrors a) (live : a.records.contains (c, id) = true)
    (placed : s.place c id = .ok p) :
    ∃ es t, (readRecord c p).run s = (.ok (some es), t) ∧ t.Mirrors a ∧ t.root = s.root ∧
      a.Keeps c id es := by
  have stands := mirrors.each c id p placed
  rw [Dict.contains] at live
  generalize file? : s.disk.files.get? p = file, known : s.known.get? (c, id) = fingerprint?,
    kept : a.records.get? (c, id) = record? at stands live
  cases stands with
  | absent => cases live
  | @present es record fingerprint isFile isRecord same found =>
    have loads : s.disk.load? p = .ok (some (.map es)) := by
      simp [Disk.load?, file?, Content.load?, isFile.json.proper.back]
    have stands : Stands id (some (.document (.map es))) (some fingerprint) (a.records.get? (c, id)) := by
      rw [kept]
      exact .present isFile isRecord same found
    refine ⟨es, { s with known := s.known.insert (c, id) fingerprint }, ?_, ?_, rfl, record, kept,
      (isRecord.alike_iff isFile found).2 same⟩
    · simp [readRecord, Action.run_bind, loads, isFile.named, isFile.truthy, same, Value.text,
        Store.remember]
    · refine mirrors.refiled placed ⟨rfl, rfl, fun q => ?_, fun key => ?_⟩ stands (fun _ _ => rfl)
        mirrors.faults
      · split
        · rename_i here
          rw [here, file?]
        · rfl
      · rw [Dict.get?_insert]

theorem get_follows (mirrors : s.Mirrors a) (nameable : Nameable id) : s.Follows a (.get c id) := by
  obtain ⟨name, -, placed⟩ := nameable.place s c
  have holds := mirrors.holds nameable placed
  cases live : a.records.contains (c, id) with
  | false =>
    have gone : (serve (.get c id)).run s = (.ok (.found none), s) := by
      simp [serve, get, Action.run_bind, placed, holds, live]
    exact .of_run gone (.absent live) mirrors
  | true =>
    obtain ⟨es, t, reads, mirrors', -, kept⟩ := readRecord_mirrors mirrors live placed
    have found : (serve (.get c id)).run s = (.ok (.found (some es)), t) := by
      simp [serve, get, Action.run_bind, placed, holds, live, reads]
    exact .of_run found (.found kept) mirrors'

-- looking for a file breaks down, if its name is too long
theorem get_tooLong (placed : s.place c id = .ok p) (long : Disk.isLong p = true) :
    (get c id).run s = (.error (.breakdown .nameTooLong), s) := by
  have breaks : s.disk.holds p = .error .nameTooLong := by rw [Disk.holds, if_pos long]
  simp only [get, Action.run_bind, Action.run_state, placed, Action.run_ofExcept_ok, breaks]
  rfl

-- listing

theorem readAll_mirrors (names : List String) (mirrors : s.Mirrors a)
    (live : ∀ name ∈ names, ∃ id, recordName id = .ok name ∧ a.records.contains (c, id) = true) :
    ∃ ids records t, (readAll c (names.map fun name => s.folder c ++ [name])).run s = (.ok records, t) ∧
      t.Mirrors a ∧ ids.map recordName = names.map .ok ∧ List.Forall₂ (a.Keeps c) ids records := by
  induction names generalizing s with
  | nil => exact ⟨[], [], s, rfl, mirrors, rfl, .nil⟩
  | cons name names ih =>
    rw [List.forall_mem_cons] at live
    obtain ⟨⟨id, named, kept⟩, rest⟩ := live
    obtain ⟨es, t, reads, mirrors', root, keeps⟩ :=
      readRecord_mirrors mirrors kept (place_of_recordName named s c)
    have folder : t.folder c = s.folder c := by rw [Store.folder, root, Store.folder]
    obtain ⟨ids, records, u, readsRest, mirrors'', namedRest, keepsRest⟩ := ih mirrors' rest
    rw [folder] at readsRest
    refine ⟨id :: ids, es :: records, u, ?_, mirrors'', by simp [named, namedRest],
      .cons keeps keepsRest⟩
    simp [readAll, Action.run_bind, reads, readsRest]

-- the files in the folder of a collection are those of its records
theorem Mirrors.listed (mirrors : s.Mirrors a) (name : String) :
    name ∈ s.disk.names (s.folder c) ↔
      ∃ id, recordName id = .ok name ∧ a.records.contains (c, id) = true := by
  rw [Disk.mem_names]
  constructor
  · intro file
    obtain ⟨d, id, placed⟩ := mirrors.strays _ file
    obtain ⟨other, named, same⟩ := place_eq_ok placed
    obtain ⟨folders, names⟩ := List.append_inj' same rfl
    cases folder_injective folders
    rw [List.singleton_inj] at names
    exact ⟨id, names ▸ named, mirrors.contains placed ▸ file⟩
  · rintro ⟨id, named, kept⟩
    rw [mirrors.contains (place_of_recordName named s c), kept]

theorem list_follows (mirrors : s.Mirrors a) : s.Follows a (.list c) := by
  have all : (s.disk.names (s.folder c)).filter isRecordName = s.disk.names (s.folder c) := by
    rw [List.filter_eq_self]
    intro name member
    obtain ⟨id, named, -⟩ := (mirrors.listed name).1 member
    exact isRecordName_recordName named
  obtain ⟨ids, records, t, reads, mirrors', named, kept⟩ :=
    readAll_mirrors _ mirrors fun name => (mirrors.listed (c := c) name).1
  have listed : (serve (.list c)).run s = (.ok (.listed records), t) := by
    simp [serve, listAll, Action.run_bind, all, reads]
  refine .of_run listed (.listed ?_ (fun id => ?_) kept) mirrors'
  · have distinct : (ids.map recordName).Nodup := by
      rw [named]
      exact (Disk.names_nodup _ _).map fun _ _ => Except.ok.inj
    exact distinct.of_map
  · constructor
    · intro member
      have file : recordName id ∈ ids.map recordName := List.mem_map_of_mem member
      rw [named, List.mem_map] at file
      obtain ⟨name, member, same⟩ := file
      obtain ⟨other, named', live⟩ := (mirrors.listed name).1 member
      rwa [recordName_injective same.symm named']
    · intro live
      obtain ⟨name, named', -⟩ := mirrors.nameable c id live
      have found : Except.ok name ∈ ids.map recordName :=
        named ▸ List.mem_map_of_mem ((mirrors.listed name).2 ⟨id, named', live⟩)
      obtain ⟨other, member, same⟩ := List.mem_map.1 found
      rwa [recordName_injective named' same]

-- deleting

theorem delete_follows (mirrors : s.Mirrors a) (nameable : Nameable id) : s.Follows a (.delete c id) := by
  obtain ⟨name, -, placed⟩ := nameable.place s c
  have removes := Disk.remove_run (mirrors.open nameable placed)
  obtain ⟨t, runs, refiled, faults⟩ : ∃ t,
      (serve (.delete c id)).run s = (.ok (.deleted (a.records.contains (c, id))), t) ∧
        Refiled s c id (s.folder c ++ [name]) none none t ∧ t.disk.faults = s.disk.faults := by
    refine ⟨{ s with
      known := s.known.erase (c, id)
      disk := { s.disk with files := s.disk.files.erase (s.folder c ++ [name]) } }, ?_,
      ⟨rfl, rfl, fun q => Dict.get?_erase .., fun key => Dict.get?_erase ..⟩, rfl⟩
    simp [serve, delete, forget, Action.run_bind, placed, removes, mirrors.contains placed,
      Failure.ofExcept]
  refine .of_run runs .deleted (mirrors.refiled placed refiled ?_ (fun key apart => ?_)
    (faults.trans mirrors.faults))
  · rw [Dict.get?_erase, if_pos rfl]
    exact .absent
  · rw [Dict.get?_erase, if_neg apart]

-- putting

theorem Mirrors.tried (mirrors : s.Mirrors a) (placed : s.place c id = .ok p) :
    Mirrors { s with disk := s.disk.tried p } ⟨a.records, (Disk.twoAttempts a.faults).2⟩ where
  short := mirrors.short
  folders := mirrors.folders
  faults := by
    rw [← mirrors.faults]
    rfl
  each d other q placed' := by
    have file : (s.disk.tried p).files.get? q = s.disk.files.get? q := by
      simp [Disk.tried, (scratch_ne_place placed placed').symm]
    rw [file]
    exact mirrors.each d other q placed'
  strays q file := by
    rw [Dict.contains, Disk.tried, Dict.get?_erase] at file
    split at file
    · cases file
    · exact mirrors.strays q file
  nameable := mirrors.nameable

theorem Mirrors.keeps_iff (mirrors : s.Mirrors a) (isRecord : IsRecord id record)
    (found : Record.fingerprintOf (.map record) = .ok fingerprint) (placed : s.place c id = .ok p) :
    a.Keeps c id record ↔ s.known.get? (c, id) = some fingerprint := by
  have stands := mirrors.each c id p placed
  rw [Archive.Keeps]
  generalize s.disk.files.get? p = file, s.known.get? (c, id) = fingerprint?,
    a.records.get? (c, id) = record? at stands
  cases stands with
  | absent => simp
  | @present es kept fingerprint' isFile isKept same found' =>
    simp only [Option.some.injEq, exists_eq_left', isKept.alike_iff isRecord found', found,
      Except.ok.injEq, eq_comm]

-- a record is unchanged exactly if its fingerprint is the remembered one
theorem isUnchanged_run (mirrors : s.Mirrors a) (nameable : Nameable id) (placed : s.place c id = .ok p)
    (document fingerprint : Value) :
    s.isUnchanged c p ⟨id, document, fingerprint⟩ =
      .ok (decide (s.known.get? (c, id) = some fingerprint)) := by
  rw [isUnchanged, mirrors.holds nameable placed]
  cases live : a.records.contains (c, id) with
  | true => rfl
  | false =>
    have unknown : (s.known.get? (c, id)).isSome = false :=
      (mirrors.each c id p placed).together.2.trans live
    rw [Option.isSome_eq_false_iff, Option.isNone_iff_eq_none] at unknown
    simp [unknown, bind, Except.bind, pure, Except.pure]

theorem put_run (force : Bool) (mirrors : s.Mirrors a) (nameable : Nameable id)
    (placed : s.place c id = .ok p) (document fingerprint : Value) :
    (put c ⟨id, document, fingerprint⟩ force).run s =
      if force = false ∧ s.known.get? (c, id) = some fingerprint then (.ok (), s)
      else if (Disk.twoAttempts s.disk.faults).1 then
        (.ok (), { s with
          disk := s.disk.written p document
          known := s.known.insert (c, id) fingerprint })
      else (.error (.storeWrite (Disk.fileName p) Disk.fullReason), { s with disk := s.disk.tried p }) := by
  have writes := Disk.write_run (mirrors.open nameable placed) document
  have unchanged := isUnchanged_run mirrors nameable placed document fingerprint
  cases force <;> by_cases same : s.known.get? (c, id) = some fingerprint <;>
    cases outcome : (Disk.twoAttempts s.disk.faults).1 <;>
    simp [put, write, Store.remember, Action.run_bind, placed, unchanged, same, writes, outcome]

theorem Mirrors.filed {es : Field.Entries} (mirrors : s.Mirrors a) (placed : s.place c id = .ok p)
    (refiled : Refiled s c id p (some (.document (.map es))) (some fingerprint) t)
    (isFile : IsRecord id es) (isRecord : IsRecord id record)
    (same : Record.fingerprintOf (.map es) = .ok fingerprint)
    (found : Record.fingerprintOf (.map record) = .ok fingerprint) :
    t.Mirrors ⟨a.records.insert (c, id) record, t.disk.faults⟩ := by
  refine mirrors.refiled placed refiled ?_ (fun key apart => ?_) rfl
  · rw [Dict.get?_insert, if_pos rfl]
    exact .present isFile isRecord same found
  · rw [Dict.get?_insert, if_neg apart]

-- a record that is put without writing it
theorem Mirrors.skipped (mirrors : s.Mirrors a) (placed : s.place c id = .ok p)
    (isRecord : IsRecord id record) (found : Record.fingerprintOf (.map record) = .ok fingerprint)
    (known : s.known.get? (c, id) = some fingerprint) :
    s.Mirrors ⟨a.records.insert (c, id) record, a.faults⟩ := by
  have refiled := Refiled.refl s c id p
  have stands := mirrors.each c id p placed
  rw [known] at refiled stands
  generalize s.disk.files.get? p = file, a.records.get? (c, id) = record? at refiled stands
  cases stands with
  | present isFile _ same _ =>
    rw [← mirrors.faults]
    exact mirrors.filed placed refiled isFile isRecord same found

theorem Mirrors.written (mirrors : s.Mirrors a) (placed : s.place c id = .ok p)
    (isRecord : IsRecord id record) (found : Record.fingerprintOf (.map record) = .ok fingerprint) :
    Mirrors
      { s with
        disk := s.disk.written p (.map record)
        known := s.known.insert (c, id) fingerprint }
      ⟨a.records.insert (c, id) record, (Disk.twoAttempts a.faults).2⟩ := by
  rw [← mirrors.faults]
  exact (mirrors.tried placed).filed placed
    ⟨rfl, rfl, fun q => Dict.get?_insert .., fun key => Dict.get?_insert ..⟩ isRecord isRecord found found

theorem put_follows (force : Bool) (mirrors : s.Mirrors a) (isRecord : IsRecord id record) :
    s.Follows a (.put c record force) := by
  obtain ⟨name, named, placed⟩ := isRecord.nameable.place s c
  obtain ⟨fingerprint, found⟩ := isRecord.fingerprinted
  have keeps := mirrors.keeps_iff isRecord found placed
  have runs := put_run force mirrors isRecord.nameable placed (.map record) fingerprint
  by_cases skips : force = false ∧ s.known.get? (c, id) = some fingerprint
  · rw [if_pos skips] at runs
    obtain ⟨rfl, same⟩ := skips
    have served : (serve (.put c record false)).run s = (.ok .stored, s) := by
      simp [serve, Action.run_bind, isRecord.ofEntries found, runs]
    exact .of_run served (.unchanged isRecord.named (keeps.2 same))
      (mirrors.skipped placed isRecord found same)
  · rw [if_neg skips] at runs
    have due : force = true ∨ ¬a.Keeps c id record := by
      rw [keeps]
      cases force <;> simp_all
    cases outcome : (Disk.twoAttempts s.disk.faults).1 with
    | true =>
      rw [outcome, if_pos rfl] at runs
      have served : (serve (.put c record force)).run s =
          (.ok .stored,
            { s with
              disk := s.disk.written (s.folder c ++ [name]) (.map record)
              known := s.known.insert (c, id) fingerprint }) := by
        simp [serve, Action.run_bind, isRecord.ofEntries found, runs]
      refine .of_run served (.written isRecord.named due ?_) (mirrors.written placed isRecord found)
      rw [← outcome, mirrors.faults]
    | false =>
      rw [outcome, if_neg Bool.false_ne_true] at runs
      have served : (serve (.put c record force)).run s =
          (.error (.storeWrite name Disk.fullReason),
            { s with disk := s.disk.tried (s.folder c ++ [name]) }) := by
        simp [serve, Action.run_bind, isRecord.ofEntries found, runs, Disk.fileName]
      refine .of_run served (.refused isRecord.named due ?_ named) (mirrors.tried placed)
      rw [← outcome, mirrors.faults]

-- one request, and one after the other

theorem serve_follows {r : Request} (mirrors : s.Mirrors a) (proper : r.Proper) : s.Follows a r := by
  cases r with
  | put c record force =>
    obtain ⟨id, isRecord⟩ := proper
    exact put_follows force mirrors isRecord
  | get c id => exact get_follows mirrors proper
  | delete c id => exact delete_follows mirrors proper
  | list c => exact list_follows mirrors

theorem serveAll_mirrors {requests : List Request} (mirrors : s.Mirrors a)
    (proper : ∀ r ∈ requests, r.Proper) :
    ∃ b, Archive.Serves a requests (serveAll requests s).1 b ∧ (serveAll requests s).2.Mirrors b := by
  induction requests generalizing s a with
  | nil => exact ⟨a, .nil a, mirrors⟩
  | cons r requests ih =>
    rw [List.forall_mem_cons] at proper
    obtain ⟨b, answers, mirrors'⟩ := serve_follows mirrors proper.1
    obtain ⟨e, serves, mirrors''⟩ := ih mirrors' proper.2
    exact ⟨e, .cons answers serves, mirrors''⟩

theorem addFolder_files (d : Disk) (p : Place) : (d.addFolder p).files = d.files := by
  unfold Disk.addFolder
  split <;> rfl

theorem create_files (disk : Disk) (root : Place) (supply : Supply) :
    (create disk root supply).disk.files = disk.files := by
  simp only [create, Collection.all, List.foldl_cons, List.foldl_nil, addFolder_files]
  split
  · rfl
  · exact addFolder_files ..

theorem addFolder_faults (d : Disk) (p : Place) : (d.addFolder p).faults = d.faults := by
  unfold Disk.addFolder
  split <;> rfl

theorem mem_addFolder {d : Disk} {p q : Place} (member : q ∈ (d.addFolder p).folders) :
    q = p ∨ q ∈ d.folders := by
  unfold Disk.addFolder at member
  split at member
  · exact .inr member
  · simpa [or_comm] using member

theorem create_mirrors {root : Place} (short : Disk.isLong root = false) (base : String)
    (faults : List Bool) (supply : Supply) :
    (create (.blank base faults) root supply).Mirrors ⟨.empty, faults⟩ := by
  have files : (create (.blank base faults) root supply).disk.files = .empty := create_files ..
  constructor
  · exact short
  · intro p member
    simp only [create, Collection.all, List.foldl_cons, List.foldl_nil] at member
    rcases mem_addFolder member with rfl | member
    · simp [create]
    rcases mem_addFolder member with rfl | member
    · simp [create]
    split at member
    · cases member
    · rcases mem_addFolder member with rfl | member
      · exact Nat.le_succ _
      · cases member
  · simp only [create, Collection.all, List.foldl_cons, List.foldl_nil, addFolder_faults]
    split
    · rfl
    · exact addFolder_faults ..
  · intro c id p _
    rw [files]
    exact .absent
  · intro p file
    rw [files] at file
    cases file
  · intro c id kept
    cases kept

/-- A store that starts with no files answers every run of requests as an archive that starts empty. -/
theorem serves_archive {requests : List Request} {root : Place} (short : Disk.isLong root = false)
    (proper : ∀ r ∈ requests, r.Proper) (base : String) (faults : List Bool) (supply : Supply) :
    ∃ b, Archive.Serves ⟨.empty, faults⟩ requests
      (serveAll requests (create (.blank base faults) root supply)).1 b := by
  obtain ⟨b, serves, -⟩ := serveAll_mirrors (create_mirrors short base faults supply) proper
  exact ⟨b, serves⟩

end Store

-- a record, and a disk that fails after the first write

namespace Tinker

def tinker : Field.Entries := [(.str "id", .str "abc")]

def failing : List Bool := [false, true, true, true, true]

def today : Supply := ⟨0, ⟨2020, 1, 1⟩, ⟨0, 0, 0, 0⟩, none⟩

def opened : Store := .create (.blank "data" failing) [] today

def puts : List Request :=
  [.put .characters tinker false, .put .characters tinker true, .put .characters tinker false]

-- its file name has 256 letters
def longId : String := String.ofList (List.replicate 251 'x')

end Tinker

open Tinker in
theorem longId_named : Store.recordName longId = .ok (longId ++ ".json") := by
  have safe : Text.percentEncode longId = longId := by
    rw [Text.percentEncode, Text.utf8_bytes]
    decide +kernel
  have fit : (decide (longId = "") || decide (longId = ".") || decide (longId = "..")) = false := by
    decide +kernel
  simp only [Store.recordName, safe, fit, Bool.false_eq_true, if_false]

open Tinker in
theorem tinker_unattempted :
    (Store.serveAll puts opened).1 =
        [.ok .stored, .error (.storeWrite "abc.json" Disk.fullReason), .ok .stored] ∧
      (Store.serveAll puts opened).2.disk.faults = [true, true] ∧
      Store.recordName longId = .ok (longId ++ ".json") ∧
      ((Store.get .characters longId).run opened).1 = .error (.breakdown .nameTooLong) := by
  refine ⟨by decide +kernel, by decide +kernel, longId_named, ?_⟩
  have long : Disk.isLong (opened.folder .characters ++ [longId ++ ".json"]) = true := by decide +kernel
  rw [Store.get_tooLong (Store.place_of_recordName longId_named opened .characters) long]

open Tinker in
theorem serves_archive_tinker :
    Disk.isLong [] = false ∧ (∀ r ∈ puts ++ [.list .characters, .delete .characters "abc"], r.Proper) ∧
      ∃ b, Archive.Serves ⟨.empty, failing⟩ (puts ++ [.list .characters, .delete .characters "abc"])
        [.ok .stored, .error (.storeWrite "abc.json" Disk.fullReason), .ok .stored,
          .ok (.listed [tinker]), .ok (.deleted true)] b := by
  have short : Disk.isLong [] = false := rfl
  have nameable : Store.Nameable "abc" := ⟨"abc.json", by decide +kernel, by decide⟩
  have isRecord : Store.IsRecord "abc" tinker :=
    ⟨.map (.of_names ["id"] rfl (by decide)) (by simp [tinker, Value.IsJson.str]), rfl, nameable⟩
  have proper : ∀ r ∈ puts ++ [.list .characters, .delete .characters "abc"], r.Proper := by
    simp only [puts, List.cons_append, List.nil_append, List.forall_mem_cons]
    exact ⟨⟨_, isRecord⟩, ⟨_, isRecord⟩, ⟨_, isRecord⟩, trivial, nameable, nofun⟩
  have replies : (Store.serveAll (puts ++ [.list .characters, .delete .characters "abc"]) opened).1 =
      [.ok .stored, .error (.storeWrite "abc.json" Disk.fullReason), .ok .stored,
        .ok (.listed [tinker]), .ok (.deleted true)] := by
    decide +kernel
  have serves := Store.serves_archive short proper "data" failing today
  exact ⟨short, proper, replies ▸ serves⟩

end Tabletop

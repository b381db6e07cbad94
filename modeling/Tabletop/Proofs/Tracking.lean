import Tabletop.Proofs.Sightings

set_option autoImplicit false

namespace Tabletop

open Tabletop.Field (Entries)
open Record (idIn printOf printOf_eq_iff fingerprintOf_printOf ofEntries_json)

namespace Store

variable {s t start : Store} {c d : Collection} {id name : String} {p : Place} {es : Entries} {seen : Sightings}

-- reading

theorem Tracks.remembered (tracks : Tracks start s seen) (record : isRecordName name = true)
    (holds : s.HoldsRecord c name es) :
    Tracks start { s with known := s.known.insert (c, idIn es) (printOf es) } (seen.see c es) where
  root := tracks.root
  json := tracks.json
  origin d other fs record' holds' := tracks.origin d other fs record' (holds'.of_file rfl rfl)
  known d other name' named := by
    rw [Dict.get?_insert, Sightings.see]
    by_cases here : d = c ∧ other = idIn es
    · obtain ⟨rfl, rfl⟩ := here
      simp
    · have apart : (d, other) ≠ (c, idIn es) := fun same => here (by simpa using same)
      rw [if_neg apart, if_neg here]
      exact tracks.known d other name' named
  named d other fs found := by
    unfold Sightings.see at found
    split at found
    · rename_i here
      cases found
      exact ⟨holds.json, here.2.symm⟩
    · exact tracks.named d other fs found
  backed d other fs found := by
    unfold Sightings.see at found
    split at found
    · rename_i here
      obtain ⟨rfl, rfl⟩ := here
      cases found
      by_cases own : recordName (idIn es) = .ok name
      · exact .inl ⟨name, es, own, holds.of_file rfl rfl, .same _⟩
      · have initial := (tracks.origin d name es record holds).resolve_right own
        exact .inr ⟨name, es, record, own, initial, rfl, .same _⟩
    · exact (tracks.backed d other fs found).imp_left fun onFile => onFile.of_files rfl fun _ _ => rfl

theorem readRecord_tracks (tracks : Tracks start s seen) (c : Collection) (record : isRecordName name = true) :
    ∃ record? t, (readRecord c (s.folder c ++ [name])).run s = (.ok record?, t) ∧
      (∀ es, record? = some es ↔ s.HoldsRecord c name es) ∧ t.disk = s.disk ∧ t.root = s.root ∧
      Tracks start t (record?.elim seen (seen.see c)) := by
  have unread (none : ∀ es, ¬ s.HoldsRecord c name es)
      (reads : (readRecord c (s.folder c ++ [name])).run s = (.ok .none, s)) :
      ∃ record? t, (readRecord c (s.folder c ++ [name])).run s = (.ok record?, t) ∧
        (∀ es, record? = some es ↔ s.HoldsRecord c name es) ∧ t.disk = s.disk ∧ t.root = s.root ∧
        Tracks start t (record?.elim seen (seen.see c)) :=
    ⟨.none, s, reads, fun es => iff_of_false nofun (none es), rfl, rfl, tracks⟩
  cases file : s.disk.files.get? (s.folder c ++ [name]) with
  | none =>
    refine unread (fun es ⟨⟨content, file', _⟩, _⟩ => ?_) ?_
    · cases file.symm.trans file'
    · simp [readRecord, Action.run_bind, Disk.load?, file]
  | some content =>
    have isJson := tracks.json c name content record file
    obtain ⟨v, loads, -⟩ := isJson.loaded
    have loaded : s.disk.load? (s.folder c ++ [name]) = .ok (some v) := by
      rw [Disk.load?, file]
      exact loads
    by_cases holds : ∃ es, s.HoldsRecord c name es
    · obtain ⟨es, holds⟩ := holds
      obtain ⟨content', file', -, loads'⟩ := holds.file
      cases file.symm.trans file'
      cases loads.symm.trans loads'
      refine ⟨some es, _, readRecord_run loaded holds.identified (fingerprintOf_printOf holds.json),
        fun fs => ?_, rfl, rfl, tracks.remembered record holds⟩
      exact ⟨fun same => Option.some.inj same ▸ holds, fun other => congrArg some (holds.unique other)⟩
    · refine unread (fun es => fun other => holds ⟨es, other⟩) ?_
      cases v with
      | map es =>
        have unidentified : (Value.field "id" es).isTruthy = false := by
          rw [← Bool.not_eq_true]
          exact fun identified => holds ⟨es, ⟨content, file, isJson, loads⟩, identified⟩
        simp [readRecord, Action.run_bind, loaded, unidentified]
      | _ => simp [readRecord, Action.run_bind, loaded]

theorem readAll_tracks (tracks : Tracks start s seen) (c : Collection) {names : List String}
    (record : ∀ name ∈ names, isRecordName name = true) :
    ∃ records t, (readAll c (names.map fun name => s.folder c ++ [name])).run s = (.ok records, t) ∧
      Tracks start t (records.foldl (fun seen record => seen.see c record) seen) := by
  induction names generalizing s seen with
  | nil => exact ⟨[], s, rfl, tracks⟩
  | cons name names ih =>
    rw [List.forall_mem_cons] at record
    obtain ⟨record?, t, reads, -, -, root, tracks'⟩ := readRecord_tracks tracks c record.1
    obtain ⟨records, u, readsRest, tracks''⟩ := ih tracks' record.2
    rw [folder_of_root root] at readsRest
    refine ⟨record?.toList ++ records, u, ?_, ?_⟩
    · simp [readAll, Action.run_bind, reads, readsRest]
    · cases record? <;> exact tracks''

theorem list_tracks (tracks : Tracks start s seen) (c : Collection) :
    Tracks start ((serve (.list c)).run s).2 (seen.noted (.list c, ((serve (.list c)).run s).1)) := by
  have record : ∀ name ∈ (s.disk.names (s.folder c)).filter isRecordName, isRecordName name = true :=
    fun name member => (List.mem_filter.1 member).2
  obtain ⟨records, t, reads, tracks'⟩ := readAll_tracks tracks c record
  have listed : (serve (.list c)).run s = (.ok (.listed records), t) := by
    simp [serve, listAll, Action.run_bind, reads]
  rw [listed]
  exact tracks'

theorem get_tracks (tracks : Tracks start s seen) (c : Collection) (id : String) :
    (∀ es, ((serve (.get c id)).run s).1 = .ok (.found (some es)) ↔ ∃ name, recordName id = .ok name ∧
        s.disk.holds (s.folder c ++ [name]) = .ok true ∧ s.HoldsRecord c name es) ∧
      Tracks start ((serve (.get c id)).run s).2 (seen.noted (.get c id, ((serve (.get c id)).run s).1)) := by
  cases named : recordName id with
  | error cause =>
    have fails : (serve (.get c id)).run s = (.error (.breakdown cause), s) := by
      simp only [serve, get, Action.run_bind, Action.run_state, place, named]
      rfl
    rw [fails]
    exact ⟨fun es => iff_of_false (by simp) (by simp), tracks⟩
  | ok name =>
    have placed := place_of_recordName named s c
    cases holds : s.disk.holds (s.folder c ++ [name]) with
    | error cause =>
      have fails : (serve (.get c id)).run s = (.error (.breakdown cause), s) := by
        simp only [serve, get, Action.run_bind, Action.run_state, placed, Action.run_ofExcept_ok, holds]
        rfl
      rw [fails]
      simp [holds, tracks, Sightings.noted]
    | ok there =>
      cases there with
      | false =>
        have gone : (serve (.get c id)).run s = (.ok (.found none), s) := by
          simp [serve, get, Action.run_bind, placed, holds]
        rw [gone]
        simp [holds, tracks, Sightings.noted]
      | true =>
        obtain ⟨record?, t, reads, here, -, -, tracks'⟩ :=
          readRecord_tracks tracks c (isRecordName_recordName named)
        have found : (serve (.get c id)).run s = (.ok (.found record?), t) := by
          simp [serve, get, Action.run_bind, placed, holds, reads]
        rw [found]
        refine ⟨by simp [holds, here], ?_⟩
        cases record? <;> exact tracks'

theorem delete_tracks (tracks : Tracks start s seen) (c : Collection) (id : String) :
    Tracks start ((serve (.delete c id)).run s).2
      (seen.noted (.delete c id, ((serve (.delete c id)).run s).1)) := by
  cases named : recordName id with
  | error cause =>
    have fails : ∃ f, (serve (.delete c id)).run s = (.error f, s) := by
      simp only [serve, delete, Action.run_bind, Action.run_state, place, named]
      exact ⟨_, rfl⟩
    obtain ⟨f, fails⟩ := fails
    rw [fails]
    have others (d : Collection) (other : String) (es : Entries) (found : seen.forget c id d other = some es) :
        seen d other = some es := by
      unfold Sightings.forget at found
      split at found
      · cases found
      · exact found
    refine { tracks with known := fun d other name named' => ?_, named := ?_, backed := ?_ }
    · have apart : ¬ (d = c ∧ other = id) := by
        rintro ⟨-, rfl⟩
        cases named.symm.trans named'
      rw [Sightings.noted, Sightings.forget, if_neg apart]
      exact tracks.known d other name named'
    · exact fun d other es found => tracks.named d other es (others d other es found)
    · exact fun d other es found => tracks.backed d other es (others d other es found)
  | ok name =>
    have placed := place_of_recordName named s c
    rcases removes : s.disk.remove (s.folder c ++ [name]) with ⟨outcome, e⟩
    have runs : ((serve (.delete c id)).run s).2 = { s with known := s.known.erase (c, id), disk := e } := by
      cases outcome <;>
        simp [serve, delete, Store.forget, Action.run_bind, placed, removes, Failure.ofExcept]
    have refreshed : Refreshed s c id name
        (if outcome = .ok true then none else s.disk.files.get? (s.folder c ++ [name])) none
        ((serve (.delete c id)).run s).2 := by
      rw [runs]
      refine ⟨rfl, fun d other _ => ?_, fun key => Dict.get?_erase ..⟩
      simp only [Disk.remove_leaves removes, place_eq_iff]
      by_cases here : d = c ∧ other = name
      · obtain ⟨rfl, rfl⟩ := here
        simp
      · simp [here]
    refine tracks.refreshed named refreshed (fun d other apart => if_neg apart) ?_ ?_ ?_
    · split
      · exact .inl rfl
      · exact .inr (.inl rfl)
    · simp [Sightings.noted, Sightings.forget]
    · simp [Sightings.noted, Sightings.forget]

-- putting

theorem put_serves (json : (Value.map es).IsJson) (c : Collection) (force : Bool) (s : Store) :
    (∃ f, (serve (.put c es force)).run s = (.error f, s)) ∨
      (Value.field "id" es).isTruthy = true ∧ ∃ outcome t,
        PutRun s c ⟨idIn es, .map es, printOf es⟩ force outcome t ∧
          (serve (.put c es force)).run s = (outcome.map fun _ => .stored, t) := by
  cases stored : Record.ofEntries es with
  | error cause =>
    refine .inl ?_
    simp only [serve, Action.run_bind, stored]
    exact ⟨_, rfl⟩
  | ok r =>
    obtain ⟨identified, rfl⟩ := ofEntries_json json stored
    have cases := put_cases s c ⟨idIn es, .map es, printOf es⟩ force
    rcases ran : (put c ⟨idIn es, .map es, printOf es⟩ force).run s with ⟨outcome, t⟩
    rw [ran] at cases
    refine .inr ⟨identified, outcome, t, cases, ?_⟩
    simp only [serve, Action.run_bind, stored, Action.run_ofExcept_ok, ran]
    cases outcome <;> rfl

theorem scratch_ne_record (named : recordName id = .ok name) {other : String} (record : isRecordName other = true)
    (folder folder' : Place) : folder' ++ [other] ≠ Disk.scratch (folder ++ [name]) := by
  rw [scratch_record named]
  intro same
  have last : other = Text.percentEncode id ++ ".tmp" := by simpa using (List.append_inj' same rfl).2
  rw [last, isRecordName, List.isSuffixOf_iff_suffix] at record
  obtain ⟨before, whole⟩ := record
  have letter := congrArg List.getLast? whole
  simp at letter

-- the record is remembered, and its file is left as it is
theorem Tracks.skipped (tracks : Tracks start s seen) (json : (Value.map es).IsJson)
    (named : recordName (idIn es) = .ok name) (known : s.known.get? (c, idIn es) = some (printOf es)) :
    Tracks start s (seen.see c es) := by
  have own : seen.see c es c (idIn es) = some es := by simp [Sightings.see]
  have last := tracks.known c _ name named
  rw [known, eq_comm, Option.map_eq_some_iff] at last
  obtain ⟨old, found, same⟩ := last
  obtain ⟨json', id⟩ := tracks.named c _ old found
  have alike := (printOf_eq_iff json' json).1 same
  have refreshed : Refreshed s c (idIn es) name (s.disk.files.get? (s.folder c ++ [name]))
      (some (printOf es)) s := by
    refine ⟨rfl, fun d other _ => ?_, fun key => ?_⟩
    · split
      · rename_i here
        rw [here.1, here.2]
      · rfl
    · split
      · rename_i here
        rw [here, known]
      · rfl
  refine tracks.refreshed named refreshed (fun d other apart => if_neg apart) (.inr (.inl rfl)) (by simp [own])
    fun fs found' => ?_
  cases own.symm.trans found'
  refine ⟨json, rfl, (tracks.backed c _ old found).imp ?_ ?_⟩
  · exact fun onFile => onFile.alike json' json id alike
  · exact fun misfiled => misfiled.alike json' json id alike

theorem refreshed_written {v : Value} {e : Disk} (named : recordName id = .ok name)
    (wrote : s.disk.write (s.folder c ++ [name]) v = (.ok (), e)) (print : Value) :
    Refreshed s c id name (some (.document v)) (some print)
      { s with disk := e, known := s.known.insert (c, id) print } := by
  refine ⟨rfl, fun d other record => ?_, fun key => Dict.get?_insert ..⟩
  simp only [Disk.write_leaves wrote (scratch_ne_record named record _ _), place_eq_iff, true_and]

theorem holdsRecord_written {e : Disk} (json : (Value.map es).IsJson)
    (identified : (Value.field "id" es).isTruthy = true) (named : recordName (idIn es) = .ok name)
    (wrote : s.disk.write (s.folder c ++ [name]) (.map es) = (.ok (), e))
    (known : Dict (Collection × String) Value) :
    HoldsRecord { s with disk := e, known := known } c name es := by
  have beside := scratch_ne_record named (isRecordName_recordName named) (s.folder c) (s.folder c)
  have file : e.files.get? (s.folder c ++ [name]) = some (.document (.map es)) := by
    simpa using Disk.write_leaves wrote beside
  refine ⟨⟨_, file, .document json, ?_⟩, identified⟩
  rw [Content.load?, json.proper.back]

theorem Tracks.written {e : Disk} (tracks : Tracks start s seen) (json : (Value.map es).IsJson)
    (identified : (Value.field "id" es).isTruthy = true) (named : recordName (idIn es) = .ok name)
    (wrote : s.disk.write (s.folder c ++ [name]) (.map es) = (.ok (), e)) :
    Tracks start { s with disk := e, known := s.known.insert (c, idIn es) (printOf es) } (seen.see c es) := by
  have own : seen.see c es c (idIn es) = some es := by simp [Sightings.see]
  have refreshed := refreshed_written named wrote (printOf es)
  refine tracks.refreshed named refreshed (fun d other apart => if_neg apart) (.inr (.inr ⟨es, rfl, json, rfl⟩))
    (by simp [own]) fun fs found => ?_
  cases own.symm.trans found
  exact ⟨json, rfl, .inl ⟨name, es, named, holdsRecord_written json identified named wrote _, .same _⟩⟩

theorem put_tracks (tracks : Tracks start s seen) (json : (Value.map es).IsJson) (c : Collection) (force : Bool) :
    Tracks start ((serve (.put c es force)).run s).2
      (seen.noted (.put c es force, ((serve (.put c es force)).run s).1)) := by
  rcases put_serves json c force s with ⟨f, fails⟩ | ⟨identified, outcome, t, ran, served⟩
  · rw [fails]
    exact tracks
  · rw [served]
    cases ran with
    | stopped f => exact tracks
    | skipped placed there known =>
      obtain ⟨name, named, -⟩ := place_eq_ok placed
      exact tracks.skipped json named known
    | failed placed wrote =>
      obtain ⟨name, named, rfl⟩ := place_eq_ok placed
      refine tracks.of_files rfl rfl fun d other record => ?_
      simpa using Disk.write_leaves wrote (scratch_ne_record named record (s.folder c) (s.folder d))
    | written placed due wrote =>
      obtain ⟨name, named, rfl⟩ := place_eq_ok placed
      exact tracks.written json identified named wrote

-- one request, and one after the other

theorem serve_tracks {r : Request} (tracks : Tracks start s seen) (json : r.IsJson) :
    Tracks start ((serve r).run s).2 (seen.noted (r, ((serve r).run s).1)) := by
  cases r with
  | put c record force => exact put_tracks tracks json c force
  | get c id => exact (get_tracks tracks c id).2
  | delete c id => exact delete_tracks tracks c id
  | list c => exact list_tracks tracks c

theorem serveAll_tracks {requests : List Request} (tracks : Tracks start s seen)
    (json : ∀ r ∈ requests, r.IsJson) :
    Tracks start (serveAll requests s).2 ((requests.zip (serveAll requests s).1).foldl Sightings.noted seen) := by
  induction requests generalizing s seen with
  | nil => exact tracks
  | cons r requests ih =>
    rw [List.forall_mem_cons] at json
    exact ih (serve_tracks tracks json.1) json.2

theorem create_tracks {disk : Disk} {root : Place}
    (json : ∀ c name content, isRecordName name = true →
      disk.files.get? (root ++ [Collection.name c] ++ [name]) = some content → content.IsJson) (supply : Supply) :
    Tracks (create disk root supply) (create disk root supply) fun _ _ => none where
  root := rfl
  json c name content record file := by
    rw [create_files] at file
    exact json c name content record file
  origin _ _ _ _ := .inl
  known _ _ _ _ := rfl
  named := nofun
  backed := nofun

end Store

end Tabletop
